/-
  ServerlessYARN model — the connection of the lite feeder to OpenTSDB (`tsdb_connect` and the
  sending part of `http_post`, lite_feeder.c).

  A connection is kept for the next request.  It is closed when a request cannot be sent
  or its response cannot be read, so that nothing is ever written behind a part of a request.

  * `readRequest_reads`: a server that reads a request up to the length in its header finds
    each request whole, and none before its end;
  * `Network.post_cases`: what a call of `http_post` does to the connections;
  * `Network.Clean.post`: if the server answers a request with a response or not at all, what
    is returned is the status of that response.
-/
import ServerlessYarn.FeederResponse
import ServerlessYarn.Lib.Frames

namespace ServerlessYarn

/-! ## Requests -/

/-- `tsdb_host` and `tsdb_port`: texts without line breaks that fit into 256 and 16 bytes. -/
structure TsdbAddress where
  host : CString
  port : CString
  host_length : host.length < 256
  port_length : port.length < 16
  host_line : 13 ∉ host
  port_line : 13 ∉ port

namespace TsdbAddress

variable (a : TsdbAddress)

/-- The header of a request, before the length of its body. -/
def headerFront : CString :=
  ascii "POST /api/put HTTP/1.1" ++ (ascii "\r\nHost: " ++ (a.host ++ (ascii ":" ++ (a.port ++
    (ascii "\r\nContent-Type: application/json" ++ ascii "\r\nContent-Length: ")))))

/-- `snprintf(header, sizeof header, …)`, and whether all of it fits. -/
def header (len : ℕ) : CString :=
  a.headerFront ++ (decimal len ++ ascii "\r\nConnection: keep-alive\r\n\r\n")

/-- What is sent for a body. -/
def request (body : CString) : CString := a.header body.length ++ body

end TsdbAddress

/-! ## Sending -/

/-- How `tsdb_connect` ends. -/
inductive Connect where
  | unresolved
  | refused
  | connected
deriving DecidableEq

/-- What happens during a call of `http_post`: how `tsdb_connect` ends if it is called, how
    many bytes each call of `send` takes, what the memory of `resp` holds, and what the calls of
    `recv` return after what has been left unread.  Then both time out. -/
structure Exchange where
  connect : Connect
  takes : List ℤ
  stack : List UInt8
  pieces : List CString

/-- `send(sock, header, hl)`: what it writes, and the calls that follow if it wrote all. -/
def sendHeader (header : CString) : List ℤ → CString × Option (List ℤ)
  | [] => ([], none)
  | n :: takes => (header.take n.toNat, if n = header.length then some takes else none)

/-- The loop over the body: what it writes, and whether that is all. -/
def sendBody : List ℤ → CString → CString × Bool
  | [], rest => ([], rest.isEmpty)
  | n :: takes, rest =>
    if rest = [] then ([], true)
    else if n ≤ 0 then ([], false)
    else
      let sent := sendBody takes (rest.drop n.toNat)
      (rest.take n.toNat ++ sent.1, sent.2)

/-- What `http_post` writes, and whether that is the whole request. -/
def sendRequest (header body : CString) (takes : List ℤ) : CString × Bool :=
  match sendHeader header takes with
  | (written, none) => (written, false)
  | (written, some takes) =>
    let sent := sendBody takes body
    (written ++ sent.1, sent.2)

/-! ## Connections -/

/-- An open connection: what has been written to it, and what is left to read from it. -/
structure Conn where
  written : CString
  unread : List CString

/-- What was written to the connections that are closed, in the order in which they were
    opened, and `sock`. -/
structure Network where
  ended : List CString
  sock : Option Conn

namespace Network

/-- As the program starts. -/
def start : Network := ⟨[], none⟩

/-- What has been written to each connection. -/
def streams (net : Network) : List CString := net.ended ++ (net.sock.map Conn.written).toList

/-- `sock < 0 && (sock = tsdb_connect()) < 0` -/
def connection (net : Network) (ex : Exchange) : Option Conn :=
  match net.sock with
  | some conn => some conn
  | none => if ex.connect = .connected then some ⟨[], []⟩ else none

/-- `http_post`: the status it returns, and the connections after it. -/
def post (net : Network) (a : TsdbAddress) (ex : Exchange) (body : CString) : ℤ × Network :=
  match net.connection ex with
  | none => (-1, net)
  | some conn =>
    let sent := sendRequest (a.header body.length) body ex.takes
    let written := conn.written ++ sent.1
    if sent.2 then
      let result := receive ex.stack (conn.unread ++ ex.pieces)
      if result.isOpen then (result.status, ⟨net.ended, some ⟨written, result.unread⟩⟩)
      else (result.status, ⟨net.ended ++ [written], none⟩)
    else (-1, ⟨net.ended ++ [written], none⟩)

end Network

/-! ## Reading requests -/

/-- The name before the length of the body. -/
def lengthField : CString := ascii "\r\nContent-Length:"

/-- A server reads a request: the body, and what comes after it, once all of it is there. -/
def readRequest (s : CString) : Option (CString × CString) :=
  match strstrPos s headerEnd, strstrPos s lengthField with
  | some hdr_end, some field =>
    let len := (atol (s.drop (field + lengthField.length))).toNat
    let rest := s.drop (hdr_end + headerEnd.length)
    if len ≤ rest.length then some (rest.take len, rest.drop len) else none
  | _, _ => none

/-- The bodies of the requests on a connection. -/
def readRequests (s : CString) : List CString := Frames.all readRequest s

/-- Numbers are read back from their digits. -/
theorem digitsValue_decimal (n : ℕ) : digitsValue (decimal n) = n := by
  have hdigits : ∀ c ∈ Nat.toDigits 10 n, c.isDigit := fun c hc =>
    Nat.isDigit_of_mem_toDigits (by decide) (by decide) hc
  have hvalue : ∀ (ds : List Char), (∀ c ∈ ds, c.isDigit) → ∀ init : ℕ,
      (ds.map fun c => UInt8.ofNat c.toNat).foldl (fun n c => 10 * n + (c.toNat - 48)) init =
        Nat.ofDigitChars 10 ds init := by
    intro ds
    induction ds with
    | nil => intro _ init; rfl
    | cons d ds ih =>
      intro hds init
      have hd : d.isDigit := hds d List.mem_cons_self
      have hhigh : d.toNat ≤ 57 := UInt32.le_iff_toNat_le.1 (of_decide_eq_true (Bool.and_eq_true_iff.1 hd).2)
      have hbyte : (UInt8.ofNat d.toNat).toNat = d.toNat := by
        rw [UInt8.toNat_ofNat']
        exact Nat.mod_eq_of_lt (by omega)
      rw [List.map_cons, List.foldl_cons, hbyte, ih fun c hc => hds c (List.mem_cons_of_mem _ hc)]
      rfl
  rw [digitsValue, decimal_eq, hvalue _ hdigits, Nat.ofDigitChars_ten_toDigits]

theorem decimal_length {n : ℕ} (h : n ≤ maxBodyBytes) : (decimal n).length ≤ 4 := by
  rw [decimal_eq, List.length_map]
  refine (Nat.length_toDigits_le_iff (by decide) (by decide)).2 (h.trans_lt ?_)
  unfold maxBodyBytes
  omega

namespace TsdbAddress

variable (a : TsdbAddress)

/-- **No header is cut**, or sent from behind its buffer. -/
theorem header_fits {n : ℕ} (h : n ≤ maxBodyBytes) : (a.header n).length < 512 := by
  have hdigits := decimal_length h
  have hhost := a.host_length
  have hport := a.port_length
  simp only [header, headerFront, List.length_append, ascii, List.length_map, String.length_toList]
  have hfront : "POST /api/put HTTP/1.1".length + "\r\nHost: ".length + ":".length +
      "\r\nContent-Type: application/json".length + "\r\nContent-Length: ".length +
      "\r\nConnection: keep-alive\r\n\r\n".length = 109 := by decide
  omega

/-- The lines of the header, each with the line feed before it. -/
def hostLine : CString := ascii "\nHost: " ++ (a.host ++ (ascii ":" ++ a.port))

def typeLine : CString := ascii "\nContent-Type: application/json"

def lengthLine (n : ℕ) : CString := ascii "\nContent-Length: " ++ decimal n

def keepLine : CString := ascii "\nConnection: keep-alive"

theorem header_lines (n : ℕ) (t : CString) : a.header n ++ t =
    ascii "POST /api/put HTTP/1.1" ++ (13 :: (a.hostLine ++ (13 :: (typeLine ++ (13 :: (lengthLine n ++
      (13 :: (keepLine ++ (headerEnd ++ t))))))))) := by
  simp [header, headerFront, hostLine, typeLine, lengthLine, keepLine, headerEnd, ascii]

theorem notMem_hostLine : 13 ∉ a.hostLine := by
  have hhost := a.host_line
  have hport := a.port_line
  simp [hostLine, ascii, hhost, hport]

theorem notMem_lengthLine (n : ℕ) : 13 ∉ lengthLine n := by
  have hdigits : (13 : UInt8) ∉ decimal n := fun h => absurd (isDigit_of_mem_decimal h) (by decide)
  simp [lengthLine, ascii, hdigits]

theorem header_length (n : ℕ) : (a.header n).length =
    22 + (1 + (a.hostLine.length + (1 + (typeLine.length + (1 + ((lengthLine n).length +
      (1 + (keepLine.length + 4)))))))) := by
  have hlines := congrArg List.length (a.header_lines n [])
  simp only [List.append_nil, List.length_append, List.length_cons] at hlines
  have hfirst : (ascii "POST /api/put HTTP/1.1").length = 22 := by decide
  have hend : headerEnd.length = 4 := by decide
  omega

/-- The header ends where its empty line does. -/
theorem headerEnd_position (n : ℕ) (t : CString) :
    strstrPos (a.header n ++ t) headerEnd = some ((a.header n).length - 4) := by
  have hfirst : (13 : UInt8) ∉ ascii "POST /api/put HTTP/1.1" := by decide
  have htype : (13 : UInt8) ∉ typeLine := by decide
  have hkeep : (13 : UInt8) ∉ keepLine := by decide
  have hhere := Search.position_of_prefix (List.cons_ne_nil 13 [10, 13, 10])
    (List.prefix_append ([13, 10, 13, 10] : CString) t)
  have hlen := a.header_length n
  rw [header_lines, strstrPos, headerEnd_eq, Search.position_block hfirst,
    Search.position_line (by simp [hostLine, ascii]) a.notMem_hostLine,
    Search.position_line (by simp [typeLine, ascii]) htype,
    Search.position_line (by simp [lengthLine, ascii]) (notMem_lengthLine n),
    Search.position_line (by simp [keepLine, ascii]) hkeep, hhere]
  have hfirstLen : (ascii "POST /api/put HTTP/1.1").length = 22 := by decide
  simp only [Option.map_some, hfirstLen]
  congr 1
  omega

/-- The length stands behind the first `Content-Length:` that begins a line. -/
theorem lengthField_position (n : ℕ) (t : CString) :
    ∃ i, strstrPos (a.header n ++ t) lengthField = some i ∧
      (a.header n ++ t).drop (i + lengthField.length) =
        32 :: (decimal n ++ (13 :: (keepLine ++ (headerEnd ++ t)))) := by
  have hfield : lengthField = 13 :: ascii "\nContent-Length:" := by simp [lengthField, ascii]
  have hfirst : (13 : UInt8) ∉ ascii "POST /api/put HTTP/1.1" := by decide
  have htype : (13 : UInt8) ∉ typeLine := by decide
  have hline : 13 :: (lengthLine n ++ (13 :: (keepLine ++ (headerEnd ++ t)))) =
      lengthField ++ (32 :: (decimal n ++ (13 :: (keepLine ++ (headerEnd ++ t))))) := by
    simp [lengthLine, lengthField, ascii]
  have hhere : Search.position lengthField (13 :: (lengthLine n ++ (13 :: (keepLine ++ (headerEnd ++ t))))) =
      some 0 :=
    Search.position_of_prefix (by rw [hfield]; exact List.cons_ne_nil _ _) (hline ▸ List.prefix_append _ _)
  refine ⟨22 + (1 + (a.hostLine.length + (1 + typeLine.length))), ?_, ?_⟩
  · rw [hfield] at hhere
    rw [header_lines, strstrPos, hfield, Search.position_block hfirst,
      Search.position_line (by simp [hostLine, ascii]) a.notMem_hostLine,
      Search.position_line (by simp [typeLine, ascii]) htype, hhere]
    have hfirstLen : (ascii "POST /api/put HTTP/1.1").length = 22 := by decide
    simp only [Option.map_some, hfirstLen]
    congr 1
    omega
  · have hsplit : a.header n ++ t = (ascii "POST /api/put HTTP/1.1" ++ (13 :: (a.hostLine ++ (13 :: typeLine)))) ++
        lengthField ++ (32 :: (decimal n ++ (13 :: (keepLine ++ (headerEnd ++ t))))) := by
      rw [List.append_assoc _ lengthField, ← hline, header_lines]
      simp
    have hfirstLen : (ascii "POST /api/put HTTP/1.1").length = 22 := by decide
    rw [hsplit]
    refine List.drop_left' ?_
    simp only [List.length_append, List.length_cons, hfirstLen]
    omega

end TsdbAddress

/-- The length is read up to its end. -/
theorem atol_lengthLine (n : ℕ) (t : CString) : atol (32 :: (decimal n ++ (13 :: t))) = n := by
  have hnumeral : IsNumeral (32 :: decimal n) n := by
    refine ⟨[32], decimal n, [], by simp, by simp [isSpace], ?_, fun c hc => isDigit_of_mem_decimal hc, ?_,
      digitsValue_decimal n⟩
    · rw [decimal_eq]
      simp
    · intro c hc
      cases hc
  exact hnumeral.atol (t := 13 :: t) fun c hc => Option.some.inj hc ▸ rfl

/-- A request is read once as many bytes of its body are there as its header says. -/
theorem readRequest_header (a : TsdbAddress) (n : ℕ) (t : CString) :
    readRequest (a.header n ++ t) = if n ≤ t.length then some (t.take n, t.drop n) else none := by
  obtain ⟨i, hfield, hdrop⟩ := a.lengthField_position n t
  have hlen := a.header_length n
  have hend : headerEnd.length = 4 := by decide
  have hrest : (a.header n ++ t).drop ((a.header n).length - 4 + headerEnd.length) = t := by
    rw [hend, Nat.sub_add_cancel (by omega), List.drop_left]
  unfold readRequest
  simp only [a.headerEnd_position, hfield, hdrop, hrest, atol_lengthLine, Int.toNat_natCast]

/-- **A request is found whole**, and not before its end. -/
theorem readRequest_reads (a : TsdbAddress) : Frames.Reads a.request readRequest fun _ => True where
  nonempty body _ := by
    have hlen := a.header_length body.length
    refine List.ne_nil_of_length_pos ?_
    rw [TsdbAddress.request, List.length_append]
    omega
  whole body _ t := by
    rw [TsdbAddress.request, List.append_assoc, readRequest_header, if_pos (by simp), List.take_left,
      List.drop_left]
  part body _ s hs hne := by
    rcases List.prefix_or_prefix_of_prefix hs (List.prefix_append (a.header body.length) body) with hle | hle
    · by_cases hall : s = a.header body.length
      · -- the header, and nothing of the body
        have hbody : body ≠ [] := by
          rintro rfl
          exact hne (hall.trans (List.append_nil _).symm)
        have hread := readRequest_header a body.length []
        rw [List.append_nil, if_neg (by simpa using hbody)] at hread
        rwa [hall]
      · obtain ⟨t, ht⟩ := hle
        have hlt : s.length < (a.header body.length).length := by
          rw [← ht, List.length_append]
          refine Nat.lt_add_of_pos_right (List.length_pos_iff.2 ?_)
          rintro rfl
          exact hall (by rw [← ht, List.append_nil])
        have hpos := a.headerEnd_position body.length []
        have hend : headerEnd.length = 4 := by decide
        rw [List.append_nil, ← ht] at hpos
        have hnone : strstrPos s headerEnd = none := by
          refine Search.position_eq_none_of_lt headerEnd_ne_nil hpos ?_
          rw [ht]
          have hlen := a.header_length body.length
          omega
        unfold readRequest
        rw [hnone]
    · obtain ⟨t, rfl⟩ := hle
      have hbody : t <+: body := (List.prefix_append_right_inj _).1 hs
      rw [readRequest_header, if_neg]
      intro hge
      exact hne (congrArg (a.header body.length ++ ·) (hbody.eq_of_length_le hge))

/-! ## What is written -/

/-- The loop over the body writes its beginning, and says whether that is all. -/
theorem sendBody_spec (takes : List ℤ) (body : CString) : (sendBody takes body).1 <+: body ∧
    ((sendBody takes body).2 = true ↔ (sendBody takes body).1 = body) := by
  induction takes generalizing body with
  | nil => cases body <;> simp [sendBody]
  | cons n takes ih =>
    rw [sendBody]
    split_ifs with hdone hfail
    · simp [hdone]
    · simp [Ne.symm hdone]
    · obtain ⟨hle, hiff⟩ := ih (body.drop n.toNat)
      have hsplit := List.take_append_drop n.toNat body
      have hle' := (List.prefix_append_right_inj (body.take n.toNat)).2 hle
      rw [hsplit] at hle'
      refine ⟨hle', hiff.trans ⟨fun h => ?_, fun h => ?_⟩⟩
      · exact (congrArg (body.take n.toNat ++ ·) h).trans hsplit
      · exact List.append_cancel_left (h.trans hsplit.symm)

/-- A request is written whole, or `http_post` knows that it is not. -/
theorem sendRequest_spec (header : CString) {body : CString} (hbody : body ≠ []) (takes : List ℤ) :
    (sendRequest header body takes).1 <+: header ++ body ∧
      ((sendRequest header body takes).2 = true ↔ (sendRequest header body takes).1 = header ++ body) := by
  have hcut : ∀ n, header.take n ≠ header ++ body := by
    intro n h
    have hlen := congrArg List.length h
    have hpos := List.length_pos_iff.2 hbody
    rw [List.length_take, List.length_append] at hlen
    omega
  have hpart : ∀ n, header.take n <+: header ++ body := fun n =>
    (List.take_prefix n header).trans (List.prefix_append header body)
  unfold sendRequest
  cases takes with
  | nil => simpa [sendHeader] using hcut 0
  | cons n takes =>
    by_cases hn : n = header.length
    · obtain ⟨hle, hiff⟩ := sendBody_spec takes body
      simp only [sendHeader, if_pos hn]
      rw [hn, Int.toNat_natCast, List.take_length]
      exact ⟨(List.prefix_append_right_inj _).2 hle, hiff.trans (List.append_right_inj _).symm⟩
    · simp only [sendHeader, if_neg hn]
      exact ⟨hpart _, by simpa using hcut _⟩

/-! ## Connections -/

/-- What is written to a closed connection: requests, and perhaps the beginning of one more. -/
def Carries (a : TsdbAddress) (stream : CString) (bodies : List CString) : Prop :=
  ∃ tail, Frames.Unfinished a.request (fun _ => True) tail ∧ stream = bodies.flatMap a.request ++ tail

theorem Carries.whole (a : TsdbAddress) (bodies : List CString) :
    Carries a (bodies.flatMap a.request) bodies :=
  ⟨[], Frames.unfinished_nil (readRequest_reads a) (b := []) trivial, (List.append_nil _).symm⟩

/-- What a server reads of it. -/
theorem Carries.readRequests_eq {a : TsdbAddress} {stream : CString} {bodies : List CString}
    (h : Carries a stream bodies) : readRequests stream = bodies := by
  obtain ⟨tail, htail, rfl⟩ := h
  exact Frames.all_stream (readRequest_reads a) (fun _ _ => trivial) htail

theorem Carries.readRequests_arrived {a : TsdbAddress} {stream arrived : CString} {bodies : List CString}
    (h : Carries a stream bodies) (ha : arrived <+: stream) : readRequests arrived <+: bodies := by
  obtain ⟨tail, htail, rfl⟩ := h
  exact Frames.all_arrived (readRequest_reads a) (fun _ _ => trivial) htail ha

/-- The bodies on the connections that are closed, and on the open one: that one ends with a whole
    request. -/
structure Network.Traffic (a : TsdbAddress) (net : Network) (earlier : List (List CString))
    (now : List CString) : Prop where
  ended : List.Forall₂ (Carries a) net.ended earlier
  whole : ∀ conn, net.sock = some conn → conn.written = now.flatMap a.request
  unopened : net.sock = none → now = []

namespace Network

variable {a : TsdbAddress} {net : Network} {earlier : List (List CString)} {now : List CString}

theorem Traffic.start : start.Traffic a [] [] where
  ended := List.Forall₂.nil
  whole := fun _ h => by cases h
  unopened := fun _ => rfl

/-- A connection that `http_post` uses carries what the open one does. -/
theorem Traffic.connection (h : net.Traffic a earlier now) {ex : Exchange} {conn : Conn}
    (hconn : net.connection ex = some conn) : conn.written = now.flatMap a.request := by
  unfold Network.connection at hconn
  cases hsock : net.sock with
  | some conn' =>
    rw [hsock] at hconn
    exact Option.some.inj hconn ▸ h.whole conn' hsock
  | none =>
    rw [hsock] at hconn
    simp only [Option.ite_none_right_eq_some, Option.some.injEq] at hconn
    rw [← hconn.2, h.unopened hsock]
    rfl

/-- Closing the connection. -/
theorem Traffic.close (h : net.Traffic a earlier now) {stream : CString} {bodies : List CString}
    (hstream : Carries a stream bodies) :
    (⟨net.ended ++ [stream], none⟩ : Network).Traffic a (earlier ++ [bodies]) [] where
  ended := List.rel_append h.ended (List.Forall₂.cons hstream List.Forall₂.nil)
  whole := fun _ h => by cases h
  unopened := fun _ => rfl

/-- **What a call of `http_post` does**: nothing without a connection; or it writes a part of
    the request and closes the connection; or it writes all of it, and returns what the response says. -/
theorem post_cases (net : Network) (a : TsdbAddress) (ex : Exchange) {body : CString} (hbody : body ≠ []) :
    (net.connection ex = none ∧ net.post a ex body = (-1, net)) ∨
    (∃ conn tail, net.connection ex = some conn ∧ Frames.Unfinished a.request (fun _ => True) tail ∧
      net.post a ex body = (-1, ⟨net.ended ++ [conn.written ++ tail], none⟩)) ∨
    ∃ conn, net.connection ex = some conn ∧
      net.post a ex body =
        ((receive ex.stack (conn.unread ++ ex.pieces)).status,
          if (receive ex.stack (conn.unread ++ ex.pieces)).isOpen then
            ⟨net.ended, some ⟨conn.written ++ a.request body, (receive ex.stack (conn.unread ++ ex.pieces)).unread⟩⟩
          else ⟨net.ended ++ [conn.written ++ a.request body], none⟩) := by
  obtain ⟨hle, hiff⟩ := sendRequest_spec (a.header body.length) hbody ex.takes
  unfold post
  cases hconn : net.connection ex with
  | none => exact Or.inl ⟨rfl, rfl⟩
  | some conn =>
    by_cases hall : (sendRequest (a.header body.length) body ex.takes).2 = true
    · refine Or.inr (Or.inr ⟨conn, rfl, ?_⟩)
      simp only [if_pos hall, hiff.1 hall]
      split_ifs <;> rfl
    · refine Or.inr (Or.inl ⟨conn, _, rfl, ⟨body, trivial, hle, fun h => hall (hiff.2 h)⟩, ?_⟩)
      simp only [if_neg hall]

/-- **A call of `http_post` adds its body to the traffic**, once and on the open connection, or leaves
    the bodies as they are; it does add it if it returns anything but -1. -/
theorem Traffic.post (h : net.Traffic a earlier now) (ex : Exchange) {body : CString} (hbody : body ≠ []) :
    ∃ earlier' now' added, (net.post a ex body).2.Traffic a earlier' now' ∧
      earlier'.flatten ++ now' = earlier.flatten ++ now ++ added ∧ added.Sublist [body] ∧
      ((net.post a ex body).1 ≠ -1 → added = [body]) ∧
      ∀ bodies ∈ earlier' ++ [now'], bodies ∈ earlier ++ [now] ∨ bodies = [] ∨ bodies = now ++ [body] := by
  rcases net.post_cases a ex hbody with ⟨-, hpost⟩ | ⟨conn, tail, hconn, htail, hpost⟩ | ⟨conn, hconn, hpost⟩
  · exact ⟨earlier, now, [], by rwa [hpost], (List.append_nil _).symm, List.nil_sublist _,
      fun hne => absurd (congrArg Prod.fst hpost) hne, fun _ hb => Or.inl hb⟩
  · refine ⟨earlier ++ [now], [], [], ?_, by simp, List.nil_sublist _,
      fun hne => absurd (congrArg Prod.fst hpost) hne, ?_⟩
    · rw [hpost]
      exact h.close ⟨tail, htail, by rw [h.connection hconn]⟩
    · intro bodies hb
      rcases List.mem_append.1 hb with hold | hnew
      · exact Or.inl hold
      · exact Or.inr (Or.inl (List.mem_singleton.1 hnew))
  · have hwritten : conn.written ++ a.request body = (now ++ [body]).flatMap a.request := by
      rw [h.connection hconn]
      simp
    rw [hpost]
    split_ifs
    · refine ⟨earlier, now ++ [body], [body], ⟨h.ended, ?_, fun hnone => by cases hnone⟩, by simp,
        List.Sublist.refl _, fun _ => rfl, ?_⟩
      · rintro _ ⟨⟩
        exact hwritten
      · intro bodies hb
        rcases List.mem_append.1 hb with hold | hnew
        · exact Or.inl (List.mem_append_left _ hold)
        · exact Or.inr (Or.inr (List.mem_singleton.1 hnew))
    · refine ⟨earlier ++ [now ++ [body]], [], [body], h.close ?_, by simp, List.Sublist.refl _, fun _ => rfl, ?_⟩
      · rw [hwritten]
        exact Carries.whole a _
      · intro bodies hb
        rw [List.append_assoc] at hb
        rcases List.mem_append.1 hb with hold | hnew
        · exact Or.inl (List.mem_append_left _ hold)
        · rcases List.mem_pair.1 hnew with rfl | rfl
          · exact Or.inr (Or.inr rfl)
          · exact Or.inr (Or.inl rfl)

end Network

/-! ## Answers -/

/-- What the server answers to a request: all of a response, or only the first pieces of one, or
    nothing. -/
inductive Exchange.Answer (ex : Exchange) : Option HttpResponse → Prop
  | whole {r : HttpResponse} (c : Cut r) (h : ex.pieces = c.pieces) : Answer ex (some r)
  | part {r : HttpResponse} (c : Cut r) {k : ℕ} (hk : k < c.pieces.length) (h : ex.pieces = c.pieces.take k) :
    Answer ex none

/-- The headers are found by the same pieces, whatever comes after them. -/
theorem readHeaders_used {stack : List UInt8} {pieces rest : List CString} {start got : CString} {hdr_end : ℕ}
    (h : readHeaders stack pieces start = some (got, hdr_end, rest)) :
    ∃ used, pieces = used ++ rest ∧
      ∀ rest', readHeaders stack (used ++ rest') start = some (got, hdr_end, rest') := by
  induction pieces generalizing start with
  | nil => cases h
  | cons piece pieces ih =>
    rw [readHeaders] at h
    split_ifs at h with hempty
    simp only at h
    cases hfound : strstrPos (cString (respWith stack (start ++ piece))) headerEnd with
    | some i =>
      rw [hfound] at h
      simp only [Option.some.injEq, Prod.mk.injEq] at h
      obtain ⟨rfl, rfl, rfl⟩ := h
      refine ⟨[piece], rfl, fun rest' => ?_⟩
      rw [List.singleton_append, readHeaders, if_neg hempty]
      simp only [hfound]
    | none =>
      rw [hfound] at h
      simp only at h
      split_ifs at h with hlong
      obtain ⟨used, rfl, hused⟩ := ih h
      refine ⟨piece :: used, rfl, fun rest' => ?_⟩
      rw [List.cons_append, readHeaders, if_neg hempty]
      simp only [hfound, if_neg hlong, hused]

/-- The loop over the body fails if bytes are missing. -/
theorem readBody_missing {clen : ℤ} {pieces : List CString} {body_got : ℤ}
    (h : body_got + pieces.flatten.length < clen) (memory : List UInt8) :
    readBody clen pieces body_got memory = none := by
  induction pieces generalizing body_got memory with
  | nil =>
    simp only [List.flatten_nil, List.length_nil, Nat.cast_zero, add_zero] at h
    rw [readBody, if_pos h]
  | cons piece pieces ih =>
    rw [List.flatten_cons, List.length_append] at h
    push_cast at h
    rw [readBody, if_pos (by omega)]
    split_ifs
    · rfl
    · exact ih (by omega) _

/-- **A response that does not come whole is a failure.** -/
theorem Cut.receive_part {r : HttpResponse} (c : Cut r) {k : ℕ} (hk : k < c.pieces.length) (stack : List UInt8) :
    receive stack (c.pieces.take k) = postFailed := by
  have hwhole := c.readHeaders_eq stack
  unfold receive
  cases hread : readHeaders stack (c.pieces.take k) [] with
  | none => rfl
  | some found =>
    obtain ⟨got, hdr_end, rest⟩ := found
    obtain ⟨used, hused, hany⟩ := readHeaders_used hread
    have hagain := hany (rest ++ c.pieces.drop k)
    rw [← List.append_assoc, ← hused, List.take_append_drop, hwhole] at hagain
    simp only [Option.some.injEq, Prod.mk.injEq] at hagain
    obtain ⟨rfl, rfl, hafter⟩ := hagain
    have hmissing : c.pieces.drop k ≠ [] := by simpa using hk
    have hlost : 0 < (c.pieces.drop k).flatten.length := by
      obtain ⟨piece, pieces, hcons⟩ := List.exists_cons_of_ne_nil hmissing
      have hmem : piece ∈ c.pieces := List.mem_of_mem_drop (hcons ▸ List.mem_cons_self)
      have hpos := List.length_pos_iff.2 (c.nonempty piece hmem)
      rw [hcons, List.flatten_cons, List.length_append]
      omega
    have hlength := congrArg List.length c.got_append
    rw [r.bytes_eq, List.length_append, List.length_append, r.length_head, hafter, List.flatten_append,
      List.length_append] at hlength
    simp only [c.contentLength_eq]
    rw [readBody_missing]
    omega

namespace Network

variable {a : TsdbAddress} {net : Network}

/-- Nothing is left to read. -/
def Clean (net : Network) : Prop := ∀ conn, net.sock = some conn → conn.unread = []

theorem clean_closed (ended : List CString) : (⟨ended, none⟩ : Network).Clean :=
  fun _ h => by cases h

theorem Clean.connection (h : net.Clean) {ex : Exchange} {conn : Conn} (hconn : net.connection ex = some conn) :
    conn.unread = [] := by
  unfold Network.connection at hconn
  cases hsock : net.sock with
  | some conn' =>
    rw [hsock] at hconn
    exact Option.some.inj hconn ▸ h conn' hsock
  | none =>
    rw [hsock] at hconn
    simp only [Option.ite_none_right_eq_some, Option.some.injEq] at hconn
    rw [← hconn.2]

/-- **The status is that of the response to this request**, or the call fails and closes the
    connection. -/
theorem Clean.post (h : net.Clean) {ex : Exchange} {answer : Option HttpResponse} (hanswer : ex.Answer answer)
    {body : CString} (hbody : body ≠ []) : (net.post a ex body).2.Clean ∧
      (((net.post a ex body).1 = -1 ∧ (net.post a ex body).2.sock = none) ∨
        ∃ r, answer = some r ∧ (net.post a ex body).1 = r.status) := by
  rcases net.post_cases a ex hbody with ⟨hconn, hpost⟩ | ⟨conn, tail, -, -, hpost⟩ | ⟨conn, hconn, hpost⟩
  · have hsock : net.sock = none := by
      unfold Network.connection at hconn
      cases hsock : net.sock with
      | some conn => simp [hsock] at hconn
      | none => rfl
    rw [hpost]
    exact ⟨h, Or.inl ⟨rfl, hsock⟩⟩
  · rw [hpost]
    exact ⟨clean_closed _, Or.inl ⟨rfl, rfl⟩⟩
  · rw [hpost, h.connection hconn, List.nil_append]
    cases hanswer with
    | @whole r c hpieces =>
      rw [hpieces, c.receive_eq]
      refine ⟨?_, Or.inr ⟨r, rfl, rfl⟩⟩
      dsimp only
      split_ifs
      · rintro _ ⟨⟩
        rfl
      · exact clean_closed _
    | part c hk hpieces =>
      rw [hpieces, c.receive_part hk]
      exact ⟨clean_closed _, Or.inl ⟨rfl, rfl⟩⟩

end Network

end ServerlessYarn
