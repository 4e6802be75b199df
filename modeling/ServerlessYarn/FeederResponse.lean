/-
  ServerlessYARN model — how the lite feeder reads the response of OpenTSDB (`http_post` of
  lite_feeder.c, after the request is sent).

  Headers and body go into one buffer of 8192 bytes, on the stack.  What `recv` returns for
  the body is laid over the headers from the start of the buffer, and whether to close the
  connection is looked up there afterwards.

  What each call of `recv` returns is a parameter; after these pieces it times out.

  * `readHeaders_eq`: the headers are read whatever the pieces;
  * `readBody_eq`: so is the body, and what is then in the buffer;
  * `receive_eq`: the status is that of the response, all of it is read, and the connection
    is closed iff the buffer shows `Connection: close`;
  * `receive_iff`: when two ways to cut a response are handled alike and as they should be;
  * `shows_iff_closing`, `not_shows_of_long`: which is always so if no piece comes after the
    headers, and never so for a closing response if a long piece of the body does.
-/
import ServerlessYarn.FeederStrings
import ServerlessYarn.Lib.Search
import Mathlib.Data.List.TakeWhile

namespace ServerlessYarn

/-! ## C library -/

/-- `tolower` -/
def toLower (c : UInt8) : UInt8 := if 65 ≤ c && c ≤ 90 then c + 32 else c

/-- The string at the beginning of the memory. -/
def cString (memory : List UInt8) : CString := memory.takeWhile (· ≠ 0)

/-- The position that `strstr` returns. -/
def strstrPos (s needle : CString) : Option ℕ := Search.position needle s

/-- The position that `strcasestr` returns. -/
def strcasestrPos (s needle : CString) : Option ℕ :=
  Search.position (needle.map toLower) (s.map toLower)

/-- The value of digits. -/
def digitsValue (ds : CString) : ℕ := ds.foldl (fun n c => 10 * n + (c.toNat - 48)) 0

/-- `atol`, and `%d` of `sscanf` where it assigns. -/
def atol (s : CString) : ℤ :=
  match s.dropWhile isSpace with
  | 45 :: ds => -(digitsValue (ds.takeWhile isDigit) : ℤ)
  | 43 :: ds => digitsValue (ds.takeWhile isDigit)
  | ds => digitsValue (ds.takeWhile isDigit)

/-- `sscanf(s, "HTTP/%*s %d", &status)`; what is not assigned stays 0. -/
def scanStatus (s : CString) : ℤ :=
  if ascii "HTTP/" <+: s then
    let s := (s.drop 5).dropWhile isSpace
    let word := s.takeWhile fun c => !isSpace c
    if word = [] then 0 else atol (s.drop word.length)
  else 0

/-! ## Reading the response -/

/-- The end of the headers. -/
def headerEnd : CString := ascii "\r\n\r\n"

/-- `resp` and the stack after it, once these bytes and a NUL are written to its start. -/
def respWith (stack got : CString) : List UInt8 := got ++ 0 :: stack.drop (got.length + 1)

/-- The loop over the headers: what has been received, `hdr_end`, and what is still to come. -/
def readHeaders (stack : List UInt8) : List CString → CString → Option (CString × ℕ × List CString)
  | [], _ => none
  | piece :: pieces, got =>
    if piece = [] then none
    else
      let got := got ++ piece
      match strstrPos (cString (respWith stack got)) headerEnd with
      | some hdr_end => some (got, hdr_end, pieces)
      | none => if 8191 ≤ got.length then none else readHeaders stack pieces got

/-- `clen` -/
def contentLength (resp : CString) (hdr_end : ℕ) : ℤ :=
  match strcasestrPos resp (ascii "Content-Length:") with
  | some cl => if cl < hdr_end then atol (resp.drop (cl + 15)) else 0
  | none => 0

/-- The loop over the body, which lays its pieces over the start of the memory. -/
def readBody (clen : ℤ) : List CString → ℤ → List UInt8 → Option (List UInt8 × List CString)
  | [], body_got, memory => if body_got < clen then none else some (memory, [])
  | piece :: pieces, body_got, memory =>
    if body_got < clen then
      if piece = [] then none
      else readBody clen pieces (body_got + piece.length) (piece ++ memory.drop piece.length)
    else some (memory, piece :: pieces)

/-- What is looked for when the body has been read. -/
def connectionClose : CString := ascii "Connection: close"

/-- `conn && conn < hdr_end` -/
def closes (resp : CString) (hdr_end : ℕ) : Bool :=
  match strcasestrPos resp connectionClose with
  | some conn => conn < hdr_end
  | none => false

/-- What `http_post` returns, whether the connection stays open, and what is left to read
    from it. -/
structure PostResult where
  status : ℤ
  isOpen : Bool
  unread : List CString
deriving DecidableEq

/-- `fail:` -/
def postFailed : PostResult := ⟨-1, false, []⟩

/-- `http_post`, after the request is sent. -/
def receive (stack : List UInt8) (pieces : List CString) : PostResult :=
  match readHeaders stack pieces [] with
  | none => postFailed
  | some (got, hdr_end, pieces) =>
    let resp := respWith stack got
    let status := scanStatus (cString resp)
    match readBody (contentLength (cString resp) hdr_end) pieces (got.length - (hdr_end + 4)) resp with
    | none => postFailed
    | some (resp, pieces) =>
      if closes (cString resp) hdr_end then ⟨status, false, []⟩ else ⟨status, true, pieces⟩

/-! ## Responses and ways to cut them -/

/-- Blanks and a number, and nothing that would continue it. -/
def IsNumeral (s : CString) (n : ℕ) : Prop :=
  ∃ blanks digits after, s = blanks ++ (digits ++ after) ∧ (∀ c ∈ blanks, isSpace c = true) ∧
    digits ≠ [] ∧ (∀ c ∈ digits, isDigit c = true) ∧ (∀ c ∈ after.head?, isDigit c = false) ∧
    digitsValue digits = n

/-- The headers begin with a status line. -/
def HasStatus (headers : CString) (status : ℕ) : Prop :=
  ∃ version rest, headers = ascii "HTTP/" ++ (version ++ rest) ∧ version ≠ [] ∧
    (∀ c ∈ version, isSpace c = false) ∧ (∃ c ∈ rest.head?, isSpace c = true) ∧ IsNumeral rest status

/-- The length of the body is said after the first `Content-Length:` of the headers. -/
def HasLength (headers : CString) (length : ℕ) : Prop :=
  ∃ cl, strcasestrPos headers (ascii "Content-Length:") = some cl ∧
    IsNumeral (headers.drop (cl + 15)) length

/-- A response: the status line and the headers, without the empty line at their end, which
    are shorter than the buffer, and the body. -/
structure HttpResponse where
  headers : CString
  body : CString
  status : ℕ
  noNul : 0 ∉ headers
  ends : strstrPos (headers ++ headerEnd) headerEnd = some headers.length
  short : headers.length + 4 < 8192
  hasStatus : HasStatus headers status
  hasLength : HasLength headers body.length

namespace HttpResponse

/-- The bytes of the response. -/
def bytes (r : HttpResponse) : CString := r.headers ++ (headerEnd ++ r.body)

/-- The headers contain `Connection: close`. -/
def Closing (r : HttpResponse) : Prop := ∃ i, strcasestrPos r.headers connectionClose = some i

end HttpResponse

/-- What the calls of `recv` return for a response: the last one before the end of the
    headers is there, and those before and after it.  None returns more than it is asked
    for: what is left of the buffer with room for a NUL, and then the whole buffer. -/
structure Cut (r : HttpResponse) where
  before : List CString
  completing : CString
  afterwards : List CString
  joined : (before ++ completing :: afterwards).flatten = r.bytes
  nonempty : ∀ piece ∈ before ++ completing :: afterwards, piece ≠ []
  incomplete : before.flatten.length < r.headers.length + 4
  complete : r.headers.length + 4 ≤ before.flatten.length + completing.length
  fits : before.flatten.length + completing.length ≤ 8191
  fitsAfterwards : ∀ piece ∈ afterwards, piece.length ≤ 8192

namespace Cut

variable {r : HttpResponse}

def pieces (c : Cut r) : List CString := c.before ++ c.completing :: c.afterwards

/-- What has been received when the headers are complete. -/
def got (c : Cut r) : CString := c.before.flatten ++ c.completing

/-- The byte at a place of the memory in the end: that of the last piece of the body which
    reaches so far, or else what was there when the headers were complete. -/
def byteAt (c : Cut r) (stack : List UInt8) (i : ℕ) : Option UInt8 :=
  (c.afterwards.reverse.findSome? (·[i]?)).or (respWith stack c.got)[i]?

/-- `Connection: close` can be read before the end of the headers, with no NUL before it. -/
def Shows (c : Cut r) (stack : List UInt8) : Prop :=
  ∃ i < r.headers.length, (∀ j < i, c.byteAt stack j ≠ some 0) ∧
    ∀ (k : ℕ) (hk : k < connectionClose.length),
      (c.byteAt stack (i + k)).map toLower = some (toLower connectionClose[k])

end Cut

/-! ## What the headers say -/

theorem headerEnd_ne_nil : headerEnd ≠ [] := by decide

theorem dropWhile_of_head {p : UInt8 → Bool} {s : CString} (h : ∀ c ∈ s.head?, p c = false) :
    s.dropWhile p = s := by
  cases s with
  | nil => rfl
  | cons c s =>
    have hc : ¬ p c = true := by simp [h c rfl]
    exact List.dropWhile_cons_of_neg hc

theorem takeWhile_of_head {p : UInt8 → Bool} {s : CString} (h : ∀ c ∈ s.head?, p c = false) :
    s.takeWhile p = [] := by
  cases s with
  | nil => rfl
  | cons c s =>
    have hc : ¬ p c = true := by simp [h c rfl]
    exact List.takeWhile_cons_of_neg hc

theorem not_isSpace_of_isDigit {c : UInt8} (h : isDigit c = true) :
    isSpace c = false ∧ c ≠ 45 ∧ c ≠ 43 := by
  simp only [isDigit, Bool.and_eq_true, decide_eq_true_eq] at h
  unfold isSpace
  refine ⟨?_, ?_, ?_⟩ <;> grind

/-- A number is read up to its end. -/
theorem IsNumeral.atol {s : CString} {n : ℕ} (h : IsNumeral s n) {t : CString}
    (ht : ∀ c ∈ t.head?, isDigit c = false) : atol (s ++ t) = n := by
  obtain ⟨blanks, digits, after, rfl, hblanks, hne, hdigits, hafter, rfl⟩ := h
  obtain ⟨d, ds, rfl⟩ := List.exists_cons_of_ne_nil hne
  obtain ⟨hspace, hminus, hplus⟩ := not_isSpace_of_isDigit (hdigits d List.mem_cons_self)
  have hend : ∀ c ∈ (after ++ t).head?, isDigit c = false := by
    intro c hc
    rw [List.head?_append] at hc
    cases after with
    | nil => exact ht c hc
    | cons a after => exact hafter c hc
  have hskip : (blanks ++ (d :: ds ++ after) ++ t).dropWhile isSpace = d :: ds ++ (after ++ t) := by
    rw [List.append_assoc, List.dropWhile_append_of_pos hblanks, List.append_assoc]
    exact dropWhile_of_head fun c hc => Option.some.inj hc ▸ hspace
  have hread : (d :: ds ++ (after ++ t)).takeWhile isDigit = d :: ds := by
    rw [List.takeWhile_append_of_pos hdigits, takeWhile_of_head hend, List.append_nil]
  unfold ServerlessYarn.atol
  rw [hskip]
  split
  · rename_i ds' heq
    exact absurd (List.cons_eq_cons.1 heq).1 hminus
  · rename_i ds' heq
    exact absurd (List.cons_eq_cons.1 heq).1 hplus
  · rw [hread]

/-- The status is read from the headers, whatever comes after them. -/
theorem HasStatus.scanStatus {headers : CString} {status : ℕ} (h : HasStatus headers status)
    {t : CString} (ht : ∀ c ∈ t.head?, isDigit c = false) : scanStatus (headers ++ t) = status := by
  obtain ⟨version, rest, rfl, hne, hversion, ⟨c, hc, hspace⟩, hnumeral⟩ := h
  obtain ⟨rest', rfl⟩ := List.head?_eq_some_iff.1 hc
  have hstarts : ascii "HTTP/" <+: ascii "HTTP/" ++ (version ++ c :: rest') ++ t := by
    rw [List.append_assoc]
    exact List.prefix_append _ _
  have hdrop : (ascii "HTTP/" ++ (version ++ c :: rest') ++ t).drop 5 = version ++ (c :: rest' ++ t) := by
    rw [List.append_assoc, List.append_assoc]
    exact List.drop_left' (by decide)
  have hword : (version ++ (c :: rest' ++ t)).takeWhile (fun c => !isSpace c) = version := by
    have hall : ∀ c ∈ version, (!isSpace c) = true := fun c hc => by rw [hversion c hc]; rfl
    rw [List.takeWhile_append_of_pos hall, takeWhile_of_head, List.append_nil]
    intro c' hc'
    rw [← Option.some.inj hc', hspace]
    rfl
  have hskip : (version ++ (c :: rest' ++ t)).dropWhile isSpace = version ++ (c :: rest' ++ t) := by
    obtain ⟨v, vs, rfl⟩ := List.exists_cons_of_ne_nil hne
    exact dropWhile_of_head fun c' hc' => Option.some.inj hc' ▸ hversion v List.mem_cons_self
  unfold ServerlessYarn.scanStatus
  rw [if_pos hstarts]
  simp only [hdrop, hskip, hword, if_neg hne, List.drop_left]
  exact hnumeral.atol ht

/-! ## The headers -/

namespace HttpResponse

variable (r : HttpResponse)

/-- The headers with the empty line that ends them. -/
def head : CString := r.headers ++ headerEnd

theorem bytes_eq : r.bytes = r.head ++ r.body := by
  rw [bytes, head, List.append_assoc]

theorem length_head : r.head.length = r.headers.length + 4 := List.length_append

theorem noNul_head : ∀ c ∈ r.head, c ≠ 0 := by
  rintro c hc rfl
  rcases List.mem_append.1 hc with hc | hc
  · exact r.noNul hc
  · exact absurd hc (by decide)

end HttpResponse

/-- What has been received is read as a string if there is no NUL in it. -/
theorem cString_respWith {got : CString} (h : ∀ c ∈ got, c ≠ 0) (stack : List UInt8) :
    cString (respWith stack got) = got := by
  have hall : ∀ c ∈ got, decide (c ≠ 0) = true := fun c hc => decide_eq_true (h c hc)
  rw [cString, respWith, List.takeWhile_append_of_pos hall, takeWhile_of_head, List.append_nil]
  intro c hc
  rw [← Option.some.inj hc]
  rfl

/-- Once the headers are complete, the string begins with them. -/
theorem cString_respWith_head (r : HttpResponse) (stack t : List UInt8) :
    ∃ t', cString (respWith stack (r.head ++ t)) = r.head ++ t' := by
  have hall : ∀ c ∈ r.head, decide (c ≠ 0) = true := fun c hc => decide_eq_true (r.noNul_head c hc)
  rw [cString, respWith, List.append_assoc, List.takeWhile_append_of_pos hall]
  exact ⟨_, rfl⟩

/-- The end of the headers is not found before it is there. -/
theorem strstrPos_incomplete {r : HttpResponse} {got t : CString} (h : got ++ t = r.bytes)
    (hlt : got.length < r.headers.length + 4) (stack : List UInt8) :
    strstrPos (cString (respWith stack got)) headerEnd = none := by
  rw [← r.length_head] at hlt
  rw [r.bytes_eq] at h
  obtain ⟨rest, hrest⟩ : got <+: r.head :=
    List.prefix_of_prefix_length_le ⟨t, h⟩ (List.prefix_append _ _) hlt.le
  have hnul : ∀ c ∈ got, c ≠ 0 := fun c hc => r.noNul_head c (hrest ▸ List.mem_append_left rest hc)
  rw [cString_respWith hnul]
  refine Search.position_eq_none_of_lt (t := rest) (i := r.headers.length) headerEnd_ne_nil ?_ ?_
  · rw [hrest]
    exact r.ends
  · rwa [r.length_head] at hlt

/-- And then it is found where the headers end. -/
theorem strstrPos_complete (r : HttpResponse) (stack t : List UInt8) :
    strstrPos (cString (respWith stack (r.head ++ t))) headerEnd = some r.headers.length := by
  obtain ⟨t', ht'⟩ := cString_respWith_head r stack t
  rw [ht']
  exact (Search.position_append headerEnd_ne_nil r.length_head.ge).2 r.ends

namespace Cut

variable {r : HttpResponse} (c : Cut r)

theorem got_append : c.got ++ c.afterwards.flatten = r.bytes := by
  rw [← c.joined, got]
  simp

/-- What has been received is the headers and the beginning of the body. -/
theorem got_eq : ∃ t, c.got = r.head ++ t ∧ t ++ c.afterwards.flatten = r.body := by
  have hgot := c.got_append
  rw [r.bytes_eq] at hgot
  have hlength : r.head.length ≤ c.got.length := by
    rw [r.length_head, got, List.length_append]
    exact c.complete
  obtain ⟨t, ht⟩ : r.head <+: c.got :=
    List.prefix_of_prefix_length_le (List.prefix_append _ _) ⟨_, hgot⟩ hlength
  refine ⟨t, ht.symm, ?_⟩
  rw [← ht, List.append_assoc] at hgot
  exact List.append_cancel_left hgot

/-- **The headers are read**, whatever the pieces. -/
theorem readHeaders_eq (stack : List UInt8) :
    readHeaders stack c.pieces [] = some (c.got, r.headers.length, c.afterwards) := by
  obtain ⟨t, hgot, -⟩ := c.got_eq
  -- by induction on the pieces before the headers are complete
  have hloop : ∀ (before : List CString) (start : CString), (∀ piece ∈ before, piece ≠ []) →
      start ++ before.flatten = c.before.flatten →
      readHeaders stack (before ++ c.completing :: c.afterwards) start =
        some (c.got, r.headers.length, c.afterwards) := by
    intro before
    induction before with
    | nil =>
      intro start _ hstart
      rw [List.flatten_nil, List.append_nil] at hstart
      have hne : c.completing ≠ [] :=
        c.nonempty _ (List.mem_append_right _ List.mem_cons_self)
      have hwhole : start ++ c.completing = c.got := by rw [hstart, got]
      rw [List.nil_append, readHeaders, if_neg hne]
      simp only [hwhole]
      rw [hgot, strstrPos_complete]
    | cons piece before ih =>
      intro start hne hstart
      have hflat : start ++ piece ++ before.flatten = c.before.flatten := by
        rw [← hstart, List.flatten_cons, List.append_assoc]
      have hlength : (start ++ piece).length < r.headers.length + 4 := by
        have hsum := congrArg List.length hflat
        rw [List.length_append] at hsum
        have hless := c.incomplete
        omega
      have hbytes : start ++ piece ++ (before.flatten ++ (c.completing ++ c.afterwards.flatten)) =
          r.bytes := by
        rw [← List.append_assoc, hflat, ← c.joined]
        simp
      have hshort := r.short
      rw [List.cons_append, readHeaders, if_neg (hne piece List.mem_cons_self)]
      simp only [strstrPos_incomplete hbytes hlength stack]
      rw [if_neg (by omega)]
      exact ih _ (fun p hp => hne p (List.mem_cons_of_mem _ hp)) hflat
  exact hloop c.before [] (fun p hp => c.nonempty p (List.mem_append_left _ hp)) rfl

/-! ## The body -/

/-- The length of the body is read from the headers. -/
theorem contentLength_eq (stack : List UInt8) :
    contentLength (cString (respWith stack c.got)) r.headers.length = r.body.length := by
  obtain ⟨t, hgot, -⟩ := c.got_eq
  obtain ⟨t', ht'⟩ := cString_respWith_head r stack t
  obtain ⟨cl, hcl, hnumeral⟩ := r.hasLength
  have hne : (ascii "Content-Length:").map toLower ≠ [] := by decide
  have hle : cl + 15 ≤ r.headers.length := by
    have hlength := Search.length_le_of_position hne hcl
    rwa [List.length_map, List.length_map] at hlength
  have hfound : strcasestrPos (r.head ++ t') (ascii "Content-Length:") = some cl := by
    rw [HttpResponse.head, List.append_assoc, strcasestrPos, List.map_append]
    refine (Search.position_append hne ?_).2 hcl
    rw [List.length_map, List.length_map]
    exact hle
  have hdrop : (r.head ++ t').drop (cl + 15) = r.headers.drop (cl + 15) ++ (headerEnd ++ t') := by
    rw [HttpResponse.head, List.append_assoc, List.drop_append_of_le_length hle]
  rw [hgot, ht', contentLength, hfound]
  simp only [if_pos (show cl < r.headers.length by omega), hdrop]
  exact hnumeral.atol fun d hd => Option.some.inj hd ▸ rfl

theorem scanStatus_eq (stack : List UInt8) :
    scanStatus (cString (respWith stack c.got)) = r.status := by
  obtain ⟨t, hgot, -⟩ := c.got_eq
  obtain ⟨t', ht'⟩ := cString_respWith_head r stack t
  rw [hgot, ht', HttpResponse.head, List.append_assoc]
  exact r.hasStatus.scanStatus fun d hd => Option.some.inj hd ▸ rfl

/-- The memory when the body has been read. -/
def memoryAfter (stack : List UInt8) : List UInt8 :=
  c.afterwards.foldl (fun memory piece => piece ++ memory.drop piece.length) (respWith stack c.got)

end Cut

/-- The loop reads the pieces to their end, if they are what is missing of the body. -/
theorem readBody_eq {clen : ℤ} {pieces : List CString} (hne : ∀ piece ∈ pieces, piece ≠ [])
    {body_got : ℤ} (h : body_got + pieces.flatten.length = clen) (memory : List UInt8) :
    readBody clen pieces body_got memory =
      some (pieces.foldl (fun memory piece => piece ++ memory.drop piece.length) memory, []) := by
  induction pieces generalizing body_got memory with
  | nil =>
    rw [readBody, if_neg]
    · rfl
    · simp at h
      omega
  | cons piece pieces ih =>
    have hpiece := hne piece List.mem_cons_self
    have hpos := List.length_pos_iff.2 hpiece
    rw [List.flatten_cons, List.length_append] at h
    push_cast at h
    rw [readBody, if_pos (by omega), if_neg hpiece, List.foldl_cons]
    exact ih (fun p hp => hne p (List.mem_cons_of_mem _ hp)) (by omega) _

/-- A byte of the memory is that of the last piece which reaches so far. -/
theorem getElem?_foldl_overlay (pieces : List CString) (memory : List UInt8) (i : ℕ) :
    (pieces.foldl (fun memory piece => piece ++ memory.drop piece.length) memory)[i]? =
      (pieces.reverse.findSome? (·[i]?)).or memory[i]? := by
  induction pieces using List.reverseRecOn with
  | nil => rfl
  | append_singleton pieces piece ih =>
    rw [List.foldl_append, List.foldl_cons, List.foldl_nil, List.reverse_concat, List.findSome?_cons]
    by_cases hi : i < piece.length
    · rw [List.getElem?_append_left hi, List.getElem?_eq_getElem hi]
      rfl
    · have hle := not_lt.1 hi
      rw [List.getElem?_append_right hle, List.getElem?_drop, Nat.add_sub_cancel' hle, ih,
        List.getElem?_eq_none hle]

/-! ## Closing the connection -/

theorem getElem?_cString {memory : List UInt8} {i : ℕ} {b : UInt8} :
    (cString memory)[i]? = some b ↔ memory[i]? = some b ∧ ∀ j ≤ i, memory[j]? ≠ some 0 := by
  unfold cString
  induction memory generalizing i with
  | nil => simp
  | cons a memory ih =>
    by_cases ha : a = 0
    · have hstop : ¬ decide (a ≠ 0) = true := by simp [ha]
      rw [List.takeWhile_cons, if_neg hstop, List.getElem?_nil]
      refine iff_of_false (by simp) fun h => h.2 0 (Nat.zero_le i) ?_
      rw [ha]
      rfl
    · rw [List.takeWhile_cons, if_pos (decide_eq_true ha)]
      cases i with
      | zero =>
        simp only [List.getElem?_cons_zero, Nat.le_zero, forall_eq, Option.some.injEq]
        refine (and_iff_left ?_).symm
        simpa using ha
      | succ i =>
        rw [List.getElem?_cons_succ, List.getElem?_cons_succ, ih]
        refine and_congr_right fun _ => ⟨fun h j hj => ?_, fun h j hj => ?_⟩
        · cases j with
          | zero => simpa using ha
          | succ j => exact h j (Nat.le_of_succ_le_succ hj)
        · exact h (j + 1) (Nat.succ_le_succ hj)

/-- `Connection: close` stands at this place of the memory, and no NUL before it. -/
def ReadsClose (memory : List UInt8) (i : ℕ) : Prop :=
  (∀ j < i, memory[j]? ≠ some 0) ∧ ∀ (k : ℕ) (hk : k < connectionClose.length),
    memory[i + k]?.map toLower = some (toLower connectionClose[k])

theorem connectionClose_ne_zero :
    ∀ (k : ℕ) (hk : k < connectionClose.length), toLower connectionClose[k] ≠ toLower 0 := by
  decide

theorem prefix_drop_cString_iff {memory : List UInt8} {i : ℕ} :
    connectionClose.map toLower <+: ((cString memory).map toLower).drop i ↔ ReadsClose memory i := by
  rw [List.prefix_iff_getElem?]
  simp only [List.length_map, List.getElem_map, List.getElem?_drop, List.getElem?_map]
  constructor
  · intro h
    have hbyte : ∀ (k : ℕ) (hk : k < connectionClose.length), ∃ b, memory[i + k]? = some b ∧
        toLower b = toLower connectionClose[k] ∧ ∀ j ≤ i + k, memory[j]? ≠ some 0 := by
      intro k hk
      obtain ⟨b, hb, hlower⟩ := Option.map_eq_some_iff.1 (h k hk)
      obtain ⟨hmemory, hnul⟩ := getElem?_cString.1 hb
      exact ⟨b, hmemory, hlower, hnul⟩
    refine ⟨fun j hj => ?_, fun k hk => ?_⟩
    · obtain ⟨-, -, -, hnul⟩ := hbyte 0 (by decide)
      exact hnul j (by omega)
    · obtain ⟨b, hb, hlower, -⟩ := hbyte k hk
      rw [hb, Option.map_some, hlower]
  · rintro ⟨hbefore, hmatch⟩ k hk
    obtain ⟨b, hb, hlower⟩ := Option.map_eq_some_iff.1 (hmatch k hk)
    have hstring : (cString memory)[i + k]? = some b := by
      refine getElem?_cString.2 ⟨hb, fun j hj hzero => ?_⟩
      -- neither before the text nor in it is a NUL
      rcases Nat.lt_or_ge j i with hlt | hge
      · exact hbefore j hlt hzero
      · obtain ⟨k', rfl⟩ := Nat.exists_eq_add_of_le hge
        have hk' : k' < connectionClose.length := by omega
        have hmatch' := hmatch k' hk'
        rw [hzero, Option.map_some] at hmatch'
        exact connectionClose_ne_zero k' hk' (Option.some.inj hmatch').symm
    rw [hstring, Option.map_some, hlower]

theorem closes_iff {memory : List UInt8} {hdr_end : ℕ} :
    closes (cString memory) hdr_end = true ↔ ∃ i < hdr_end, ReadsClose memory i := by
  have hne : connectionClose.map toLower ≠ [] := by decide
  have hfound : closes (cString memory) hdr_end = true ↔
      ∃ i, strcasestrPos (cString memory) connectionClose = some i ∧ i < hdr_end := by
    unfold closes
    cases strcasestrPos (cString memory) connectionClose <;> simp
  rw [hfound]
  refine (Search.exists_position_lt_iff hne).trans ?_
  exact exists_congr fun i => and_congr_right fun _ => prefix_drop_cString_iff

namespace Cut

variable {r : HttpResponse} (c : Cut r)

theorem closes_memoryAfter_iff (stack : List UInt8) :
    closes (cString (c.memoryAfter stack)) r.headers.length = true ↔ c.Shows stack := by
  have hbyte : ∀ i, (c.memoryAfter stack)[i]? = c.byteAt stack i :=
    getElem?_foldl_overlay c.afterwards (respWith stack c.got)
  rw [closes_iff]
  simp only [ReadsClose, hbyte]
  rfl

/-- **How a response is handled**: its status is returned, all of it is read, and the
    connection is closed if the memory shows `Connection: close` in the end. -/
theorem receive_eq (stack : List UInt8) : receive stack c.pieces =
    ⟨r.status, !closes (cString (c.memoryAfter stack)) r.headers.length, []⟩ := by
  have hlength := congrArg List.length c.got_append
  rw [r.bytes_eq, List.length_append, List.length_append, r.length_head] at hlength
  have hgot : ((c.got.length : ℤ) - (r.headers.length + 4)) + c.afterwards.flatten.length =
      r.body.length := by omega
  have hne : ∀ piece ∈ c.afterwards, piece ≠ [] := fun piece hp =>
    c.nonempty piece (List.mem_append_right _ (List.mem_cons_of_mem _ hp))
  have hbody := readBody_eq hne hgot (respWith stack c.got)
  unfold receive
  rw [c.readHeaders_eq]
  simp only [c.scanStatus_eq, c.contentLength_eq, hbody]
  show (if closes (cString (c.memoryAfter stack)) r.headers.length = true then _ else _) = _
  cases closes (cString (c.memoryAfter stack)) r.headers.length <;> rfl

theorem isOpen_receive (stack : List UInt8) :
    (receive stack c.pieces).isOpen = false ↔ c.Shows stack := by
  rw [c.receive_eq, ← c.closes_memoryAfter_iff, Bool.not_eq_false']

end Cut

/-- What is asked of the handling of a response, cut in two ways: the same status and the
    same state of the connection, which is closed exactly if the headers say so, and
    otherwise has nothing left to read. -/
structure HandledAlike (r : HttpResponse) (result result' : PostResult) : Prop where
  status : result.status = result'.status
  connection : result.isOpen = result'.isOpen
  closed : result.isOpen = false ↔ r.Closing
  consumed : result.isOpen = true → result.unread = [] ∧ result'.unread = []

/-- **Two ways to cut a response are handled alike and as they should be iff** in both the
    memory shows `Connection: close` exactly if the headers contain it. -/
theorem receive_iff {r : HttpResponse} (c c' : Cut r) (stack stack' : List UInt8) :
    HandledAlike r (receive stack c.pieces) (receive stack' c'.pieces) ↔
      (c.Shows stack ↔ r.Closing) ∧ (c'.Shows stack' ↔ r.Closing) := by
  have hopen := c.isOpen_receive stack
  have hopen' := c'.isOpen_receive stack'
  constructor
  · intro h
    refine ⟨hopen.symm.trans h.closed, hopen'.symm.trans ?_⟩
    rw [← h.connection]
    exact h.closed
  · rintro ⟨hshows, hshows'⟩
    have hclosed := hopen.trans hshows
    have hclosed' := hopen'.trans hshows'
    refine ⟨?_, ?_, hclosed, fun _ => ?_⟩
    · rw [c.receive_eq, c'.receive_eq]
    · rw [← Bool.not_inj_iff, Bool.eq_iff_iff, Bool.not_eq_true', Bool.not_eq_true', hclosed, hclosed']
    · rw [c.receive_eq, c'.receive_eq]
      exact ⟨rfl, rfl⟩

/-! ## Which ways to cut a response show the headers -/

/-- The text cannot go on into the end of the headers. -/
theorem readsClose_append_iff {headers t : CString} {i : ℕ} (hi : i < headers.length) :
    ReadsClose (headers ++ 13 :: t) i ↔ ReadsClose headers i := by
  have hbefore : (∀ j < i, (headers ++ 13 :: t)[j]? ≠ some 0) ↔ ∀ j < i, headers[j]? ≠ some 0 := by
    refine forall₂_congr fun j hj => ?_
    rw [List.getElem?_append_left (hj.trans hi)]
  refine and_congr hbefore ⟨fun h k hk => ?_, fun h k hk => ?_⟩
  · have hinside : i + k < headers.length := by
      by_contra hout
      have hat := h (headers.length - i) (by omega)
      rw [Nat.add_sub_cancel' hi.le, List.getElem?_append_right le_rfl, Nat.sub_self] at hat
      have hno : ∀ (k : ℕ) (hk : k < connectionClose.length),
          toLower connectionClose[k] ≠ toLower 13 := by decide
      exact hno _ _ (Option.some.inj hat).symm
    rw [← h k hk, List.getElem?_append_left hinside]
  · have hinside : i + k < headers.length := by
      obtain ⟨b, hb, -⟩ := Option.map_eq_some_iff.1 (h k hk)
      exact (List.getElem?_eq_some_iff.1 hb).1
    rw [← h k hk, List.getElem?_append_left hinside]

namespace HttpResponse

theorem closing_iff {r : HttpResponse} :
    r.Closing ↔ ∃ i < r.headers.length, ReadsClose r.headers i := by
  have hne : connectionClose.map toLower ≠ [] := by decide
  have hstring : cString r.headers = r.headers := by
    refine List.takeWhile_eq_self_iff.2 fun c hc => decide_eq_true ?_
    rintro rfl
    exact r.noNul hc
  rw [← closes_iff, hstring, closes, Closing]
  cases hfound : strcasestrPos r.headers connectionClose with
  | none => simp
  | some i =>
    have hlength := Search.length_le_of_position hne hfound
    rw [List.length_map, List.length_map] at hlength
    have hpos : 0 < connectionClose.length := by decide
    simp only [Option.some.injEq, exists_eq', decide_eq_true_eq, true_iff]
    omega

end HttpResponse

namespace Cut

variable {r : HttpResponse} (c : Cut r)

/-- **If nothing of the body comes after the headers, they are shown.** -/
theorem shows_iff_closing (h : c.afterwards = []) (stack : List UInt8) :
    c.Shows stack ↔ r.Closing := by
  obtain ⟨t, hgot, -⟩ := c.got_eq
  have hmemory : ∃ t', c.memoryAfter stack = r.headers ++ 13 :: t' := by
    rw [memoryAfter, h, hgot]
    exact ⟨_, by rw [List.foldl_nil, respWith, HttpResponse.head, List.append_assoc, List.append_assoc]; rfl⟩
  obtain ⟨t', ht'⟩ := hmemory
  rw [← c.closes_memoryAfter_iff, closes_iff, HttpResponse.closing_iff, ht']
  exact exists_congr fun i => and_congr_right fun hi => readsClose_append_iff hi

/-- A last piece of the body that reaches beyond the headers hides them, unless it contains
    the text itself. -/
theorem not_shows_of_long (stack : List UInt8) {before : List CString} {piece : CString}
    (hpiece : c.afterwards = before ++ [piece])
    (hlong : r.headers.length + connectionClose.length ≤ piece.length)
    (hfree : ∀ i < r.headers.length, ¬ ReadsClose piece i) : ¬ c.Shows stack := by
  have hbyte : ∀ i < piece.length, c.byteAt stack i = piece[i]? := by
    intro i hi
    rw [byteAt, hpiece, List.reverse_concat, List.findSome?_cons, List.getElem?_eq_getElem hi]
    rfl
  rintro ⟨i, hi, hnul, hmatch⟩
  refine hfree i hi ⟨fun j hj => ?_, fun k hk => ?_⟩
  · rw [← hbyte j (by omega)]
    exact hnul j hj
  · rw [← hbyte (i + k) (by omega)]
    exact hmatch k hk

end Cut

/-! ## A response that closes the connection -/

theorem HttpResponse.head_ne_nil (r : HttpResponse) : r.head ≠ [] :=
  List.ne_nil_of_length_pos (by rw [r.length_head]; omega)

/-- The response in one piece. -/
def Cut.whole (r : HttpResponse) (h : r.bytes.length ≤ 8191) : Cut r where
  before := []
  completing := r.bytes
  afterwards := []
  joined := List.append_nil _
  nonempty := by
    intro piece hp
    rw [List.mem_singleton.1 hp, r.bytes_eq]
    exact List.append_ne_nil_of_left_ne_nil r.head_ne_nil _
  incomplete := Nat.succ_pos _
  complete := by
    rw [r.bytes_eq, List.length_append, r.length_head]
    exact (Nat.le_add_right _ _).trans (Nat.le_add_left _ _)
  fits := (Nat.zero_add _).trans_le h
  fitsAfterwards := fun _ hp => absurd hp List.not_mem_nil

/-- The headers first, and then the body. -/
def Cut.headersFirst (r : HttpResponse) (hne : r.body ≠ []) (h : r.body.length ≤ 8192) : Cut r where
  before := []
  completing := r.head
  afterwards := [r.body]
  joined := by
    rw [r.bytes_eq]
    exact congrArg (r.head ++ ·) (List.append_nil _)
  nonempty := by
    intro piece hp
    rcases List.mem_pair.1 hp with rfl | rfl
    · exact r.head_ne_nil
    · exact hne
  incomplete := Nat.succ_pos _
  complete := by rw [r.length_head]; exact Nat.le_add_left _ _
  fits := by
    have hshort := r.short
    rw [r.length_head, List.flatten_nil, List.length_nil]
    omega
  fitsAfterwards := fun _ hp => (List.mem_singleton.1 hp) ▸ h

def errorFields : CString := ascii " Bad Request\r\nConnection: close\r\nContent-Length: 40"

/-- The headers of an error whose body has forty bytes. -/
def errorHeaders : CString := ascii "HTTP/" ++ (ascii "1.1" ++ (ascii " " ++ (ascii "400" ++ errorFields)))

def errorBody : CString := List.replicate 40 120

/-- The bytes of the headers, which the tests below run over. -/
theorem errorHeaders_eq : errorHeaders =
    [72, 84, 84, 80, 47, 49, 46, 49, 32, 52, 48, 48, 32, 66, 97, 100, 32, 82, 101, 113, 117, 101, 115, 116, 13, 10,
      67, 111, 110, 110, 101, 99, 116, 105, 111, 110, 58, 32, 99, 108, 111, 115, 101, 13, 10,
      67, 111, 110, 116, 101, 110, 116, 45, 76, 101, 110, 103, 116, 104, 58, 32, 52, 48] := by
  simp [errorHeaders, errorFields, ascii]

theorem headerEnd_eq : headerEnd = [13, 10, 13, 10] := by
  simp [headerEnd, ascii]

theorem connectionClose_eq : connectionClose =
    [67, 111, 110, 110, 101, 99, 116, 105, 111, 110, 58, 32, 99, 108, 111, 115, 101] := by
  simp [connectionClose, ascii]

theorem errorHeaders_hasStatus : HasStatus errorHeaders 400 := by
  have hversion : (ascii "1.1").all (!isSpace ·) = true := by decide
  have hblank : (ascii " ").all isSpace = true := by decide
  have hdigits : (ascii "400").all isDigit = true := by decide
  refine ⟨ascii "1.1", ascii " " ++ (ascii "400" ++ errorFields), rfl, by simp [ascii], ?_, ⟨32, rfl, by decide⟩,
    ascii " ", ascii "400", errorFields, rfl, List.all_eq_true.1 hblank, by simp [ascii],
    List.all_eq_true.1 hdigits, ?_, by decide⟩
  · intro c hc
    simpa using List.all_eq_true.1 hversion c hc
  · intro c hc
    obtain rfl : 32 = c := Option.some.inj hc
    decide

theorem errorHeaders_hasLength : HasLength errorHeaders 40 := by
  have hname : ascii "Content-Length:" = [67, 111, 110, 116, 101, 110, 116, 45, 76, 101, 110, 103, 116, 104, 58] := by
    simp [ascii]
  have hblank : ([32] : CString).all isSpace = true := by decide
  have hdigits : ([52, 48] : CString).all isDigit = true := by decide
  refine ⟨45, ?_, [32], [52, 48], [], ?_, List.all_eq_true.1 hblank, List.cons_ne_nil _ _,
    List.all_eq_true.1 hdigits, ?_, by decide⟩
  · rw [errorHeaders_eq, hname]
    decide
  · rw [errorHeaders_eq]
    rfl
  · intro c hc
    cases hc

theorem errorHeaders_noNul : 0 ∉ errorHeaders := by
  rw [errorHeaders_eq]
  simp

theorem errorHeaders_ends : strstrPos (errorHeaders ++ headerEnd) headerEnd = some errorHeaders.length := by
  rw [errorHeaders_eq, headerEnd_eq]
  decide

theorem errorHeaders_short : errorHeaders.length + 4 < 8192 := by
  rw [errorHeaders_eq]
  simp

def errorResponse : HttpResponse where
  headers := errorHeaders
  body := errorBody
  status := 400
  noNul := errorHeaders_noNul
  ends := errorHeaders_ends
  short := errorHeaders_short
  hasStatus := errorHeaders_hasStatus
  hasLength := errorHeaders_hasLength

theorem errorBody_fits : errorResponse.body.length ≤ 8192 := by
  show errorBody.length ≤ 8192
  rw [errorBody, List.length_replicate]
  omega

theorem errorResponse_fits : errorResponse.bytes.length ≤ 8191 := by
  show (errorHeaders ++ (headerEnd ++ errorBody)).length ≤ 8191
  rw [errorHeaders_eq, headerEnd_eq, errorBody, List.length_append, List.length_append, List.length_replicate]
  simp

/-- The response in one piece, and with its body after its headers. -/
def errorWhole : Cut errorResponse := .whole errorResponse errorResponse_fits

def errorLate : Cut errorResponse :=
  .headersFirst errorResponse (List.cons_ne_nil _ _) errorBody_fits

theorem errorResponse_closing : errorResponse.Closing := by
  refine ⟨26, ?_⟩
  show strcasestrPos errorHeaders connectionClose = some 26
  rw [errorHeaders_eq, connectionClose_eq]
  decide

/-- The body lies over the beginning of the text. -/
theorem cString_errorLate (stack : List UInt8) : cString (errorLate.memoryAfter stack) =
    List.replicate 40 120 ++ [111, 115, 101, 13, 10, 67, 111, 110, 116, 101, 110, 116, 45, 76, 101, 110, 103, 116,
      104, 58, 32, 52, 48, 13, 10, 13, 10] := by
  have hlaid : errorLate.memoryAfter stack = errorBody ++ (respWith stack (errorHeaders ++ headerEnd)).drop 40 := rfl
  rw [hlaid, errorHeaders_eq, headerEnd_eq, errorBody, cString, List.takeWhile_append_of_pos]
  · rfl
  · intro c hc
    rw [List.eq_of_mem_replicate hc]
    decide

/-- The body hides that the connection is to be closed: it stays open if the body comes
    after the headers. -/
theorem receive_errorLate :
    receive (List.replicate 8192 0) errorWhole.pieces = ⟨400, false, []⟩ ∧
      receive (List.replicate 8192 0) errorLate.pieces = ⟨400, true, []⟩ ∧
      ¬ HandledAlike errorResponse (receive (List.replicate 8192 0) errorWhole.pieces)
        (receive (List.replicate 8192 0) errorLate.pieces) := by
  have hshown : errorWhole.Shows (List.replicate 8192 0) :=
    (errorWhole.shows_iff_closing rfl _).2 errorResponse_closing
  have hwhole : receive (List.replicate 8192 0) errorWhole.pieces = ⟨400, false, []⟩ := by
    rw [errorWhole.receive_eq, (errorWhole.closes_memoryAfter_iff _).2 hshown]
    rfl
  have hlate : receive (List.replicate 8192 0) errorLate.pieces = ⟨400, true, []⟩ := by
    have hhidden : closes (cString (errorLate.memoryAfter (List.replicate 8192 0))) errorHeaders.length = false := by
      rw [cString_errorLate, closes, connectionClose_eq]
      decide
    rw [errorLate.receive_eq]
    exact congrArg (fun closed => (⟨400, !closed, []⟩ : PostResult)) hhidden
  refine ⟨hwhole, hlate, fun h => ?_⟩
  have hsame := h.connection
  rw [hwhole, hlate] at hsame
  cases hsame

end ServerlessYarn
