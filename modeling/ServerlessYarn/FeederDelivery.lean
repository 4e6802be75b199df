/-
  ServerlessYARN model — what the lite feeder delivers to OpenTSDB (`flush_batch` and `add_doc`
  over the connections of `http_post`, lite_feeder.c).

  The feeder is run over a network: each call of `http_post` meets an exchange of its own.  A
  batch whose call failed is sent once more, over a new connection.

  * `Sender.Sent`: what has been posted, written and logged, in terms of the batches;
  * `feeder_traffic`: the requests on the connections are the batches, in their order, each at
    most twice; those that were answered are among them, and the log names those
    that were not stored;
  * `feeder_answers`: if the server answers with responses or not at all, every status is that of the
    response to this very request, and no connection carries a batch twice.
-/
import ServerlessYarn.FeederConnection
import Mathlib.Data.List.ReduceOption

namespace ServerlessYarn

/-! ## The feeder over a network -/

structure Sender where
  feeder : Feeder
  net : Network

/-- What the network does during the calls of `http_post`. -/
abbrev Exchanges := ℕ → Exchange

/-- What `flush_batch` logs. -/
def postError (a : TsdbAddress) (docs : ℕ) (status : ℤ) : CString :=
  ascii "couldn't post " ++ decimal docs ++ ascii " documents to " ++ a.host ++ ascii ":" ++ a.port ++
    ascii " (status " ++ decimal status ++ ascii ")"

namespace Sender

def start : Sender := ⟨Feeder.start, Network.start⟩

variable (a : TsdbAddress) (exchanges : Exchanges)

/-- `http_post`, with what `tsdb_connect` logs. -/
def httpPost (s : Sender) (body : CString) : ℤ × Sender :=
  let ex := exchanges s.feeder.posts.length
  let f := if s.net.sock.isNone && ex.connect = .unresolved then
      logErr s.feeder (ascii "cannot resolve " ++ a.host ++ ascii ":" ++ a.port)
    else s.feeder
  let sent := s.net.post a ex body
  (sent.1, ⟨{ f with posts := f.posts ++ [(body, sent.1)] }, sent.2⟩)

/-- `for (attempt = 0; attempt < 2 && status < 0; attempt++) status = http_post(body)` -/
def postAttempts (body : CString) : ℕ → ℤ → Sender → ℤ × Sender
  | 0, status, s => (status, s)
  | attempts + 1, status, s =>
    if status < 0 then
      postAttempts body attempts (s.httpPost a exchanges body).1 (s.httpPost a exchanges body).2
    else (status, s)

def flushBatch (s : Sender) : Sender :=
  if s.feeder.batchDocs = 0 then s
  else
    let batch := sbAdd s.feeder.batch (ascii "]")
    let sent := postAttempts a exchanges batch.s 2 (-1) ⟨{ s.feeder with batch := batch }, s.net⟩
    let f := if sent.1 ≠ 204 then
        logErr sent.2.feeder (postError a s.feeder.batchDocs sent.1)
      else sent.2.feeder
    ⟨{ f with batch := f.batch.cleared, batchDocs := 0 }, sent.2.net⟩

def addDoc (d : DocArgs) (s : Sender) : Sender :=
  if docSize ≤ d.doc.length then
    ⟨logErr s.feeder (ascii "document too long, discarded: " ++ d.metric), s.net⟩
  else
    let s := if 0 < s.feeder.batchDocs ∧ maxBodyBytes < s.feeder.batch.len + 2 + d.doc.length + 1 then
        s.flushBatch a exchanges
      else s
    let f := s.feeder
    ⟨{ f with batch := sbAdd f.batch ((if f.batchDocs ≠ 0 then ascii ", " else ascii "[") ++ d.doc)
              batchDocs := f.batchDocs + 1 }, s.net⟩

def step (s : Sender) : FeederCall → Sender
  | .addDoc d => s.addDoc a exchanges d
  | .flushBatch => s.flushBatch a exchanges

/-- The feeder after the calls. -/
def run (calls : List FeederCall) : Sender := calls.foldl (step a exchanges) start

end Sender

/-! ## What is to be sent -/

/-- The bodies whose call of `http_post` returned a status. -/
def answeredBodies (posts : List (CString × ℤ)) : List CString :=
  (posts.filter fun post => post.2 ≠ -1).map Prod.fst

/-- A line on a batch that could not be posted. -/
def isPostError (line : CString) : Bool := (ascii "[LITE FEEDER] couldn't post ").isPrefixOf line

/-- The line on a batch, unless its last call returned 204. -/
def errorLine (a : TsdbAddress) (group : List CString) (posts : List (CString × ℤ)) : Option CString :=
  posts.getLast?.bind fun post =>
    if post.2 = 204 then none
    else some (ascii "[LITE FEEDER] " ++ postError a group.length post.2 ++ ascii "\n")

/-- The server answers every request with a response, or not at all. -/
def Answering (exchanges : Exchanges) : Prop := ∀ n, ∃ answer, (exchanges n).Answer answer

namespace Sender

/-- What has been posted and written: the bodies on the closed connections and on the open one. -/
structure Posted (a : TsdbAddress) (exchanges : Exchanges) (s : Sender) (earlier : List (List CString))
    (now : List CString) : Prop where
  traffic : s.net.Traffic a earlier now
  sent : (earlier.flatten ++ now).Sublist (s.feeder.posts.map Prod.fst)
  answered : (answeredBodies s.feeder.posts).Sublist (earlier.flatten ++ now)
  clean : Answering exchanges → s.net.Clean
  statuses : Answering exchanges → ∀ n post, s.feeder.posts[n]? = some post →
    post.2 = -1 ∨ ∃ r, (exchanges n).Answer (some r) ∧ post.2 = (r.status : ℤ)

/-- What has been posted, written and logged, in terms of the batches: the groups of documents, with
    the calls of `http_post` for each, the documents in the buffer, and the bodies on the
    connections. -/
structure Sent (a : TsdbAddress) (exchanges : Exchanges) (s : Sender) (groups : List (List CString))
    (posts : List (List (CString × ℤ))) (pending : List CString) (earlier : List (List CString))
    (now : List CString) : Prop where
  batched : s.feeder.Batched groups posts pending
  errors : s.feeder.stderr.filter isPostError = (List.zipWith (errorLine a) groups posts).reduceOption
  posted : s.Posted a exchanges earlier now
  once : Answering exchanges → ∀ bodies ∈ earlier ++ [now], bodies.Sublist (groups.map bodyOf)

/-! ## Steps -/

variable {a : TsdbAddress} {exchanges : Exchanges} {s : Sender} {earlier : List (List CString)}
  {now : List CString} {body : CString}

theorem isPostError_postError (docs : ℕ) (status : ℤ) :
    isPostError (ascii "[LITE FEEDER] " ++ postError a docs status ++ ascii "\n") = true := by
  simp [isPostError, postError, ascii]

theorem isPostError_resolve (line : CString) :
    isPostError (ascii "[LITE FEEDER] " ++ (ascii "cannot resolve " ++ line) ++ ascii "\n") = false := by
  simp [isPostError, ascii, List.isPrefixOf_cons_cons]

theorem isPostError_long (line : CString) :
    isPostError (ascii "[LITE FEEDER] " ++ (ascii "document too long, discarded: " ++ line) ++ ascii "\n") =
      false := by
  simp [isPostError, ascii, List.isPrefixOf_cons_cons]

/-- The line on a batch counts as one. -/
theorem filter_errorLine (group : List CString) (posts : List (CString × ℤ)) :
    (errorLine a group posts).toList.filter isPostError = (errorLine a group posts).toList := by
  rw [List.filter_eq_self]
  intro line hline
  rw [Option.mem_toList, errorLine] at hline
  obtain ⟨post, -, hpost⟩ := Option.bind_eq_some_iff.1 hline
  simp only [Option.ite_none_left_eq_some, Option.some.injEq] at hpost
  rw [← hpost.2]
  exact isPostError_postError _ _

/-- A call of `http_post` does not touch the buffer, and logs nothing on a batch. -/
theorem httpPost_spec (a : TsdbAddress) (exchanges : Exchanges) (s : Sender) (body : CString) :
    ∃ lines, lines.filter isPostError = [] ∧
      s.httpPost a exchanges body = ((s.net.post a (exchanges s.feeder.posts.length) body).1,
        ⟨{ s.feeder with
            posts := s.feeder.posts ++ [(body, (s.net.post a (exchanges s.feeder.posts.length) body).1)]
            stderr := s.feeder.stderr ++ lines },
          (s.net.post a (exchanges s.feeder.posts.length) body).2⟩) := by
  by_cases hresolve : (s.net.sock.isNone && (exchanges s.feeder.posts.length).connect = .unresolved) = true
  · refine ⟨[ascii "[LITE FEEDER] " ++ (ascii "cannot resolve " ++ (a.host ++ (ascii ":" ++ a.port))) ++ ascii "\n"],
      ?_, ?_⟩
    · rw [List.filter_singleton, isPostError_resolve]
      rfl
    · unfold httpPost
      simp only [if_pos hresolve, logErr, List.append_assoc]
  · refine ⟨[], rfl, ?_⟩
    unfold httpPost
    simp only [if_neg hresolve, List.append_nil]

theorem answeredBodies_concat (posts : List (CString × ℤ)) (body : CString) (status : ℤ) :
    answeredBodies (posts ++ [(body, status)]) =
      answeredBodies posts ++ if status = -1 then [] else [body] := by
  unfold answeredBodies
  rw [List.filter_append, List.map_append, List.filter_singleton]
  by_cases h : status = -1 <;> simp [h]

/-- Only the posts and the connections matter. -/
theorem Posted.congr {s' : Sender} (h : s.Posted a exchanges earlier now)
    (hposts : s'.feeder.posts = s.feeder.posts) (hnet : s'.net = s.net) : s'.Posted a exchanges earlier now where
  traffic := by rw [hnet]; exact h.traffic
  sent := by rw [hposts]; exact h.sent
  answered := by rw [hposts]; exact h.answered
  clean := by rw [hnet]; exact h.clean
  statuses := by rw [hposts]; exact h.statuses

/-- **What one call of `http_post` changes.**  If it fails and the server is one that answers, the connection
    is closed. -/
theorem Posted.httpPost (h : s.Posted a exchanges earlier now) (hbody : body ≠ []) :
    ∃ earlier' now', (s.httpPost a exchanges body).2.Posted a exchanges earlier' now' ∧
      (∀ bodies ∈ earlier' ++ [now'], bodies ∈ earlier ++ [now] ∨ bodies = [] ∨ bodies = now ++ [body]) ∧
      (Answering exchanges → (s.httpPost a exchanges body).1 < 0 → now' = []) := by
  obtain ⟨lines, -, hspec⟩ := httpPost_spec a exchanges s body
  obtain ⟨earlier', now', added, htraffic, hflat, hadded, hanswered, hlists⟩ :=
    h.traffic.post (exchanges s.feeder.posts.length) hbody
  refine ⟨earlier', now', ?_, hlists, fun hall hfail => ?_⟩
  · rw [hspec]
    refine ⟨htraffic, ?_, ?_, fun hall => ?_, fun hall n post hpost => ?_⟩
    · rw [hflat, List.map_append]
      exact h.sent.append hadded
    · rw [hflat, answeredBodies_concat]
      refine h.answered.append ?_
      split_ifs with hminus
      · exact List.nil_sublist _
      · rw [hanswered hminus]
    · obtain ⟨answer, hanswer⟩ := hall s.feeder.posts.length
      exact ((h.clean hall).post hanswer hbody).1
    · rw [List.getElem?_append] at hpost
      split_ifs at hpost with hlt
      · exact h.statuses hall n post hpost
      · obtain ⟨hn, rfl⟩ : n = s.feeder.posts.length ∧
            post = (body, (s.net.post a (exchanges s.feeder.posts.length) body).1) := by
          rw [List.getElem?_singleton] at hpost
          simp only [Option.ite_none_right_eq_some, Option.some.injEq] at hpost
          exact ⟨by omega, hpost.2.symm⟩
        subst hn
        obtain ⟨answer, hanswer⟩ := hall s.feeder.posts.length
        rcases ((h.clean hall).post hanswer hbody).2 with ⟨hminus, -⟩ | ⟨r, rfl, hr⟩
        · exact Or.inl hminus
        · exact Or.inr ⟨r, hanswer, hr⟩
  · obtain ⟨answer, hanswer⟩ := hall s.feeder.posts.length
    rw [hspec] at hfail
    rcases ((h.clean hall).post hanswer hbody).2 with ⟨-, hsock⟩ | ⟨r, -, hr⟩
    · exact htraffic.unopened hsock
    · dsimp only at hfail
      omega

/-- **What the attempts for a body change**: it is posted once, and once more if that failed, then over
    another connection. -/
theorem Posted.attempts (h : s.Posted a exchanges earlier now) (hbody : body ≠ []) :
    ∃ ps lines earlier' now' status, Attempts body ps ∧ ps.getLast? = some (body, status) ∧
      lines.filter isPostError = [] ∧
      (s.postAttempts a exchanges body 2 (-1)).1 = status ∧
      (s.postAttempts a exchanges body 2 (-1)).2.feeder =
        { s.feeder with posts := s.feeder.posts ++ ps, stderr := s.feeder.stderr ++ lines } ∧
      (s.postAttempts a exchanges body 2 (-1)).2.Posted a exchanges earlier' now' ∧
      (Answering exchanges → ∀ bodies ∈ earlier' ++ [now'],
        bodies ∈ earlier ++ [now] ∨ bodies = [] ∨ bodies = now ++ [body] ∨ bodies = [body]) := by
  obtain ⟨lines, hlines, hspec⟩ := httpPost_spec a exchanges s body
  obtain ⟨earlier₁, now₁, hposted₁, hlists₁, hclosed⟩ := h.httpPost hbody
  have hfirst : s.postAttempts a exchanges body 2 (-1) =
      (s.httpPost a exchanges body).2.postAttempts a exchanges body 1 (s.httpPost a exchanges body).1 := rfl
  by_cases hfail : (s.httpPost a exchanges body).1 < 0
  · obtain ⟨lines', hlines', hspec'⟩ := httpPost_spec a exchanges (s.httpPost a exchanges body).2 body
    obtain ⟨earlier₂, now₂, hposted₂, hlists₂, -⟩ := hposted₁.httpPost hbody
    have hsecond : s.postAttempts a exchanges body 2 (-1) =
        (s.httpPost a exchanges body).2.httpPost a exchanges body := by
      rw [hfirst, Sender.postAttempts, if_pos hfail]
      rfl
    refine ⟨[(body, (s.httpPost a exchanges body).1),
        (body, ((s.httpPost a exchanges body).2.httpPost a exchanges body).1)], lines ++ lines', earlier₂, now₂,
      _, Or.inr ⟨_, _, hfail, rfl⟩, rfl, ?_, by rw [hsecond], ?_, by rwa [hsecond], fun hall bodies hb => ?_⟩
    · rw [List.filter_append, hlines, hlines', List.append_nil]
    · rw [hsecond, hspec', hspec]
      simp
    · -- the second one goes over a connection that carries nothing yet
      rw [hclosed hall hfail] at hlists₁ hlists₂
      rcases hlists₂ bodies hb with hold | hnil | hnew
      · rcases hlists₁ bodies hold with hold | hnil | hnew
        · exact Or.inl hold
        · exact Or.inr (Or.inl hnil)
        · exact Or.inr (Or.inr (Or.inl hnew))
      · exact Or.inr (Or.inl hnil)
      · exact Or.inr (Or.inr (Or.inr hnew))
  · have honly : s.postAttempts a exchanges body 2 (-1) = s.httpPost a exchanges body := by
      rw [hfirst, Sender.postAttempts, if_neg hfail]
    refine ⟨[(body, (s.httpPost a exchanges body).1)], lines, earlier₁, now₁, _,
      Or.inl ⟨_, not_lt.1 hfail, rfl⟩, rfl, hlines, by rw [honly], ?_, by rwa [honly], fun _ bodies hb => ?_⟩
    · rw [honly, hspec]
    · rcases hlists₁ bodies hb with hold | hnil | hnew
      · exact Or.inl hold
      · exact Or.inr (Or.inl hnil)
      · exact Or.inr (Or.inr (Or.inl hnew))

variable {groups : List (List CString)} {posts : List (List (CString × ℤ))} {pending : List CString}

theorem Sent.start (a : TsdbAddress) (exchanges : Exchanges) : start.Sent a exchanges [] [] [] [] [] where
  batched := Feeder.batched_start
  errors := rfl
  posted :=
    { traffic := Network.Traffic.start
      sent := List.Sublist.refl _
      answered := List.Sublist.refl _
      clean := fun _ => Network.clean_closed _
      statuses := fun _ n post h => by cases h }
  once := fun _ bodies hb => by
    rw [List.mem_singleton.1 hb]
    exact List.nil_sublist _

/-- **A flush posts the batch in the buffer**, and logs a line on it unless the last call returned 204. -/
theorem Sent.flush (h : s.Sent a exchanges groups posts pending earlier now) :
    ∃ groups' posts' earlier' now', (s.flushBatch a exchanges).Sent a exchanges groups' posts' [] earlier' now' ∧
      groups'.flatten = groups.flatten ++ pending := by
  by_cases hnone : pending = []
  · subst hnone
    have hidle : s.flushBatch a exchanges = s := if_pos h.batched.count
    rw [hidle, List.append_nil]
    exact ⟨groups, posts, earlier, now, h, rfl⟩
  have hcount := h.batched.count
  have hdocs : s.feeder.batchDocs ≠ 0 := by
    rw [hcount]
    exact fun h0 => hnone (List.length_eq_zero_iff.1 h0)
  have hbody : (sbAdd s.feeder.batch (ascii "]")).s = bodyOf pending := by
    rw [sbAdd_s, h.batched.text, openBody_ne_nil hnone]
    rfl
  have hne : bodyOf pending ≠ [] := by simp [bodyOf, ascii]
  have hlen : (bodyOf pending).length ≤ maxBodyBytes := by
    rw [← hbody, sbAdd_s, List.length_append]
    exact h.batched.closable
  have hposted : (⟨{ s.feeder with batch := sbAdd s.feeder.batch (ascii "]") }, s.net⟩ : Sender).Posted a
      exchanges earlier now := h.posted.congr rfl rfl
  obtain ⟨ps, lines, earlier', now', status, hattempts, hlast, hlines, hstatus, hfeeder, hposted', hlists⟩ :=
    hposted.attempts hne
  -- the log: a line unless the last status is 204
  have hresult : ∃ log, log = (errorLine a pending ps).toList ∧ s.flushBatch a exchanges =
      ⟨{ s.feeder with
          batch := (sbAdd s.feeder.batch (ascii "]")).cleared
          batchDocs := 0
          posts := s.feeder.posts ++ ps
          stderr := s.feeder.stderr ++ lines ++ log },
        (postAttempts a exchanges (bodyOf pending) 2 (-1)
          ⟨{ s.feeder with batch := sbAdd s.feeder.batch (ascii "]") }, s.net⟩).2.net⟩ := by
    unfold flushBatch
    rw [if_neg hdocs]
    simp only [hbody, hstatus, hfeeder, errorLine, hlast, Option.bind_some]
    by_cases hok : status = 204
    · rw [if_neg (not_not.2 hok), if_pos hok]
      exact ⟨[], rfl, by rw [List.append_nil]⟩
    · rw [if_pos hok, if_neg hok, hcount]
      exact ⟨_, rfl, rfl⟩
  obtain ⟨log, hlog, hflush⟩ := hresult
  refine ⟨groups ++ [pending], posts ++ [ps], earlier', now', ⟨?_, ?_, ?_, fun hall bodies hb => ?_⟩, by simp⟩
  · rw [hflush]
    refine ⟨?_, ?_, ?_, rfl, rfl, (by decide : ([] : CString).length + 1 ≤ maxBodyBytes)⟩
    · rw [List.flatten_concat, ← h.batched.posted]
    · exact List.rel_append h.batched.attempts (List.Forall₂.cons hattempts List.Forall₂.nil)
    · intro group hgroup
      rcases List.mem_append.1 hgroup with hold | hnew
      · exact h.batched.bounded group hold
      · rw [List.mem_singleton.1 hnew]
        exact ⟨hnone, hlen⟩
  · rw [hflush, List.zipWith_append h.batched.attempts.length_eq, List.zipWith_cons_cons, List.zipWith_nil_right,
      List.reduceOption_append, List.filter_append, List.filter_append, h.errors, hlines, hlog, filter_errorLine,
      List.append_nil]
    cases errorLine a pending ps <;> rfl
  · rw [hflush]
    exact hposted'.congr (by rw [hfeeder]) rfl
  · rw [List.map_append]
    have hnew : [bodyOf pending].Sublist (groups.map bodyOf ++ [bodyOf pending]) := List.sublist_append_right _ _
    rcases hlists hall bodies hb with hold | rfl | rfl | rfl
    · exact (h.once hall bodies hold).trans (List.sublist_append_left _ _)
    · exact List.nil_sublist _
    · exact (h.once hall now (List.mem_append_right _ (List.mem_singleton.2 rfl))).append (List.Sublist.refl _)
    · exact hnew

/-- An accepted document joins the batch in the buffer, or opens the next one. -/
theorem Sent.addDoc (h : s.Sent a exchanges groups posts pending earlier now) (d : DocArgs) :
    ∃ groups' posts' pending' earlier' now',
      (s.addDoc a exchanges d).Sent a exchanges groups' posts' pending' earlier' now' ∧
      groups'.flatten ++ pending' = groups.flatten ++ pending ++ (FeederCall.addDoc d).accepted?.toList := by
  -- a document that fits behind the batch in the buffer
  have happend : ∀ {s : Sender} {groups posts pending earlier now},
      s.Sent a exchanges groups posts pending earlier now → d.doc.length < docSize →
      (s.feeder.batchDocs ≠ 0 → s.feeder.batch.len + 2 + d.doc.length + 1 ≤ maxBodyBytes) →
      Sent a exchanges ⟨{ s.feeder with
        batch := sbAdd s.feeder.batch ((if s.feeder.batchDocs ≠ 0 then ascii ", " else ascii "[") ++ d.doc)
        batchDocs := s.feeder.batchDocs + 1 }, s.net⟩ groups posts (pending ++ [d.doc]) earlier now := by
    intro s groups posts pending earlier now h hdoc hroom
    exact ⟨h.batched.append hdoc hroom, h.errors, h.posted.congr rfl rfl, h.once⟩
  unfold Sender.addDoc
  by_cases hlong : docSize ≤ d.doc.length
  · -- discarded: only the error line is new
    have hnone : (FeederCall.addDoc d).accepted? = none := if_neg (not_lt.2 hlong)
    rw [if_pos hlong, hnone, Option.toList_none, List.append_nil]
    refine ⟨groups, posts, pending, earlier, now, ⟨?_, ?_, ?_, h.once⟩, rfl⟩
    · exact ⟨h.batched.posted, h.batched.attempts, h.batched.bounded, h.batched.text, h.batched.count,
        h.batched.closable⟩
    · rw [logErr, List.filter_append, List.filter_singleton, isPostError_long]
      simpa using h.errors
    · exact h.posted.congr rfl rfl
  · have hdoc : d.doc.length < docSize := not_le.1 hlong
    have hsome : (FeederCall.addDoc d).accepted? = some d.doc := if_pos hdoc
    rw [if_neg hlong, hsome, Option.toList_some]
    by_cases hfull : 0 < s.feeder.batchDocs ∧ maxBodyBytes < s.feeder.batch.len + 2 + d.doc.length + 1
    · obtain ⟨groups', posts', earlier', now', hflushed, hflat⟩ := h.flush
      have hempty : (s.flushBatch a exchanges).feeder.batchDocs = 0 := hflushed.batched.count
      refine ⟨groups', posts', [] ++ [d.doc], earlier', now', ?_, by rw [hflat, List.nil_append]⟩
      simp only [if_pos hfull]
      exact happend hflushed hdoc fun hbusy => absurd hempty hbusy
    · refine ⟨groups, posts, pending ++ [d.doc], earlier, now, ?_, by rw [List.append_assoc]⟩
      simp only [if_neg hfull]
      refine happend h hdoc fun hbusy => ?_
      have hle : ¬ maxBodyBytes < s.feeder.batch.len + 2 + d.doc.length + 1 :=
        fun hlt => hfull ⟨Nat.pos_of_ne_zero hbusy, hlt⟩
      exact not_lt.1 hle

/-- Every run of the feeder is described so, for the documents it has accepted. -/
theorem sent_run (a : TsdbAddress) (exchanges : Exchanges) (calls : List FeederCall) :
    ∃ groups posts pending earlier now,
      (run a exchanges calls).Sent a exchanges groups posts pending earlier now ∧
      groups.flatten ++ pending = calls.filterMap FeederCall.accepted? ∧
      (calls.getLast? = some .flushBatch → pending = []) := by
  induction calls using List.reverseRecOn with
  | nil => exact ⟨[], [], [], [], [], Sent.start a exchanges, rfl, fun _ => rfl⟩
  | append_singleton calls call ih =>
    obtain ⟨groups, posts, pending, earlier, now, hsent, hall, -⟩ := ih
    have hstep : run a exchanges (calls ++ [call]) = (run a exchanges calls).step a exchanges call := by
      unfold run
      rw [List.foldl_append]
      rfl
    rw [hstep, List.filterMap_append, ← hall, List.getLast?_concat]
    cases call with
    | addDoc d =>
      obtain ⟨groups', posts', pending', earlier', now', h', hall'⟩ := hsent.addDoc d
      refine ⟨groups', posts', pending', earlier', now', h', ?_, fun hflush => by cases hflush⟩
      rw [hall', List.filterMap_cons]
      cases (FeederCall.addDoc d).accepted? <;> rfl
    | flushBatch =>
      obtain ⟨groups', posts', earlier', now', h', hall'⟩ := hsent.flush
      refine ⟨groups', posts', [], earlier', now', h', ?_, fun _ => rfl⟩
      rw [List.append_nil, hall']
      exact (List.append_nil _).symm

/-! ## What arrives -/

theorem readRequests_streams {streams : List CString} {lists : List (List CString)}
    (h : List.Forall₂ (Carries a) streams lists) : streams.flatMap readRequests = lists.flatten := by
  induction h with
  | nil => rfl
  | cons hstream _ ih => rw [List.flatMap_cons, List.flatten_cons, hstream.readRequests_eq, ih]

theorem carries_of_mem {streams : List CString} {lists : List (List CString)}
    (h : List.Forall₂ (Carries a) streams lists) {stream : CString} (hmem : stream ∈ streams) :
    ∃ bodies ∈ lists, Carries a stream bodies := by
  induction h with
  | nil => cases hmem
  | cons hstream _ ih =>
    rcases List.mem_cons.1 hmem with rfl | hrest
    · exact ⟨_, List.mem_cons_self, hstream⟩
    · obtain ⟨bodies, hbodies, hcarries⟩ := ih hrest
      exact ⟨bodies, List.mem_cons_of_mem _ hbodies, hcarries⟩

/-- What a server reads of all connections. -/
theorem Posted.requests (h : s.Posted a exchanges earlier now) :
    s.net.streams.flatMap readRequests = earlier.flatten ++ now := by
  rw [Network.streams, List.flatMap_append, readRequests_streams h.traffic.ended]
  cases hsock : s.net.sock with
  | none => rw [h.traffic.unopened hsock]; rfl
  | some conn =>
    have hopen := (Carries.whole a now).readRequests_eq
    rw [← h.traffic.whole conn hsock] at hopen
    simp [hopen]

/-- Each connection carries one of the lists. -/
theorem Posted.carries (h : s.Posted a exchanges earlier now) {stream : CString} (hmem : stream ∈ s.net.streams) :
    ∃ bodies ∈ earlier ++ [now], Carries a stream bodies := by
  rcases List.mem_append.1 hmem with hended | hopen
  · obtain ⟨bodies, hbodies, hcarries⟩ := carries_of_mem h.traffic.ended hended
    exact ⟨bodies, List.mem_append_left _ hbodies, hcarries⟩
  · obtain ⟨conn, hconn, rfl⟩ := Option.map_eq_some_iff.1 (Option.mem_toList.1 hopen)
    refine ⟨now, List.mem_append_right _ (List.mem_singleton.2 rfl), ?_⟩
    rw [h.traffic.whole conn hconn]
    exact Carries.whole a now

end Sender

/-- Posted bodies are those of the groups, each once or twice. -/
theorem posted_sublist {groups : List (List CString)} {posts : List (List (CString × ℤ))}
    (h : List.Forall₂ (fun group => Attempts (bodyOf group)) groups posts) :
    (posts.flatten.map Prod.fst).Sublist (groups.flatMap fun group => [bodyOf group, bodyOf group]) := by
  induction h with
  | nil => exact List.nil_sublist _
  | @cons group ps groups posts hattempts _ ih =>
    rw [List.flatten_cons, List.map_append, List.flatMap_cons]
    refine List.Sublist.append ?_ ih
    rcases hattempts with ⟨status, -, rfl⟩ | ⟨status, status', -, rfl⟩
    · exact List.sublist_append_left [bodyOf group] [bodyOf group]
    · exact List.Sublist.refl _

/-- **What is on the connections.**  Whatever the network does, the requests that a server reads from the
    connections are batches of the accepted documents, in their order, each at most twice; every batch that
    was answered is among them; and from what has arrived so far on a connection, the first of
    its requests are read and nothing else. -/
theorem feeder_traffic (a : TsdbAddress) (exchanges : Exchanges) (calls : List FeederCall) :
    ∃ (groups : List (List CString)) (pending : List CString),
      groups.flatten ++ pending = calls.filterMap FeederCall.accepted? ∧
      (calls.getLast? = some .flushBatch → pending = []) ∧
      ((Sender.run a exchanges calls).net.streams.flatMap readRequests).Sublist
        (groups.flatMap fun group => [bodyOf group, bodyOf group]) ∧
      (answeredBodies (Sender.run a exchanges calls).feeder.posts).Sublist
        ((Sender.run a exchanges calls).net.streams.flatMap readRequests) ∧
      ∀ stream ∈ (Sender.run a exchanges calls).net.streams, ∀ arrived, arrived <+: stream →
        readRequests arrived <+: readRequests stream := by
  obtain ⟨groups, posts, pending, earlier, now, h, hall, hflush⟩ := Sender.sent_run a exchanges calls
  have hsent := h.posted.sent
  rw [h.batched.posted] at hsent
  refine ⟨groups, pending, hall, hflush, ?_, ?_, fun stream hstream arrived harrived => ?_⟩
  · rw [h.posted.requests]
    exact hsent.trans (posted_sublist h.batched.attempts)
  · rw [h.posted.requests]
    exact h.posted.answered
  · obtain ⟨bodies, -, hcarries⟩ := h.posted.carries hstream
    rw [hcarries.readRequests_eq]
    exact hcarries.readRequests_arrived harrived

/-- How the batches are reported: the log has a line on each batch whose last call of `http_post` did not
    return 204, and on no other; what a call returned is -1 or the status of the response to it; a batch
    without a line is on a connection, and the response to it was 204; and no connection carries a
    batch twice. -/
structure FailuresReported (a : TsdbAddress) (exchanges : Exchanges) (s : Sender) (groups : List (List CString))
    (posts : List (List (CString × ℤ))) : Prop where
  log : s.feeder.stderr.filter isPostError = (List.zipWith (errorLine a) groups posts).reduceOption
  own : ∀ n post, s.feeder.posts[n]? = some post →
    post.2 = -1 ∨ ∃ r, (exchanges n).Answer (some r) ∧ post.2 = (r.status : ℤ)
  stored : ∀ group ps, (group, ps) ∈ groups.zip posts → errorLine a group ps = none →
    bodyOf group ∈ s.net.streams.flatMap readRequests ∧
      ∃ n r, s.feeder.posts[n]? = some (bodyOf group, 204) ∧ (exchanges n).Answer (some r) ∧ r.status = 204
  once : ∀ stream ∈ s.net.streams, (readRequests stream).Sublist (groups.map bodyOf)

/-- Without a line on a batch, its last call returned 204. -/
theorem posted_of_errorLine {a : TsdbAddress} {group : List CString} {ps : List (CString × ℤ)}
    (hattempts : Attempts (bodyOf group) ps) (h : errorLine a group ps = none) :
    (bodyOf group, 204) ∈ ps := by
  rcases hattempts with ⟨status, -, rfl⟩ | ⟨status, status', -, rfl⟩
  · simp only [errorLine, List.getLast?_singleton, Option.bind_some, ite_eq_left_iff, reduceCtorEq, imp_false,
      not_not] at h
    rw [h]
    exact List.mem_singleton.2 rfl
  · simp only [errorLine, List.getLast?_cons_cons, List.getLast?_singleton, Option.bind_some, ite_eq_left_iff,
      reduceCtorEq, imp_false, not_not] at h
    rw [h]
    exact List.mem_cons_of_mem _ (List.mem_singleton.2 rfl)

/-- **No batch is lost in silence**, if the server answers with responses or not at all. -/
theorem feeder_answers (a : TsdbAddress) {exchanges : Exchanges} (hall : Answering exchanges)
    (calls : List FeederCall) :
    ∃ (groups : List (List CString)) (posts : List (List (CString × ℤ))) (pending : List CString),
      groups.flatten ++ pending = calls.filterMap FeederCall.accepted? ∧
      (Sender.run a exchanges calls).feeder.posts = posts.flatten ∧
      List.Forall₂ (fun group => Attempts (bodyOf group)) groups posts ∧
      FailuresReported a exchanges (Sender.run a exchanges calls) groups posts := by
  obtain ⟨groups, posts, pending, earlier, now, h, haccepted, -⟩ := Sender.sent_run a exchanges calls
  refine ⟨groups, posts, pending, haccepted, h.batched.posted, h.batched.attempts, h.errors,
    h.posted.statuses hall, fun group ps hmem hline => ?_, fun stream hstream => ?_⟩
  · have hattempts := (List.forall₂_iff_zip.1 h.batched.attempts).2 hmem
    have hpost : (bodyOf group, (204 : ℤ)) ∈ (Sender.run a exchanges calls).feeder.posts := by
      rw [h.batched.posted]
      exact List.mem_flatten.2 ⟨ps, (List.of_mem_zip hmem).2, posted_of_errorLine hattempts hline⟩
    constructor
    · rw [h.posted.requests]
      refine h.posted.answered.subset ?_
      exact List.mem_map.2 ⟨(bodyOf group, 204), List.mem_filter.2 ⟨hpost, rfl⟩, rfl⟩
    · obtain ⟨n, hn, hget⟩ := List.mem_iff_getElem.1 hpost
      have hsome := List.getElem?_eq_getElem hn
      rw [hget] at hsome
      rcases h.posted.statuses hall n _ hsome with hminus | ⟨r, hanswer, hstatus⟩
      · cases hminus
      · have hstored : (204 : ℤ) = r.status := hstatus
        exact ⟨n, r, hsome, hanswer, by exact_mod_cast hstored.symm⟩
  · obtain ⟨bodies, hbodies, hcarries⟩ := h.posted.carries hstream
    rw [hcarries.readRequests_eq]
    exact h.once hall bodies hbodies

/-- A call whose request is answered with the error above. -/
def errorExchange : Exchange := ⟨.connected, [200, 8000], List.replicate 8192 0, errorWhole.pieces⟩

def loopbackAddress : TsdbAddress where
  host := ascii "127.0.0.1"
  port := ascii "4242"
  host_length := by decide
  port_length := by decide
  host_line := by decide
  port_line := by decide

theorem feeder_answers_error :
    ∃ (groups : List (List CString)) (posts : List (List (CString × ℤ))) (pending : List CString),
      groups.flatten ++ pending =
        [FeederCall.addDoc ⟨[], 0, [], []⟩, .flushBatch].filterMap FeederCall.accepted? ∧
      (Sender.run loopbackAddress (fun _ => errorExchange) [.addDoc ⟨[], 0, [], []⟩, .flushBatch]).feeder.posts =
        posts.flatten ∧
      List.Forall₂ (fun group => Attempts (bodyOf group)) groups posts ∧
      FailuresReported loopbackAddress (fun _ => errorExchange)
        (Sender.run loopbackAddress (fun _ => errorExchange) [.addDoc ⟨[], 0, [], []⟩, .flushBatch]) groups posts :=
  feeder_answers loopbackAddress (fun _ => ⟨some errorResponse, .whole errorWhole rfl⟩) _

end ServerlessYarn
