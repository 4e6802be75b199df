/-
  ServerlessYARN model — the output of the lite feeder (lite_feeder.c).

  Documents are pasted into a growing buffer, `Sbuf`, and posted to OpenTSDB as
  one JSON array when the next one would not fit into a body, or at the end of a
  sample.  A C string is the list of its bytes before the terminating NUL.

  * `sbAdd_s`: `sb_add` appends the whole text, however often it has to enlarge
    the buffer;
  * `Feeder.Batched`: what has been posted and what is in the buffer, in terms of
    the accepted documents;
  * `feeder_batches`: the bodies posted are the accepted documents, each in one
    body, in their order, and no body is too long.
-/
import Mathlib.Algebra.Order.Ring.Int
import Mathlib.Data.List.Forall2
import Mathlib.Data.List.Induction

namespace ServerlessYarn

/-! ## C strings -/

/-- A C string: its bytes before the terminating NUL. -/
abbrev CString := List UInt8

/-- The bytes of a string literal of the source (ASCII). -/
def ascii (s : String) : CString :=
  s.toList.map fun c => UInt8.ofNat c.toNat

/-- `%d`, `%ld` -/
def decimal (n : ℤ) : CString :=
  ascii (toString n)

/-! ## Growing buffers -/

/-- A buffer with `cap` bytes, of which the first `len` are in use. -/
structure Sbuf where
  s : CString
  cap : ℕ
  length_le : s.length ≤ cap

namespace Sbuf

def len (b : Sbuf) : ℕ := b.s.length

def room (b : Sbuf) : ℕ := b.cap - b.len

/-- The capacity after a text of `n` bytes did not fit. -/
def grownCap (b : Sbuf) (n : ℕ) : ℕ :=
  if b.cap ≠ 0 then b.cap * 2 + n else 65536

theorem length_le_grownCap (b : Sbuf) (n : ℕ) : b.s.length ≤ b.grownCap n := by
  have h := b.length_le
  unfold grownCap
  split_ifs <;> omega

/-- `realloc` keeps the contents. -/
def grow (b : Sbuf) (n : ℕ) : Sbuf :=
  ⟨b.s, b.grownCap n, b.length_le_grownCap n⟩

/-- The text fits, with its NUL. -/
def Fits (b : Sbuf) (text : CString) : Prop :=
  text.length < b.room

instance (b : Sbuf) (text : CString) : Decidable (b.Fits text) :=
  Nat.decLt _ _

theorem length_le_of_fits {b : Sbuf} {text : CString} (h : b.Fits text) :
    (b.s ++ text).length ≤ b.cap := by
  have hlt : text.length < b.cap - b.s.length := h
  rw [List.length_append]
  omega

/-- Every attempt leaves more room than the one before. -/
theorem lt_room_grow {b : Sbuf} {n : ℕ} (h : ¬ n < b.room) : n + 1 - (b.grow n).room < n + 1 - b.room := by
  have hle := b.length_le
  have hroom : (b.grow n).room = b.grownCap n - b.s.length := rfl
  rw [hroom]
  unfold room len at h ⊢
  unfold grownCap
  split_ifs <;> omega

end Sbuf

/-- `sb_add`: prints the text behind the contents, enlarging the buffer until it
    fits.  A failed attempt writes only behind the contents. -/
def sbAdd (b : Sbuf) (text : CString) : Sbuf :=
  if h : b.Fits text then
    ⟨b.s ++ text, b.cap, Sbuf.length_le_of_fits h⟩
  else
    sbAdd (b.grow text.length) text
termination_by text.length + 1 - b.room
decreasing_by exact Sbuf.lt_room_grow h

/-- **`sb_add` appends the text.** -/
theorem sbAdd_s (b : Sbuf) (text : CString) : (sbAdd b text).s = b.s ++ text := by
  induction b using sbAdd.induct text with
  | case1 b hfits => rw [sbAdd, dif_pos hfits]
  | case2 b hfull ih =>
    rw [sbAdd, dif_neg hfull, ih]
    rfl

/-! ## The feeder -/

/-- `MAX_BODY_BYTES` -/
def maxBodyBytes : ℕ := 8000

/-- The size of `doc` in `add_doc`. -/
def docSize : ℕ := 1400

structure FeederOptions where
  toStdout : Bool
  tsdbHost : CString
  tsdbPort : CString

/-- The buffer, the documents in it, the bodies handed to `http_post` with what it
    returned, and the lines written to `stdout` and `stderr`. -/
structure Feeder where
  batch : Sbuf
  batchDocs : ℕ
  posts : List (CString × ℤ)
  stdout : List CString
  stderr : List CString

/-- The buffer as the program starts: no memory yet. -/
def Sbuf.empty : Sbuf := ⟨[], 0, Nat.le_refl 0⟩

/-- `len = 0` keeps the memory. -/
def Sbuf.cleared (b : Sbuf) : Sbuf := ⟨[], b.cap, Nat.zero_le b.cap⟩

def Feeder.start : Feeder := ⟨Sbuf.empty, 0, [], [], []⟩

/-- What the network and OpenTSDB make of the `n`-th call of `http_post`: the HTTP
    status, or -1. -/
abbrev Server := ℕ → CString → ℤ

def logErr (f : Feeder) (line : CString) : Feeder :=
  { f with stderr := f.stderr ++ [ascii "[LITE FEEDER] " ++ line ++ ascii "\n"] }

def httpPost (server : Server) (f : Feeder) (body : CString) : ℤ × Feeder :=
  (server f.posts.length body,
    { f with posts := f.posts ++ [(body, server f.posts.length body)] })

/-- `for (attempt = 0; attempt < 2 && status < 0; attempt++) status = http_post(body)` -/
def postAttempts (server : Server) (body : CString) : ℕ → ℤ → Feeder → ℤ × Feeder
  | 0, status, f => (status, f)
  | attempts + 1, status, f =>
    if status < 0 then
      postAttempts server body attempts (httpPost server f body).1 (httpPost server f body).2
    else (status, f)

def flushBatch (opts : FeederOptions) (server : Server) (f : Feeder) : Feeder :=
  if opts.toStdout ∨ f.batchDocs = 0 then f
  else
    let batch := sbAdd f.batch (ascii "]")
    let sent := postAttempts server batch.s 2 (-1) { f with batch := batch }
    let f := if sent.1 ≠ 204 then
        logErr sent.2 (ascii "couldn't post " ++ decimal f.batchDocs ++ ascii " documents to " ++
          opts.tsdbHost ++ ascii ":" ++ opts.tsdbPort ++ ascii " (status " ++ decimal sent.1 ++
          ascii ")")
      else sent.2
    { f with batch := f.batch.cleared, batchDocs := 0 }

/-- The arguments of `add_doc`. -/
structure DocArgs where
  metric : CString
  ts : ℤ
  value : CString
  tags : CString

/-- The text of a document. -/
def DocArgs.doc (d : DocArgs) : CString :=
  ascii "\x7b\"metric\": \"" ++ d.metric ++ ascii "\", \"timestamp\": " ++ decimal d.ts ++
    ascii ", \"value\": " ++ d.value ++ ascii ", \"tags\": \x7b" ++ d.tags ++ ascii "\x7d\x7d"

/-- The line of a document on `stdout`. -/
def DocArgs.line (d : DocArgs) : CString :=
  ascii "\x7b\"metric\": \"" ++ d.metric ++ ascii "\", \"timestamp\": \"" ++ decimal d.ts ++
    ascii "\", \"value\": \"" ++ d.value ++ ascii "\", \"tags\": \x7b" ++ d.tags ++ ascii "\x7d\x7d\n"

def addDoc (opts : FeederOptions) (server : Server) (d : DocArgs) (f : Feeder) : Feeder :=
  if opts.toStdout then { f with stdout := f.stdout ++ [d.line] }
  else if docSize ≤ d.doc.length then
    logErr f (ascii "document too long, discarded: " ++ d.metric)
  else
    -- body: "[", the documents separated by ", ", "]"
    let f := if 0 < f.batchDocs ∧ maxBodyBytes < f.batch.len + 2 + d.doc.length + 1 then
        flushBatch opts server f
      else f
    { f with batch := sbAdd f.batch ((if f.batchDocs ≠ 0 then ascii ", " else ascii "[") ++ d.doc)
             batchDocs := f.batchDocs + 1 }

/-- A call of the sampling functions. -/
inductive FeederCall where
  | addDoc (d : DocArgs)
  | flushBatch

def FeederCall.step (opts : FeederOptions) (server : Server) (f : Feeder) : FeederCall → Feeder
  | .addDoc d => ServerlessYarn.addDoc opts server d f
  | .flushBatch => ServerlessYarn.flushBatch opts server f

/-- The feeder after the calls. -/
def feederRun (opts : FeederOptions) (server : Server) (calls : List FeederCall) : Feeder :=
  calls.foldl (FeederCall.step opts server) Feeder.start

/-! ## Bodies -/

/-- The text of an array that has not been closed. -/
def openBody : List CString → CString
  | [] => []
  | docs => ascii "[" ++ (ascii ", ").intercalate docs

/-- The body of a group of documents. -/
def bodyOf (docs : List CString) : CString :=
  ascii "[" ++ (ascii ", ").intercalate docs ++ ascii "]"

/-- The document that a call adds, if `add_doc` accepts it. -/
def FeederCall.accepted? : FeederCall → Option CString
  | .addDoc d => if d.doc.length < docSize then some d.doc else none
  | .flushBatch => none

/-- The calls of `http_post` for one body: a second one iff the first failed. -/
def Attempts (body : CString) (posts : List (CString × ℤ)) : Prop :=
  (∃ status, 0 ≤ status ∧ posts = [(body, status)]) ∨
    ∃ status status', status < 0 ∧ posts = [(body, status), (body, status')]

theorem intercalate_concat (sep : CString) {docs : List CString} (h : docs ≠ []) (doc : CString) :
    sep.intercalate (docs ++ [doc]) = sep.intercalate docs ++ sep ++ doc := by
  induction docs with
  | nil => exact absurd rfl h
  | cons d docs ih =>
    cases docs with
    | nil => simp
    | cons d' docs =>
      have hrest := ih (List.cons_ne_nil d' docs)
      rw [List.cons_append] at hrest
      rw [List.cons_append, List.cons_append, List.intercalate_cons_cons, hrest,
        List.intercalate_cons_cons]
      simp only [List.append_assoc]

theorem openBody_ne_nil {docs : List CString} (h : docs ≠ []) :
    openBody docs = ascii "[" ++ (ascii ", ").intercalate docs := by
  cases docs with
  | nil => exact absurd rfl h
  | cons => rfl

/-- What `add_doc` appends keeps the array well formed. -/
theorem openBody_concat (docs : List CString) (doc : CString) :
    openBody (docs ++ [doc]) =
      openBody docs ++ ((if docs.length ≠ 0 then ascii ", " else ascii "[") ++ doc) := by
  by_cases h : docs = []
  · subst h
    simp [openBody]
  · have hlen : docs.length ≠ 0 := fun h0 => h (List.length_eq_zero_iff.1 h0)
    rw [openBody_ne_nil h, openBody_ne_nil (by simp), intercalate_concat _ h, if_pos hlen]
    simp only [List.append_assoc]

/-! ## Flushing and adding -/

section sending
variable (host port : CString) (server : Server)

/-- The body is posted once, and once more if that failed; nothing else changes. -/
theorem postAttempts_two (body : CString) (f : Feeder) :
    ∃ posts, Attempts body posts ∧
      (postAttempts server body 2 (-1) f).2 = { f with posts := f.posts ++ posts } := by
  have hfirst : postAttempts server body 2 (-1) f =
      postAttempts server body 1 (httpPost server f body).1 (httpPost server f body).2 := rfl
  rw [hfirst]
  by_cases hfail : (httpPost server f body).1 < 0
  · refine ⟨_, Or.inr ⟨_, server (f.posts.length + 1) body, hfail, rfl⟩, ?_⟩
    rw [postAttempts, if_pos hfail]
    simp [postAttempts, httpPost]
  · refine ⟨_, Or.inl ⟨_, not_lt.1 hfail, rfl⟩, ?_⟩
    rw [postAttempts, if_neg hfail]
    rfl

/-- A flush posts what is in the buffer, closed, and empties the buffer. -/
theorem flushBatch_sends {f : Feeder} (h : f.batchDocs ≠ 0) :
    ∃ posts, Attempts (f.batch.s ++ ascii "]") posts ∧
      (flushBatch ⟨false, host, port⟩ server f).posts = f.posts ++ posts ∧
      (flushBatch ⟨false, host, port⟩ server f).batch.s = [] ∧
      (flushBatch ⟨false, host, port⟩ server f).batchDocs = 0 := by
  obtain ⟨posts, hposts, hsent⟩ := postAttempts_two server (sbAdd f.batch (ascii "]")).s
    { f with batch := sbAdd f.batch (ascii "]") }
  have hbusy : ¬ ((false = true) ∨ f.batchDocs = 0) := by simp [h]
  rw [sbAdd_s] at hposts
  refine ⟨posts, hposts, ?_⟩
  unfold flushBatch
  rw [if_neg hbusy]
  refine ⟨?_, rfl, rfl⟩
  show (ite _ _ _ : Feeder).posts = _
  split_ifs
  · show (postAttempts _ _ _ _ _).2.posts = _
    rw [hsent]
  · rw [hsent]

/-- What a feeder has posted, as groups of documents with the calls of `http_post`
    for each, and the documents in its buffer. -/
structure Feeder.Batched (f : Feeder) (groups : List (List CString))
    (posts : List (List (CString × ℤ))) (pending : List CString) : Prop where
  posted : f.posts = posts.flatten
  attempts : List.Forall₂ (fun group => Attempts (bodyOf group)) groups posts
  bounded : ∀ group ∈ groups, group ≠ [] ∧ (bodyOf group).length ≤ maxBodyBytes
  text : f.batch.s = openBody pending
  count : f.batchDocs = pending.length
  closable : f.batch.s.length + 1 ≤ maxBodyBytes

theorem Feeder.batched_start : Feeder.start.Batched [] [] [] where
  posted := rfl
  attempts := List.Forall₂.nil
  bounded := fun _ h => absurd h List.not_mem_nil
  text := rfl
  count := rfl
  closable := by decide

/-- A flush closes the group in the buffer. -/
theorem Feeder.Batched.flush {f : Feeder} {groups posts pending} (h : f.Batched groups posts pending) :
    ∃ groups' posts', (flushBatch ⟨false, host, port⟩ server f).Batched groups' posts' [] ∧
      groups'.flatten = groups.flatten ++ pending := by
  by_cases hnone : pending = []
  · subst hnone
    have hidle : flushBatch ⟨false, host, port⟩ server f = f := if_pos (Or.inr h.count)
    rw [hidle, List.append_nil]
    exact ⟨groups, posts, h, rfl⟩
  · have hdocs : f.batchDocs ≠ 0 := by
      rw [h.count]
      exact fun h0 => hnone (List.length_eq_zero_iff.1 h0)
    obtain ⟨ps, hps, hposts, htext, hcount⟩ :=
      flushBatch_sends host port server hdocs
    have hbody : f.batch.s ++ ascii "]" = bodyOf pending := by
      rw [h.text, openBody_ne_nil hnone]
      rfl
    rw [hbody] at hps
    have hlen : (bodyOf pending).length ≤ maxBodyBytes := by
      rw [← hbody, List.length_append]
      exact h.closable
    refine ⟨groups ++ [pending], posts ++ [ps], ⟨?_, ?_, ?_, htext, hcount, ?_⟩, by simp⟩
    · rw [hposts, h.posted, List.flatten_concat]
    · exact List.rel_append h.attempts (List.Forall₂.cons hps List.Forall₂.nil)
    · intro group hgroup
      rcases List.mem_append.1 hgroup with hold | hnew
      · exact h.bounded group hold
      · rw [List.mem_singleton.1 hnew]
        exact ⟨hnone, hlen⟩
    · rw [htext]
      decide

/-- What `add_doc` does to the buffer once there is room. -/
theorem Feeder.Batched.append {f : Feeder} {groups posts pending} (h : f.Batched groups posts pending)
    {doc : CString} (hdoc : doc.length < docSize)
    (hroom : f.batchDocs ≠ 0 → f.batch.len + 2 + doc.length + 1 ≤ maxBodyBytes) :
    { f with batch := sbAdd f.batch ((if f.batchDocs ≠ 0 then ascii ", " else ascii "[") ++ doc)
             batchDocs := f.batchDocs + 1 }.Batched groups posts (pending ++ [doc]) where
  posted := h.posted
  attempts := h.attempts
  bounded := h.bounded
  text := by
    show (sbAdd _ _).s = _
    rw [sbAdd_s, openBody_concat, h.text, h.count]
  count := by
    show f.batchDocs + 1 = _
    rw [h.count, List.length_append, List.length_singleton]
  closable := by
    show (sbAdd _ _).s.length + 1 ≤ _
    rw [sbAdd_s, List.length_append, List.length_append]
    have hlen : f.batch.len = f.batch.s.length := rfl
    by_cases hnone : f.batchDocs = 0
    · have hpending : pending = [] := List.length_eq_zero_iff.1 (h.count ▸ hnone)
      have hs : f.batch.s = [] := by
        rw [h.text, hpending]
        rfl
      have hopen : (ascii "[").length = 1 := rfl
      rw [if_neg (not_not.2 hnone), hs, hopen, List.length_nil]
      unfold docSize at hdoc
      unfold maxBodyBytes
      omega
    · have hsep : (ascii ", ").length = 2 := rfl
      have hfits := hroom hnone
      rw [if_pos hnone, hsep]
      omega

/-- An accepted document joins the group in the buffer, or opens the next one. -/
theorem Feeder.Batched.addDoc {f : Feeder} {groups posts pending} (h : f.Batched groups posts pending)
    (d : DocArgs) :
    ∃ groups' posts' pending',
      (ServerlessYarn.addDoc ⟨false, host, port⟩ server d f).Batched groups' posts' pending' ∧
      groups'.flatten ++ pending' =
        groups.flatten ++ pending ++ (FeederCall.addDoc d).accepted?.toList := by
  unfold ServerlessYarn.addDoc
  rw [if_neg Bool.false_ne_true]
  by_cases hlong : docSize ≤ d.doc.length
  · -- discarded: only the error line is new
    have hnone : (FeederCall.addDoc d).accepted? = none := if_neg (not_lt.2 hlong)
    rw [if_pos hlong, hnone, Option.toList_none, List.append_nil]
    exact ⟨groups, posts, pending, ⟨h.posted, h.attempts, h.bounded, h.text, h.count, h.closable⟩, rfl⟩
  · have hdoc : d.doc.length < docSize := not_le.1 hlong
    have hsome : (FeederCall.addDoc d).accepted? = some d.doc := if_pos hdoc
    rw [if_neg hlong, hsome, Option.toList_some]
    by_cases hfull : 0 < f.batchDocs ∧ maxBodyBytes < f.batch.len + 2 + d.doc.length + 1
    · obtain ⟨groups', posts', hflushed, hall⟩ := h.flush host port server
      have hempty : (ServerlessYarn.flushBatch ⟨false, host, port⟩ server f).batchDocs = 0 := hflushed.count
      refine ⟨groups', posts', [] ++ [d.doc], ?_, by rw [hall, List.nil_append]⟩
      simp only [if_pos hfull]
      exact hflushed.append hdoc fun hbusy => absurd hempty hbusy
    · refine ⟨groups, posts, pending ++ [d.doc], ?_, by rw [List.append_assoc]⟩
      simp only [if_neg hfull]
      refine h.append hdoc fun hbusy => ?_
      have hle : ¬ maxBodyBytes < f.batch.len + 2 + d.doc.length + 1 :=
        fun hlt => hfull ⟨Nat.pos_of_ne_zero hbusy, hlt⟩
      exact not_lt.1 hle

/-- Every run of the feeder batches its accepted documents. -/
theorem batched_run (calls : List FeederCall) :
    ∃ groups posts pending,
      (feederRun ⟨false, host, port⟩ server calls).Batched groups posts pending ∧
      groups.flatten ++ pending = calls.filterMap FeederCall.accepted? ∧
      (calls.getLast? = some .flushBatch → pending = []) := by
  induction calls using List.reverseRecOn with
  | nil => exact ⟨[], [], [], Feeder.batched_start, rfl, fun _ => rfl⟩
  | append_singleton calls call ih =>
    obtain ⟨groups, posts, pending, hbatched, hall, -⟩ := ih
    have hstep : feederRun ⟨false, host, port⟩ server (calls ++ [call]) =
        call.step ⟨false, host, port⟩ server (feederRun ⟨false, host, port⟩ server calls) := by
      unfold feederRun
      rw [List.foldl_append]
      rfl
    rw [hstep, List.filterMap_append, ← hall, List.getLast?_concat]
    cases call with
    | addDoc d =>
      obtain ⟨groups', posts', pending', h', hall'⟩ :=
        hbatched.addDoc host port server d
      refine ⟨groups', posts', pending', h', ?_, fun hflush => by cases hflush⟩
      rw [hall', List.filterMap_cons]
      cases (FeederCall.addDoc d).accepted? <;> rfl
    | flushBatch =>
      obtain ⟨groups', posts', h', hall'⟩ := hbatched.flush host port server
      refine ⟨groups', posts', [], h', ?_, fun _ => rfl⟩
      rw [List.append_nil, hall']
      exact (List.append_nil _).symm

/-- **Batching loses and duplicates nothing.**  Whatever the server answers, the
    bodies are groups of documents, none empty and none too long, each posted once
    or, if that failed, twice; the groups followed by what is in the buffer are the
    accepted documents in their order; and after a flush nothing is in the buffer. -/
theorem feeder_batches (calls : List FeederCall) :
    ∃ (groups : List (List CString)) (posts : List (List (CString × ℤ))) (pending : List CString),
      (feederRun ⟨false, host, port⟩ server calls).posts = posts.flatten ∧
      List.Forall₂ (fun group => Attempts (bodyOf group)) groups posts ∧
      (∀ group ∈ groups, group ≠ [] ∧ (bodyOf group).length ≤ maxBodyBytes) ∧
      groups.flatten ++ pending = calls.filterMap FeederCall.accepted? ∧
      (calls.getLast? = some .flushBatch → pending = []) := by
  obtain ⟨groups, posts, pending, h, hall, hflush⟩ := batched_run host port server calls
  exact ⟨groups, posts, pending, h.posted, h.attempts, h.bounded, hall, hflush⟩

end sending

end ServerlessYarn
