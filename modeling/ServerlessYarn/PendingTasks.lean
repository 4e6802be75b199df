/-
  ServerlessYARN model — the pending tasks of the web interface (`register_task`,
  `create_artificial_task`, `update_task_runtime`, `remove_task` and `get_pending_tasks` of
  ui/background_tasks.py).

  A request starts a task and then registers it; the worker writes the running time and stores
  the result; each page polls the records, and deletes those of the tasks that have
  ended.  All of them access Redis at the same time, one command after another.  A result that
  no poll deletes expires by itself: the settings name no time, so Celery's default of a day holds.

  * `Inv`, `Inv.next`: what is stored and collected are the outcomes of the tasks;
  * `taken_or_expired`: a result goes only after a poll has collected it, or when it expires;
  * `reports_reachable`: outcomes are not invented, lost only by expiry, and reported twice only by
    polls that overlap;
  * `hangs_iff`, `written_again`: when a task that has ended is shown as pending for ever.
-/
import ServerlessYarn.Lib.Run
import Mathlib.Logic.Function.Basic

namespace ServerlessYarn

namespace PendingTasks

/-! ## Redis -/

abbrev TaskId := String

/-- The result of a task that has ended. -/
inductive Outcome where
  | success
  | failure (error : String)
deriving DecidableEq

/-- The fields of the hash `pending_tasks:<id>`. -/
structure Record where
  taskName : Option String
  runtime : Option String
deriving DecidableEq

/-- The hashes `pending_tasks:<id>`, and the results of the backend, `celery-task-meta-<id>`. -/
structure Redis where
  records : TaskId → Option Record
  results : TaskId → Option Outcome

namespace Redis

/-- `hset` on a field; it creates the hash. -/
def hset (r : Redis) (id : TaskId) (f : Record → Record) : Redis :=
  { r with records := Function.update r.records id (some (f ((r.records id).getD ⟨none, none⟩))) }

def registerTask (r : Redis) (id : TaskId) (task_name : String) : Redis :=
  r.hset id fun record => { record with taskName := some task_name }

def updateTaskRuntime (r : Redis) (id : TaskId) (runtime : String) : Redis :=
  r.hset id fun record => { record with runtime := some runtime }

def removeTask (r : Redis) (id : TaskId) : Redis :=
  { r with records := Function.update r.records id none }

/-- `backend.store_result` -/
def storeResult (r : Redis) (id : TaskId) (outcome : Outcome) : Redis :=
  { r with results := Function.update r.results id (some outcome) }

/-- `delete(f"celery-task-meta-{task_id}")`, which Redis does itself when the time of the key is over. -/
def deleteResult (r : Redis) (id : TaskId) : Redis :=
  { r with results := Function.update r.results id none }

def taskName (r : Redis) (id : TaskId) : String := ((r.records id).bind Record.taskName).getD "None"

def runtime (r : Redis) (id : TaskId) : Option String := (r.records id).bind Record.runtime

end Redis

/-! ## Polls -/

/-- Where `get_pending_tasks` stands: between two keys; in the loop over the keys, behind `hget` of the
    name, behind the status `SUCCESS`, or behind `hexists` of the running time; in the loops over the
    tasks that have ended, before a record or behind it; or at the end. -/
inductive Pc where
  | next
  | named (id : TaskId) (name : String)
  | succeeded (id : TaskId) (name : String)
  | timed (id : TaskId) (name : String)
  | deleting (done todo : List TaskId)
  | deleted (done : List TaskId) (id : TaskId) (todo : List TaskId)
  | finished
  | crashed
deriving DecidableEq

/-- A call of `get_pending_tasks`: whether `scan_iter` will ask for more keys, the keys that it still has,
    and the three lists. -/
structure Poll where
  scanning : Bool
  keys : List TaskId
  stillPending : List (TaskId × String)
  successful : List (TaskId × String × Option String)
  failed : List (TaskId × String × String)
  pc : Pc

namespace Poll

def start : Poll := ⟨true, [], [], [], [], .next⟩

/-- The tasks to be removed. -/
def completed (p : Poll) : List TaskId := p.successful.map (·.1) ++ p.failed.map (·.1)

/-- The next command, up to the one after it.  A running time that has gone since `hexists` is `None`,
    which cannot be decoded. -/
def advance (r : Redis) (p : Poll) : Option (Redis × Poll) :=
  match p.pc with
  | .next =>
    match p.keys with
    | id :: keys => some (r, { p with keys := keys, pc := .named id (r.taskName id) })
    | [] => if p.scanning then none else some (r, { p with pc := .deleting [] p.completed })
  | .named id name =>
    match r.results id with
    | none => some (r, { p with stillPending := p.stillPending ++ [(id, name)], pc := .next })
    | some .success => some (r, { p with pc := .succeeded id name })
    | some (.failure error) => some (r, { p with failed := p.failed ++ [(id, name, error)], pc := .next })
  | .succeeded id name =>
    if (r.runtime id).isSome then some (r, { p with pc := .timed id name })
    else some (r, { p with successful := p.successful ++ [(id, name, none)], pc := .next })
  | .timed id name =>
    match r.runtime id with
    | some runtime => some (r, { p with successful := p.successful ++ [(id, name, some runtime)], pc := .next })
    | none => some (r, { p with pc := .crashed })
  | .deleting done (id :: todo) => some (r.removeTask id, { p with pc := .deleted done id todo })
  | .deleting _ [] => some (r, { p with pc := .finished })
  | .deleted done id todo => some (r.deleteResult id, { p with pc := .deleting (done ++ [id]) todo })
  | .finished => none
  | .crashed => none

end Poll

/-! ## The system -/

/-- The life of a task. -/
inductive Phase where
  | unknown
  | running
  | ended (outcome : Outcome)
deriving DecidableEq

/-- The tasks, Redis, and the polls, numbered as they start. -/
structure State where
  phase : TaskId → Phase
  redis : Redis
  polls : ℕ → Option Poll

def State.start : State := ⟨fun _ => .unknown, ⟨fun _ => none, fun _ => none⟩, fun _ => none⟩

/-- A command of one of the processes: a request starts a task (`delay`), or stores the result of one that it
    makes up (`create_artificial_task`); it registers the task, or sets its running time, as the
    worker also does; the worker stores the result; a record is removed; a result expires; a poll starts, gets
    a reply of `SCAN`, or goes on. -/
inductive Event where
  | delay (id : TaskId)
  | artificial (id : TaskId) (outcome : Outcome)
  | register (id : TaskId) (task_name : String)
  | runtime (id : TaskId) (runtime : String)
  | finish (id : TaskId) (outcome : Outcome)
  | remove (id : TaskId)
  | expire (id : TaskId)
  | poll (p : ℕ)
  | scan (p : ℕ) (keys : List TaskId) (more : Bool)
  | advance (p : ℕ)
deriving DecidableEq

def State.setPoll (s : State) (p : ℕ) (poll : Poll) : State :=
  { s with polls := Function.update s.polls p (some poll) }

def State.setPhase (s : State) (id : TaskId) (phase : Phase) : State :=
  { s with phase := Function.update s.phase id phase }

/-- One command, if it is possible. -/
def State.next (s : State) : Event → Option State
  | .delay id => if s.phase id = .unknown then some (s.setPhase id .running) else none
  | .artificial id outcome =>
    if s.phase id = .unknown then
      some { s.setPhase id (.ended outcome) with redis := s.redis.storeResult id outcome }
    else none
  | .register id task_name =>
    if s.phase id = .unknown then none else some { s with redis := s.redis.registerTask id task_name }
  | .runtime id runtime =>
    if s.phase id = .unknown then none else some { s with redis := s.redis.updateTaskRuntime id runtime }
  | .finish id outcome =>
    if s.phase id = .running then
      some { s.setPhase id (.ended outcome) with redis := s.redis.storeResult id outcome }
    else none
  | .remove id => some { s with redis := s.redis.removeTask id }
  | .expire id => if (s.redis.results id).isSome then some { s with redis := s.redis.deleteResult id } else none
  | .poll p => if (s.polls p).isNone then some (s.setPoll p .start) else none
  | .scan p keys more =>
    (s.polls p).bind fun poll =>
      if poll.pc = .next ∧ poll.keys = [] ∧ poll.scanning ∧ ∀ id ∈ keys, (s.redis.records id).isSome then
        some (s.setPoll p { poll with keys := keys, scanning := more })
      else none
  | .advance p =>
    (s.polls p).bind fun poll =>
      (poll.advance s.redis).map fun result => { s.setPoll p result.2 with redis := result.1 }

/-- The events lead from the one state to the other. -/
abbrev Steps : State → List Event → State → Prop := Run fun s e s' => s.next e = some s'

/-! ## What one command does -/

/-- The commands of a poll. -/
inductive Advances (r : Redis) : Poll → Redis → Poll → Prop
  | key {p id keys} (hpc : p.pc = .next) (hkeys : p.keys = id :: keys) :
    Advances r p r { p with keys := keys, pc := .named id (r.taskName id) }
  | scanned {p} (hpc : p.pc = .next) : Advances r p r { p with pc := .deleting [] p.completed }
  | pending {p id name} (hpc : p.pc = .named id name) (hresult : r.results id = none) :
    Advances r p r { p with stillPending := p.stillPending ++ [(id, name)], pc := .next }
  | success {p id name} (hpc : p.pc = .named id name) (hresult : r.results id = some .success) :
    Advances r p r { p with pc := .succeeded id name }
  | failure {p id name error} (hpc : p.pc = .named id name) (hresult : r.results id = some (.failure error)) :
    Advances r p r { p with failed := p.failed ++ [(id, name, error)], pc := .next }
  | timed {p id name} (hpc : p.pc = .succeeded id name) : Advances r p r { p with pc := .timed id name }
  | report {p id name} (hpc : p.pc = .succeeded id name ∨ p.pc = .timed id name) (runtime : Option String) :
    Advances r p r { p with successful := p.successful ++ [(id, name, runtime)], pc := .next }
  | crash {p id name} (hpc : p.pc = .timed id name) : Advances r p r { p with pc := .crashed }
  | record {p done id todo} (hpc : p.pc = .deleting done (id :: todo)) :
    Advances r p (r.removeTask id) { p with pc := .deleted done id todo }
  | result {p done id todo} (hpc : p.pc = .deleted done id todo) :
    Advances r p (r.deleteResult id) { p with pc := .deleting (done ++ [id]) todo }
  | done {p done} (hpc : p.pc = .deleting done []) : Advances r p r { p with pc := .finished }

theorem Poll.advances {r r' : Redis} {p p' : Poll} (h : p.advance r = some (r', p')) : Advances r p r' p' := by
  unfold Poll.advance at h
  split at h
  · rename_i hpc
    split at h
    · rename_i id keys hkeys
      cases h
      exact .key hpc hkeys
    · split_ifs at h
      cases h
      exact .scanned hpc
  · rename_i id name hpc
    split at h
    · rename_i hresult
      cases h
      exact .pending hpc hresult
    · rename_i hresult
      cases h
      exact .success hpc hresult
    · rename_i error hresult
      cases h
      exact .failure hpc hresult
  · rename_i id name hpc
    split_ifs at h
    · cases h
      exact .timed hpc
    · cases h
      exact .report (Or.inl hpc) none
  · rename_i id name hpc
    split at h
    · rename_i runtime _
      cases h
      exact .report (Or.inr hpc) (some runtime)
    · cases h
      exact .crash hpc
  · rename_i done id todo hpc
    cases h
    exact .record hpc
  · rename_i done hpc
    cases h
    exact .done hpc
  · rename_i done id todo hpc
    cases h
    exact .result hpc
  · cases h
  · cases h

/-- The commands of the other processes: none of them ends a task twice, or touches a poll. -/
inductive Writes (s : State) : Event → State → Prop
  | delay {id} (h : s.phase id = .unknown) : Writes s (.delay id) (s.setPhase id .running)
  | store {id outcome e} (h : s.phase id = .unknown ∨ s.phase id = .running)
    (he : e = .artificial id outcome ∨ e = .finish id outcome) :
    Writes s e { s.setPhase id (.ended outcome) with redis := s.redis.storeResult id outcome }
  | hset {id e} (f : Record → Record) (he : (∃ name, e = .register id name) ∨ ∃ runtime, e = .runtime id runtime) :
    Writes s e { s with redis := s.redis.hset id f }
  | remove {id} : Writes s (.remove id) { s with redis := s.redis.removeTask id }
  | expire {id} : Writes s (.expire id) { s with redis := s.redis.deleteResult id }

/-- **What one event does**: a command of the other processes, the start of a poll, more keys for one, or a
    command of one. -/
theorem State.next_cases {s s' : State} {e : Event} (h : s.next e = some s') :
    Writes s e s' ∨
    (∃ p, e = .poll p ∧ s.polls p = none ∧ s' = s.setPoll p .start) ∨
    (∃ p poll keys more, e = .scan p keys more ∧ s.polls p = some poll ∧ poll.pc = .next ∧
      (∀ id ∈ keys, (s.redis.records id).isSome) ∧
      s' = s.setPoll p { poll with keys := keys, scanning := more }) ∨
    ∃ p poll r' poll', e = .advance p ∧ s.polls p = some poll ∧ Advances s.redis poll r' poll' ∧
      s' = { s.setPoll p poll' with redis := r' } := by
  cases e with
  | delay id =>
    simp only [State.next, Option.ite_none_right_eq_some, Option.some.injEq] at h
    exact Or.inl (h.2 ▸ .delay h.1)
  | artificial id outcome =>
    simp only [State.next, Option.ite_none_right_eq_some, Option.some.injEq] at h
    exact Or.inl (h.2 ▸ .store (Or.inl h.1) (Or.inl rfl))
  | register id task_name =>
    simp only [State.next, Option.ite_none_left_eq_some, Option.some.injEq] at h
    exact Or.inl (h.2 ▸ .hset _ (Or.inl ⟨task_name, rfl⟩))
  | runtime id runtime =>
    simp only [State.next, Option.ite_none_left_eq_some, Option.some.injEq] at h
    exact Or.inl (h.2 ▸ .hset _ (Or.inr ⟨runtime, rfl⟩))
  | finish id outcome =>
    simp only [State.next, Option.ite_none_right_eq_some, Option.some.injEq] at h
    exact Or.inl (h.2 ▸ .store (Or.inr h.1) (Or.inr rfl))
  | remove id =>
    simp only [State.next, Option.some.injEq] at h
    exact Or.inl (h ▸ .remove)
  | expire id =>
    simp only [State.next, Option.ite_none_right_eq_some, Option.some.injEq] at h
    exact Or.inl (h.2 ▸ .expire)
  | poll p =>
    simp only [State.next, Option.ite_none_right_eq_some, Option.some.injEq, Option.isNone_iff_eq_none] at h
    exact Or.inr (Or.inl ⟨p, rfl, h.1, h.2.symm⟩)
  | scan p keys more =>
    obtain ⟨poll, hpoll, h⟩ := Option.bind_eq_some_iff.1 h
    simp only [Option.ite_none_right_eq_some, Option.some.injEq] at h
    obtain ⟨⟨hpc, -, -, hkeys⟩, rfl⟩ := h
    exact Or.inr (Or.inr (Or.inl ⟨p, poll, keys, more, rfl, hpoll, hpc, hkeys, rfl⟩))
  | advance p =>
    obtain ⟨poll, hpoll, h⟩ := Option.bind_eq_some_iff.1 h
    obtain ⟨⟨r', poll'⟩, hadvance, rfl⟩ := Option.map_eq_some_iff.1 h
    exact Or.inr (Or.inr (Or.inr ⟨p, poll, r', poll', rfl, hpoll, Poll.advances hadvance, rfl⟩))

/-! ## What is stored and collected -/

namespace Poll

/-- The tasks whose record the poll has removed. -/
def taken (p : Poll) : List TaskId :=
  match p.pc with
  | .deleting done _ => done
  | .deleted done id _ => done ++ [id]
  | .finished => p.completed
  | _ => []

/-- The tasks whose result it has removed. -/
def cleared (p : Poll) : List TaskId :=
  match p.pc with
  | .deleting done _ => done
  | .deleted done _ _ => done
  | .finished => p.completed
  | _ => []

/-- It reports that the task has ended so. -/
def Reports (p : Poll) (id : TaskId) : Outcome → Prop
  | .success => ∃ name runtime, (id, name, runtime) ∈ p.successful
  | .failure error => ∃ name, (id, name, error) ∈ p.failed

/-- What the poll has collected is how the tasks have ended, and it removes what it has collected. -/
structure Sound (phase : TaskId → Phase) (p : Poll) : Prop where
  successful : ∀ x ∈ p.successful, phase x.1 = .ended .success
  failed : ∀ x ∈ p.failed, phase x.1 = .ended (.failure x.2.2)
  visited : ∀ id name, p.pc = .succeeded id name ∨ p.pc = .timed id name → phase id = .ended .success
  deleting : ∀ done todo, p.pc = .deleting done todo → done ++ todo = p.completed
  deleted : ∀ done id todo, p.pc = .deleted done id todo → done ++ id :: todo = p.completed

theorem sound_start (phase : TaskId → Phase) : start.Sound phase := by
  constructor <;> simp [start]

/-- A task that is collected has ended, and is reported so. -/
theorem Sound.reports {phase : TaskId → Phase} {p : Poll} (h : p.Sound phase) {id : TaskId} (hid : id ∈ p.completed) :
    ∃ outcome, phase id = .ended outcome ∧ p.Reports id outcome := by
  rcases List.mem_append.1 hid with hmem | hmem
  · obtain ⟨⟨_, name, runtime⟩, hx, rfl⟩ := List.mem_map.1 hmem
    exact ⟨.success, h.successful _ hx, name, runtime, hx⟩
  · obtain ⟨⟨_, name, error⟩, hx, rfl⟩ := List.mem_map.1 hmem
    exact ⟨.failure error, h.failed _ hx, name, hx⟩

theorem Sound.ended {phase : TaskId → Phase} {p : Poll} (h : p.Sound phase) {id : TaskId} {outcome : Outcome}
    (hreports : p.Reports id outcome) : phase id = .ended outcome := by
  cases outcome with
  | success =>
    obtain ⟨name, runtime, hmem⟩ := hreports
    exact h.successful _ hmem
  | failure error =>
    obtain ⟨name, hmem⟩ := hreports
    exact h.failed _ hmem

/-- What is removed has been collected. -/
theorem Sound.taken_subset {phase : TaskId → Phase} {p : Poll} (h : p.Sound phase) : p.taken ⊆ p.completed := by
  intro id hid
  unfold taken at hid
  split at hid
  · rename_i done todo hpc
    rw [← h.deleting done todo hpc]
    exact List.mem_append_left _ hid
  · rename_i done id' todo hpc
    rw [← h.deleted done id' todo hpc]
    simp only [List.mem_append, List.mem_cons] at hid ⊢
    tauto
  · exact hid
  · cases hid

theorem cleared_subset (p : Poll) : p.cleared ⊆ p.taken := by
  intro id hid
  unfold cleared at hid
  unfold taken
  split at hid <;> simp_all

end Poll

section advances
variable {r r' : Redis} {p p' : Poll} {phase : TaskId → Phase} (h : Advances r p r' p')
include h

theorem Advances.sound (hresults : ∀ id outcome, r.results id = some outcome → phase id = .ended outcome)
    (hp : p.Sound phase) : p'.Sound phase := by
  cases h with
  | key hpc hkeys => exact ⟨hp.successful, hp.failed, by simp, by simp, by simp⟩
  | scanned hpc => exact ⟨hp.successful, hp.failed, by simp, by simp [Poll.completed], by simp⟩
  | pending hpc hresult => exact ⟨hp.successful, hp.failed, by simp, by simp, by simp⟩
  | @success id name hpc hresult =>
    refine ⟨hp.successful, hp.failed, fun id' name' hpc' => ?_, by simp, by simp⟩
    simp only [Pc.succeeded.injEq, reduceCtorEq, or_false] at hpc'
    exact hpc'.1 ▸ hresults id _ hresult
  | @failure id name error hpc hresult =>
    refine ⟨hp.successful, fun x hx => ?_, by simp, by simp, by simp⟩
    rcases List.mem_append.1 hx with hold | hnew
    · exact hp.failed x hold
    · rw [List.mem_singleton.1 hnew]
      exact hresults id _ hresult
  | @timed id name hpc =>
    refine ⟨hp.successful, hp.failed, fun id' name' hpc' => ?_, by simp, by simp⟩
    simp only [Pc.timed.injEq, reduceCtorEq, false_or] at hpc'
    exact hpc'.1 ▸ hp.visited id name (Or.inl hpc)
  | @report id name hpc runtime =>
    refine ⟨fun x hx => ?_, hp.failed, by simp, by simp, by simp⟩
    rcases List.mem_append.1 hx with hold | hnew
    · exact hp.successful x hold
    · rw [List.mem_singleton.1 hnew]
      exact hp.visited id name hpc
  | crash hpc => exact ⟨hp.successful, hp.failed, by simp, by simp, by simp⟩
  | @record done id todo hpc =>
    refine ⟨hp.successful, hp.failed, by simp, by simp, fun done' id' todo' hpc' => ?_⟩
    simp only [Pc.deleted.injEq] at hpc'
    obtain ⟨rfl, rfl, rfl⟩ := hpc'
    exact hp.deleting _ _ hpc
  | @result done id todo hpc =>
    refine ⟨hp.successful, hp.failed, by simp, fun done' todo' hpc' => ?_, by simp⟩
    simp only [Pc.deleting.injEq] at hpc'
    obtain ⟨rfl, rfl⟩ := hpc'
    rw [List.append_assoc]
    exact hp.deleted _ _ _ hpc
  | done hpc => exact ⟨hp.successful, hp.failed, by simp, by simp, by simp⟩

/-- What has been taken stays so. -/
theorem Advances.taken_subset (hp : p.Sound phase) : p.taken ⊆ p'.taken := by
  cases h with
  | @record done id todo hpc =>
    simp only [Poll.taken, hpc]
    exact List.subset_append_left _ _
  | result hpc => simp [Poll.taken, hpc]
  | @done done hpc =>
    have hall := hp.deleting done [] hpc
    rw [List.append_nil] at hall
    simp [Poll.taken, Poll.completed, hpc, hall]
  | report hpc => rcases hpc with hpc | hpc <;> simp [Poll.taken, hpc]
  | _ hpc => simp [Poll.taken, hpc]

/-- A result goes only when the record has been taken; the poll then has cleared it. -/
theorem Advances.results (hp : p.Sound phase) : (r'.results = r.results ∧ p'.cleared = p.cleared) ∨
    ∃ id, id ∈ p'.taken ∧ r' = r.deleteResult id ∧ p'.cleared = p.cleared ++ [id] := by
  cases h with
  | @result done id todo hpc =>
    exact Or.inr ⟨id, by simp [Poll.taken], rfl, by simp [Poll.cleared, hpc]⟩
  | @done done hpc =>
    have hall := hp.deleting done [] hpc
    rw [List.append_nil] at hall
    exact Or.inl ⟨rfl, by simp [Poll.cleared, Poll.completed, hpc, hall]⟩
  | record hpc => exact Or.inl ⟨rfl, by simp [Poll.cleared, hpc]⟩
  | report hpc => exact Or.inl ⟨rfl, by rcases hpc with hpc | hpc <;> simp [Poll.cleared, hpc]⟩
  | _ hpc => exact Or.inl ⟨rfl, by simp [Poll.cleared, hpc]⟩

end advances

/-- The invariant: results are stored and collected as the tasks have ended, and what a poll has cleared is not
    there. -/
structure Inv (s : State) : Prop where
  stored : ∀ id outcome, s.redis.results id = some outcome → s.phase id = .ended outcome
  sound : ∀ p poll, s.polls p = some poll → poll.Sound s.phase
  cleared : ∀ p poll, s.polls p = some poll → ∀ id ∈ poll.cleared, s.redis.results id = none

theorem inv_start : Inv .start where
  stored := fun _ _ h => by cases h
  sound := fun _ _ h => by cases h
  cleared := fun _ _ h => by cases h

theorem Redis.deleteResult_results (r : Redis) (id id' : TaskId) :
    (r.deleteResult id).results id' = if id' = id then none else r.results id' :=
  Function.update_apply _ _ _ _

theorem Poll.Sound.mono {phase phase' : TaskId → Phase} {p : Poll} (hp : p.Sound phase)
    (h : ∀ id outcome, phase id = .ended outcome → phase' id = .ended outcome) : p.Sound phase' where
  successful := fun x hx => h _ _ (hp.successful x hx)
  failed := fun x hx => h _ _ (hp.failed x hx)
  visited := fun id name hpc => h _ _ (hp.visited id name hpc)
  deleting := hp.deleting
  deleted := hp.deleted

theorem Writes.polls {s s' : State} {e : Event} (h : Writes s e s') : s'.polls = s.polls := by
  cases h <;> rfl

/-- A task that has ended stays so. -/
theorem Writes.ended {s s' : State} {e : Event} (h : Writes s e s') {id : TaskId} {outcome : Outcome}
    (hid : s.phase id = .ended outcome) : s'.phase id = .ended outcome := by
  cases h with
  | @delay id' hphase =>
    have hne : id ≠ id' := by
      rintro rfl
      rw [hid] at hphase
      cases hphase
    exact (Function.update_of_ne hne _ _).trans hid
  | @store id' _ _ hphase =>
    have hne : id ≠ id' := by
      rintro rfl
      rw [hid] at hphase
      rcases hphase with hphase | hphase <;> cases hphase
    exact (Function.update_of_ne hne _ _).trans hid
  | hset => exact hid
  | remove => exact hid
  | expire => exact hid

theorem Inv.writes {s s' : State} {e : Event} (hs : Inv s) (h : Writes s e s') : Inv s' := by
  have hpolls := h.polls
  have hsound : ∀ p poll, s'.polls p = some poll → poll.Sound s'.phase := by
    intro p poll hp
    rw [hpolls] at hp
    exact (hs.sound p poll hp).mono fun _ _ => h.ended
  cases h with
  | @delay id hphase =>
    refine ⟨fun id' outcome hr => ?_, hsound, hs.cleared⟩
    have hold := hs.stored id' outcome hr
    have hne : id' ≠ id := by
      rintro rfl
      rw [hold] at hphase
      cases hphase
    exact (Function.update_of_ne hne _ _).trans hold
  | @store id outcome _ hphase =>
    have hlive : ∀ outcome, s.phase id ≠ .ended outcome := by
      intro outcome h
      rw [h] at hphase
      rcases hphase with h | h <;> cases h
    refine ⟨fun id' outcome' hr => ?_, hsound, fun p poll hp id' hid' => ?_⟩
    · simp only [State.setPhase, Redis.storeResult, Function.update_apply] at hr ⊢
      split_ifs at hr ⊢ with heq
      · exact congrArg Phase.ended (Option.some.inj hr)
      · exact hs.stored id' outcome' hr
    · -- what a poll has cleared has ended before
      have hmem := (hs.sound p poll hp).taken_subset (poll.cleared_subset hid')
      obtain ⟨outcome', hended, -⟩ := (hs.sound p poll hp).reports hmem
      have hne : id' ≠ id := by
        rintro rfl
        exact hlive _ hended
      exact (Function.update_of_ne hne _ _).trans (hs.cleared p poll hp id' hid')
  | hset => exact ⟨hs.stored, hsound, hs.cleared⟩
  | remove => exact ⟨hs.stored, hsound, hs.cleared⟩
  | @expire id =>
    refine ⟨fun id' outcome hr => ?_, hsound, fun p poll hp id' hid' => ?_⟩
    · rw [Redis.deleteResult_results] at hr
      split_ifs at hr
      exact hs.stored id' outcome hr
    · rw [Redis.deleteResult_results, hs.cleared p poll hp id' hid', ite_self]

theorem setPoll_polls (s : State) (p q : ℕ) (poll : Poll) :
    (s.setPoll p poll).polls q = if q = p then some poll else s.polls q :=
  Function.update_apply _ _ _ _

/-- The poll at one place changes. -/
theorem Inv.setPoll {s : State} (hs : Inv s) (p : ℕ) {poll : Poll} (hsound : poll.Sound s.phase)
    (hcleared : ∀ id ∈ poll.cleared, s.redis.results id = none) : Inv (s.setPoll p poll) where
  stored := hs.stored
  sound := by
    intro q poll' hq
    rw [setPoll_polls] at hq
    split_ifs at hq
    · exact Option.some.inj hq ▸ hsound
    · exact hs.sound q poll' hq
  cleared := by
    intro q poll' hq
    rw [setPoll_polls] at hq
    split_ifs at hq
    · exact Option.some.inj hq ▸ hcleared
    · exact hs.cleared q poll' hq

/-- **Every event keeps the invariant.** -/
theorem Inv.next {s s' : State} {e : Event} (hs : Inv s) (h : s.next e = some s') : Inv s' := by
  rcases State.next_cases h with hw | ⟨p, -, -, rfl⟩ | ⟨p, poll, keys, more, -, hp, -, -, rfl⟩ |
    ⟨p, poll, r', poll', -, hp, hadv, rfl⟩
  · exact hs.writes hw
  · exact hs.setPoll p (Poll.sound_start _) fun id hid => by cases hid
  · have hold := hs.sound p poll hp
    exact hs.setPoll p ⟨hold.successful, hold.failed, hold.visited, hold.deleting, hold.deleted⟩
      (hs.cleared p poll hp)
  · have hold := hs.sound p poll hp
    have hnew : poll'.Sound s.phase := hadv.sound hs.stored hold
    rcases hadv.results hold with ⟨hresults, hcleared⟩ | ⟨id, -, rfl, hcleared⟩
    · have hset : Inv (s.setPoll p poll') := hs.setPoll p hnew (hcleared ▸ hs.cleared p poll hp)
      exact ⟨fun id o hr => hset.stored id o ((congrFun hresults id).symm.trans hr), hset.sound,
        fun q poll hq id hid => (congrFun hresults id).trans (hset.cleared q poll hq id hid)⟩
    · -- the result of `id` goes, whose record the poll has taken
      refine ⟨fun id' o hr => ?_, fun q poll'' hq => ?_, fun q poll'' hq id' hid' => ?_⟩
      · rw [Redis.deleteResult_results] at hr
        split_ifs at hr
        exact hs.stored id' o hr
      · rw [setPoll_polls] at hq
        split_ifs at hq
        · exact Option.some.inj hq ▸ hnew
        · exact hs.sound q poll'' hq
      · rw [Redis.deleteResult_results]
        split_ifs with heq
        · rfl
        · rw [setPoll_polls] at hq
          split_ifs at hq
          · obtain rfl := Option.some.inj hq
            rw [hcleared, List.mem_append, List.mem_singleton] at hid'
            exact hs.cleared p poll hp id' (hid'.resolve_right heq)
          · exact hs.cleared q poll'' hq id' hid'

theorem Steps.inv {s s' : State} {es : List Event} (h : Steps s es s') (hs : Inv s) : Inv s' :=
  Run.inv (fun _ _ _ hs hst => Inv.next hs hst) h hs

/-! ## Results that are gone -/

/-- A poll has removed the record. -/
def State.Taken (s : State) (id : TaskId) : Prop := ∃ p poll, s.polls p = some poll ∧ id ∈ poll.taken

/-- What has been taken stays so. -/
theorem State.Taken.next {s s' : State} {e : Event} (hs : Inv s) (h : s.next e = some s') {id : TaskId}
    (htaken : s.Taken id) : s'.Taken id := by
  obtain ⟨q, poll, hq, hid⟩ := htaken
  -- the polls of `s` are there with at least what they had taken
  have hset : ∀ p poll', (∀ old, s.polls p = some old → old.taken ⊆ poll'.taken) →
      (s.setPoll p poll').Taken id := by
    intro p poll' hsub
    by_cases heq : q = p
    · subst heq
      exact ⟨q, poll', by rw [setPoll_polls, if_pos rfl], hsub poll hq hid⟩
    · exact ⟨q, poll, by rw [setPoll_polls, if_neg heq]; exact hq, hid⟩
  rcases State.next_cases h with hw | ⟨p, -, hnone, rfl⟩ | ⟨p, poll', keys, more, -, hp, -, -, rfl⟩ |
    ⟨p, poll', r', poll'', -, hp, hadv, rfl⟩
  · exact ⟨q, poll, hw.polls ▸ hq, hid⟩
  · refine hset p .start fun old hold => ?_
    rw [hnone] at hold
    cases hold
  · refine hset p _ fun old hold => ?_
    obtain rfl := Option.some.inj (hp.symm.trans hold)
    exact List.Subset.refl _
  · refine hset p poll'' fun old hold => ?_
    obtain rfl := Option.some.inj (hp.symm.trans hold)
    exact hadv.taken_subset (hs.sound p poll' hp)

/-- The result of a task is gone after an event: it was before, a poll has taken the task, or it has expired. -/
theorem State.lost_of_next {s s' : State} {e : Event} (hs : Inv s) (h : s.next e = some s') {id : TaskId}
    {outcome : Outcome} (hended : s'.phase id = .ended outcome) (hnone : s'.redis.results id = none) :
    (s.phase id = .ended outcome ∧ s.redis.results id = none) ∨ s'.Taken id ∨ e = .expire id := by
  rcases State.next_cases h with hw | ⟨p, -, -, rfl⟩ | ⟨p, poll, keys, more, -, -, -, -, rfl⟩ |
    ⟨p, poll, r', poll', -, hp, hadv, rfl⟩
  · cases hw with
    | delay =>
      simp only [State.setPhase, Function.update_apply] at hended
      split_ifs at hended
      exact Or.inl ⟨hended, hnone⟩
    | store =>
      simp only [State.setPhase, Redis.storeResult, Function.update_apply] at hended hnone
      split_ifs at hended hnone
      exact Or.inl ⟨hended, hnone⟩
    | hset => exact Or.inl ⟨hended, hnone⟩
    | remove => exact Or.inl ⟨hended, hnone⟩
    | @expire id' =>
      rw [Redis.deleteResult_results] at hnone
      split_ifs at hnone with heq
      · exact Or.inr (Or.inr (congrArg Event.expire heq.symm))
      · exact Or.inl ⟨hended, hnone⟩
  · exact Or.inl ⟨hended, hnone⟩
  · exact Or.inl ⟨hended, hnone⟩
  · rcases hadv.results (hs.sound p poll hp) with ⟨hresults, -⟩ | ⟨id', hid', rfl, -⟩
    · exact Or.inl ⟨hended, (congrFun hresults id).symm.trans hnone⟩
    · rw [Redis.deleteResult_results] at hnone
      split_ifs at hnone with heq
      · exact Or.inr (Or.inl ⟨p, poll', by rw [setPoll_polls, if_pos rfl], heq ▸ hid'⟩)
      · exact Or.inl ⟨hended, hnone⟩

/-- **A result that is gone was taken by a poll, or has expired.** -/
theorem taken_or_expired {es : List Event} {s : State} (h : Steps .start es s) {id : TaskId} {outcome : Outcome}
    (hended : s.phase id = .ended outcome) (hnone : s.redis.results id = none) : s.Taken id ∨ .expire id ∈ es := by
  refine Run.inv_hist (I := fun es s => s.phase id = .ended outcome → s.redis.results id = none →
    s.Taken id ∨ .expire id ∈ es) (fun hended => by cases hended)
    (fun es s e s' hsteps ih hst hended hnone => ?_) h hended hnone
  have hs := Steps.inv hsteps inv_start
  rw [List.mem_append, List.mem_singleton]
  rcases State.lost_of_next hs hst hended hnone with ⟨hended, hnone⟩ | htaken | rfl
  · exact (ih hended hnone).imp (State.Taken.next hs hst) Or.inl
  · exact Or.inl htaken
  · exact Or.inr (Or.inr rfl)

/-- The poll has not collected the task, and is not about to. -/
def Poll.Blind (p : Poll) (id : TaskId) : Prop :=
  id ∉ p.completed ∧ ∀ name, p.pc ≠ .succeeded id name ∧ p.pc ≠ .timed id name

/-- Without its result a task is not collected, and its record is left alone. -/
theorem Advances.blind {r r' : Redis} {p p' : Poll} {phase : TaskId → Phase} (h : Advances r p r' p')
    (hp : p.Sound phase) {id : TaskId} (hnone : r.results id = none) (hb : p.Blind id) :
    p'.Blind id ∧ r'.records id = r.records id := by
  obtain ⟨hout, hpc'⟩ := hb
  cases h with
  | key => exact ⟨⟨hout, by simp⟩, rfl⟩
  | scanned => exact ⟨⟨hout, by simp⟩, rfl⟩
  | pending => exact ⟨⟨hout, by simp⟩, rfl⟩
  | @success id' name _ hresult =>
    refine ⟨⟨hout, fun name' => ⟨fun h => ?_, by simp⟩⟩, rfl⟩
    simp only [Pc.succeeded.injEq] at h
    rw [h.1, hnone] at hresult
    cases hresult
  | @failure id' name error _ hresult =>
    refine ⟨⟨fun h => ?_, by simp⟩, rfl⟩
    simp only [Poll.completed, List.map_append, List.mem_append, List.map_cons, List.map_nil,
      List.mem_singleton] at h hout
    rcases h with hold | hold | rfl
    · exact hout (Or.inl hold)
    · exact hout (Or.inr hold)
    · rw [hnone] at hresult
      cases hresult
  | @timed id' name hpc =>
    refine ⟨⟨hout, fun name' => ⟨by simp, fun h => ?_⟩⟩, rfl⟩
    simp only [Pc.timed.injEq] at h
    exact (hpc' name).1 (h.1 ▸ hpc)
  | @report id' name hpc runtime =>
    refine ⟨⟨fun h => ?_, by simp⟩, rfl⟩
    simp only [Poll.completed, List.map_append, List.mem_append, List.map_cons, List.map_nil,
      List.mem_singleton] at h hout
    rcases h with (hold | rfl) | hold
    · exact hout (Or.inl hold)
    · exact hpc.elim (hpc' name).1 (hpc' name).2
    · exact hout (Or.inr hold)
  | crash => exact ⟨⟨hout, by simp⟩, rfl⟩
  | @record done id' todo hpc =>
    have hne : id ≠ id' := by
      rintro rfl
      rw [← hp.deleting _ _ hpc] at hout
      exact hout (List.mem_append_right _ List.mem_cons_self)
    exact ⟨⟨hout, by simp⟩, Function.update_of_ne hne _ _⟩
  | result => exact ⟨⟨hout, by simp⟩, rfl⟩
  | done => exact ⟨⟨hout, by simp⟩, rfl⟩

/-- The result of a task that has ended is gone, and none of these polls has collected it. -/
structure Gone (Q : ℕ → Prop) (id : TaskId) (s : State) : Prop where
  ended : ∃ outcome, s.phase id = .ended outcome
  result : s.redis.results id = none
  blind : ∀ q, Q q → ∀ poll, s.polls q = some poll → poll.Blind id

theorem Gone.next {Q : ℕ → Prop} {id : TaskId} {s s' : State} {e : Event} (hs : Inv s) (hg : Gone Q id s)
    (h : s.next e = some s') : Gone Q id s' := by
  obtain ⟨⟨outcome, hended⟩, hnone, hblind⟩ := hg
  rcases State.next_cases h with hw | ⟨p, -, -, rfl⟩ | ⟨p, poll, keys, more, -, hp, hpc, -, rfl⟩ |
    ⟨p, poll, r', poll', -, hp, hadv, rfl⟩
  · refine ⟨⟨outcome, hw.ended hended⟩, ?_, fun q hq poll hpoll => hblind q hq poll (hw.polls ▸ hpoll)⟩
    cases hw with
    | @store id' _ _ hphase =>
      have hne : id ≠ id' := by
        rintro rfl
        rw [hended] at hphase
        rcases hphase with h | h <;> cases h
      exact (Function.update_of_ne hne _ _).trans hnone
    | @expire id' => rw [Redis.deleteResult_results, hnone, ite_self]
    | delay => exact hnone
    | hset => exact hnone
    | remove => exact hnone
  · refine ⟨⟨outcome, hended⟩, hnone, fun q hq poll hpoll => ?_⟩
    rw [setPoll_polls] at hpoll
    split_ifs at hpoll
    · cases hpoll
      simp [Poll.Blind, Poll.start, Poll.completed]
    · exact hblind q hq poll hpoll
  · refine ⟨⟨outcome, hended⟩, hnone, fun q hq poll' hpoll => ?_⟩
    rw [setPoll_polls] at hpoll
    split_ifs at hpoll with heq
    · cases hpoll
      exact hblind p (heq ▸ hq) poll hp
    · exact hblind q hq poll' hpoll
  · have hold := hs.sound p poll hp
    refine ⟨⟨outcome, hended⟩, ?_, fun q hq poll'' hpoll => ?_⟩
    · rcases hadv.results hold with ⟨hresults, -⟩ | ⟨id', -, rfl, -⟩
      · exact (congrFun hresults id).trans hnone
      · rw [Redis.deleteResult_results, hnone, ite_self]
    · rw [setPoll_polls] at hpoll
      split_ifs at hpoll with heq
      · cases hpoll
        exact (hadv.blind hold hnone (hblind p (heq ▸ hq) poll hp)).1
      · exact hblind q hq poll'' hpoll

/-- **Outcomes are not invented, lost only by expiry, and reported twice only by polls that overlap.**  What a
    poll reports is how the task has ended; the result of a task that has ended is still there, or it has
    expired, or it is reported by a poll that is about to return; and once a poll has returned, no poll
    that starts later reports the same task. -/
theorem reports_reachable {es : List Event} {s : State} (h : Steps .start es s) :
    (∀ p poll, s.polls p = some poll → ∀ id outcome, poll.Reports id outcome → s.phase id = .ended outcome) ∧
    (∀ id outcome, s.phase id = .ended outcome → s.redis.results id = some outcome ∨ .expire id ∈ es ∨
      ∃ p poll, s.polls p = some poll ∧ id ∈ poll.taken ∧ poll.Reports id outcome) ∧
    ∀ p poll, s.polls p = some poll → poll.pc = .finished → ∀ id ∈ poll.completed, ∀ es' s', Steps s es' s' →
      ∀ q poll', s.polls q = none → s'.polls q = some poll' → id ∉ poll'.completed := by
  have hs := Steps.inv h inv_start
  refine ⟨fun p poll hp id outcome hreports => (hs.sound p poll hp).ended hreports, fun id outcome hended => ?_,
    fun p poll hp hpc id hid es' s' hsteps q poll' hq hq' => ?_⟩
  · cases hresult : s.redis.results id with
    | some outcome' =>
      have hsame := hs.stored id outcome' hresult
      rw [hended, Phase.ended.injEq] at hsame
      exact Or.inl (congrArg some hsame.symm)
    | none =>
      rcases taken_or_expired h hended hresult with ⟨p, poll, hp, htaken⟩ | hexpired
      · obtain ⟨outcome', hended', hreports⟩ :=
          (hs.sound p poll hp).reports ((hs.sound p poll hp).taken_subset htaken)
        rw [hended, Phase.ended.injEq] at hended'
        exact Or.inr (Or.inr ⟨p, poll, hp, htaken, hended' ▸ hreports⟩)
      · exact Or.inr (Or.inl hexpired)
  · obtain ⟨outcome, hended, -⟩ := (hs.sound p poll hp).reports hid
    have hcleared : id ∈ poll.cleared := by simpa [Poll.cleared, hpc] using hid
    have hgone : Gone (fun q => s.polls q = none) id s :=
      ⟨⟨outcome, hended⟩, hs.cleared p poll hp id hcleared, fun q hq poll hpoll => by rw [hq] at hpoll; cases hpoll⟩
    have hboth : Inv s' ∧ Gone (fun q => s.polls q = none) id s' :=
      Run.inv (I := fun t => Inv t ∧ Gone (fun q => s.polls q = none) id t)
        (fun t e t' ht hst => ⟨ht.1.next hst, ht.2.next ht.1 hst⟩) hsteps ⟨hs, hgone⟩
    exact (hboth.2.blind q hq poll' hq').1

/-! ## Tasks that hang -/

/-- The poll has returned, or failed. -/
def Poll.Over (p : Poll) : Prop := p.pc = .finished ∨ p.pc = .crashed

/-- No poll is under way. -/
def State.Quiet (s : State) : Prop := ∀ p poll, s.polls p = some poll → poll.Over

/-- Unless its record is removed by hand, the task keeps it, and no poll to come reports that it has
    ended. -/
def State.Hangs (s : State) (id : TaskId) : Prop :=
  ∀ es s', Steps s es s' → .remove id ∉ es → (s'.redis.records id).isSome ∧
    ∀ q poll, s.polls q = none → s'.polls q = some poll → id ∉ poll.completed

/-- The event writes a field of the record. -/
def Event.Rewrites (e : Event) (id : TaskId) : Prop :=
  (∃ name, e = .register id name) ∨ ∃ runtime, e = .runtime id runtime

theorem Poll.Over.not_advances {r r' : Redis} {p p' : Poll} (hp : p.Over) : ¬ Advances r p r' p' := by
  intro h
  rcases hp with hpc | hpc <;> cases h <;> simp_all

/-- A poll that is over stays as it is. -/
theorem Poll.Over.next {s s' : State} {e : Event} (h : s.next e = some s') {p : ℕ} {poll : Poll}
    (hp : s.polls p = some poll) (hover : poll.Over) : s'.polls p = some poll := by
  rcases State.next_cases h with hw | ⟨q, -, hnone, rfl⟩ | ⟨q, poll', keys, more, -, hq, hpc, -, rfl⟩ |
    ⟨q, poll', r', poll'', -, hq, hadv, rfl⟩
  · rw [hw.polls, hp]
  · have hne : p ≠ q := by
      rintro rfl
      rw [hp] at hnone
      cases hnone
    rw [setPoll_polls, if_neg hne, hp]
  · have hne : p ≠ q := by
      rintro rfl
      obtain rfl := Option.some.inj (hp.symm.trans hq)
      rcases hover with h | h <;> rw [hpc] at h <;> cases h
    rw [setPoll_polls, if_neg hne, hp]
  · have hne : p ≠ q := by
      rintro rfl
      obtain rfl := Option.some.inj (hp.symm.trans hq)
      exact hover.not_advances hadv
    show (s.setPoll q poll'').polls p = _
    rw [setPoll_polls, if_neg hne, hp]

/-- A record stays while its result is gone and every poll is over or has not collected it. -/
theorem Gone.record {Q : ℕ → Prop} {id : TaskId} {s s' : State} {e : Event} (hs : Inv s) (hg : Gone Q id s)
    (hpolls : ∀ p poll, s.polls p = some poll → poll.Over ∨ Q p) (h : s.next e = some s')
    (he : e ≠ .remove id) (hrecord : (s.redis.records id).isSome) : (s'.redis.records id).isSome := by
  rcases State.next_cases h with hw | ⟨p, -, -, rfl⟩ | ⟨p, poll, keys, more, -, hp, hpc, -, rfl⟩ |
    ⟨p, poll, r', poll', -, hp, hadv, rfl⟩
  · cases hw with
    | delay => exact hrecord
    | store => exact hrecord
    | expire => exact hrecord
    | @hset id' _ f =>
      show (Function.update s.redis.records id' _ id).isSome
      rw [Function.update_apply]
      split_ifs
      · rfl
      · exact hrecord
    | @remove id' =>
      have hne : id ≠ id' := by
        rintro rfl
        exact he rfl
      exact (congrArg Option.isSome (Function.update_of_ne hne _ _)).trans hrecord
  · exact hrecord
  · exact hrecord
  · have hblind := hg.blind p ((hpolls p poll hp).resolve_left fun hover => hover.not_advances hadv) poll hp
    rw [← (hadv.blind (hs.sound p poll hp) hg.result hblind).2] at hrecord
    exact hrecord

/-- **A record without its result hangs.** -/
theorem hangs_of_gone {s : State} (hs : Inv s) (hquiet : s.Quiet) {id : TaskId} {outcome : Outcome}
    (hended : s.phase id = .ended outcome) (hrecord : (s.redis.records id).isSome)
    (hresult : s.redis.results id = none) : s.Hangs id := by
  intro es s' hsteps hremove
  have hgone : Gone (fun q => s.polls q = none) id s :=
    ⟨⟨outcome, hended⟩, hresult, fun q hq poll hpoll => by rw [hq] at hpoll; cases hpoll⟩
  -- the polls of `s` stay as they are, and those to come are blind
  have hall : .remove id ∉ es → Inv s' ∧ Gone (fun q => s.polls q = none) id s' ∧
      (∀ p poll, s.polls p = some poll → s'.polls p = some poll) ∧ (s'.redis.records id).isSome := by
    refine Run.inv_hist (I := fun es t => .remove id ∉ es → Inv t ∧ Gone (fun q => s.polls q = none) id t ∧
      (∀ p poll, s.polls p = some poll → t.polls p = some poll) ∧ (t.redis.records id).isSome)
      (fun _ => ⟨hs, hgone, fun _ _ h => h, hrecord⟩) (fun es t e t' _ ih hst hnot => ?_) hsteps
    rw [List.mem_append, List.mem_singleton, not_or] at hnot
    obtain ⟨ht, hg, hkeep, hrec⟩ := ih hnot.1
    refine ⟨ht.next hst, hg.next ht hst, fun p poll hp => (hquiet p poll hp).next hst (hkeep p poll hp), ?_⟩
    refine hg.record ht (fun p poll hp => ?_) hst (Ne.symm hnot.2) hrec
    cases hold : s.polls p with
    | none => exact Or.inr rfl
    | some old =>
      obtain rfl := Option.some.inj ((hkeep p old hold).symm.trans hp)
      exact Or.inl (hquiet p old hold)
  obtain ⟨-, hg, -, hrec⟩ := hall hremove
  exact ⟨hrec, fun q poll hq hpoll => (hg.blind q hq poll hpoll).1⟩

/-- Only so many polls have started. -/
theorem exists_fresh {es : List Event} {s : State} (h : Steps .start es s) : ∃ n, ∀ q, n ≤ q → s.polls q = none := by
  refine Run.inv (I := fun s => ∃ n, ∀ q, n ≤ q → s.polls q = none) (fun s e s' hs hst => ?_) h ⟨0, fun _ _ => rfl⟩
  obtain ⟨n, hn⟩ := hs
  have hset : ∀ p poll, ∃ n, ∀ q, n ≤ q → (s.setPoll p poll).polls q = none := by
    intro p poll
    refine ⟨n + p + 1, fun q hq => ?_⟩
    rw [setPoll_polls, if_neg (by omega)]
    exact hn q (by omega)
  rcases State.next_cases hst with hw | ⟨p, -, -, rfl⟩ | ⟨p, poll, keys, more, -, -, -, -, rfl⟩ |
    ⟨p, poll, r', poll', -, -, -, rfl⟩
  · exact ⟨n, fun q hq => by rw [hw.polls]; exact hn q hq⟩
  · exact hset p _
  · exact hset p _
  · exact hset p _

/-- A poll that has come to a task which has ended collects it, if nothing comes between. -/
theorem collects {s : State} {q : ℕ} {poll : Poll} {id : TaskId} {name : String} {outcome : Outcome}
    (hpoll : s.polls q = some poll) (hpc : poll.pc = .named id name)
    (hresult : s.redis.results id = some outcome) :
    ∃ n s' poll', Steps s (List.replicate n (.advance q)) s' ∧ s'.polls q = some poll' ∧ id ∈ poll'.completed := by
  have hstep : ∀ {t : State} {p : Poll}, t.polls q = some p → ∀ p', p.advance t.redis = some (t.redis, p') →
      t.next (.advance q) = some (t.setPoll q p') := by
    intro t p hp p' hadv
    simp [State.next, hp, hadv, State.setPoll]
  cases outcome with
  | failure error =>
    have h₁ := hstep hpoll { poll with failed := poll.failed ++ [(id, name, error)], pc := .next }
      (by simp [Poll.advance, hpc, hresult])
    exact ⟨1, _, _, Run.single h₁, by rw [setPoll_polls, if_pos rfl], by simp [Poll.completed]⟩
  | success =>
    have h₁ := hstep hpoll { poll with pc := .succeeded id name } (by simp [Poll.advance, hpc, hresult])
    have hp₁ : (s.setPoll q { poll with pc := .succeeded id name }).polls q =
        some { poll with pc := .succeeded id name } := by rw [setPoll_polls, if_pos rfl]
    cases hruntime : s.redis.runtime id with
    | none =>
      have h₂ := hstep hp₁
        { poll with successful := poll.successful ++ [(id, name, none)], pc := .next }
        (by simp [Poll.advance, State.setPoll, hruntime])
      exact ⟨2, _, _, Run.cons h₁ (Run.single h₂), by rw [setPoll_polls, if_pos rfl], by simp [Poll.completed]⟩
    | some runtime =>
      have h₂ := hstep hp₁ { poll with pc := .timed id name }
        (by simp [Poll.advance, State.setPoll, hruntime])
      have hp₂ : ((s.setPoll q { poll with pc := .succeeded id name }).setPoll q
          { poll with pc := .timed id name }).polls q = some { poll with pc := .timed id name } := by
        rw [setPoll_polls, if_pos rfl]
      have h₃ := hstep hp₂
        { poll with successful := poll.successful ++ [(id, name, some runtime)], pc := .next }
        (by simp [Poll.advance, State.setPoll, hruntime])
      exact ⟨3, _, _, Run.cons h₁ (Run.cons h₂ (Run.single h₃)), by rw [setPoll_polls, if_pos rfl],
        by simp [Poll.completed]⟩

/-- **A record with its result does not hang**: the next poll reports it. -/
theorem not_hangs_of_result {s : State} {id : TaskId} {outcome : Outcome} (hfresh : ∃ q, s.polls q = none)
    (hrecord : (s.redis.records id).isSome) (hresult : s.redis.results id = some outcome) : ¬ s.Hangs id := by
  intro hhangs
  obtain ⟨q, hq⟩ := hfresh
  have h₁ : s.next (.poll q) = some (s.setPoll q .start) := by simp [State.next, hq]
  have h₂ : (s.setPoll q .start).next (.scan q [id] false) =
      some ((s.setPoll q .start).setPoll q { Poll.start with keys := [id], scanning := false }) := by
    simp [State.next, Poll.start, State.setPoll, hrecord]
  have h₃ : ((s.setPoll q .start).setPoll q { Poll.start with keys := [id], scanning := false }).next (.advance q) =
      some (((s.setPoll q .start).setPoll q { Poll.start with keys := [id], scanning := false }).setPoll q
        { Poll.start with keys := [], scanning := false, pc := .named id (s.redis.taskName id) }) := by
    simp [State.next, Poll.start, State.setPoll, Poll.advance]
  obtain ⟨n, s', poll', hsteps, hpoll', hid⟩ := collects
    (s := ((s.setPoll q .start).setPoll q { Poll.start with keys := [id], scanning := false }).setPoll q
      { Poll.start with keys := [], scanning := false, pc := .named id (s.redis.taskName id) })
    (q := q) (by rw [setPoll_polls, if_pos rfl]) rfl hresult
  have hrun := Run.cons h₁ (Run.cons h₂ (Run.cons h₃ hsteps))
  refine (hhangs _ _ hrun ?_).2 q poll' hq hpoll' hid
  simp [List.mem_replicate]

/-- What a poll takes anew, it removes. -/
theorem Advances.taken_new {r r' : Redis} {p p' : Poll} {phase : TaskId → Phase} (h : Advances r p r' p')
    (hp : p.Sound phase) {id : TaskId} (hid : id ∈ p'.taken) : id ∈ p.taken ∨ r'.records id = none := by
  cases h with
  | @record done id' todo hpc =>
    simp only [Poll.taken, List.mem_append, List.mem_singleton, hpc] at hid ⊢
    rcases hid with hold | rfl
    · exact Or.inl hold
    · exact Or.inr (Function.update_self _ _ _)
  | @result done id' todo hpc =>
    simp only [Poll.taken, hpc] at hid ⊢
    exact Or.inl hid
  | @done done hpc =>
    have hall := hp.deleting done [] hpc
    rw [List.append_nil] at hall
    simp only [Poll.taken, Poll.completed, hpc] at hid ⊢
    exact Or.inl (hall ▸ hid)
  | _ => simp [Poll.taken] at hid

/-- What one event adds to the tasks that have been taken, it removes. -/
theorem State.Taken.of_next {s s' : State} {e : Event} (hs : Inv s) (h : s.next e = some s') {id : TaskId}
    (htaken : s'.Taken id) : s.Taken id ∨ s'.redis.records id = none := by
  obtain ⟨q, poll, hq, hid⟩ := htaken
  rcases State.next_cases h with hw | ⟨p, -, hnone, rfl⟩ | ⟨p, poll', keys, more, -, hp, hpc, -, rfl⟩ |
    ⟨p, poll', r', poll'', -, hp, hadv, rfl⟩
  · exact Or.inl ⟨q, poll, hw.polls ▸ hq, hid⟩
  · rw [setPoll_polls] at hq
    split_ifs at hq
    · cases hq
      cases hid
    · exact Or.inl ⟨q, poll, hq, hid⟩
  · rw [setPoll_polls] at hq
    split_ifs at hq
    · cases hq
      simp [Poll.taken, hpc] at hid
    · exact Or.inl ⟨q, poll, hq, hid⟩
  · rw [setPoll_polls] at hq
    split_ifs at hq
    · cases hq
      exact (hadv.taken_new (hs.sound p poll' hp) hid).imp_left fun hold => ⟨p, poll', hp, hold⟩
    · exact Or.inl ⟨q, poll, hq, hid⟩

/-- **A record that is there after a poll has taken it was written again.** -/
theorem written_again {es : List Event} {s : State} (h : Steps .start es s) {id : TaskId} (htaken : s.Taken id)
    (hrecord : (s.redis.records id).isSome) :
    ∃ es₁ e es₂ s₁, es = es₁ ++ e :: es₂ ∧ Steps .start es₁ s₁ ∧ s₁.Taken id ∧ e.Rewrites id := by
  have hall : s.Taken id → (s.redis.records id).isSome →
      ∃ es₁ e es₂ s₁, es = es₁ ++ e :: es₂ ∧ Steps .start es₁ s₁ ∧ s₁.Taken id ∧ e.Rewrites id := by
    refine Run.inv_hist (I := fun es s => s.Taken id → (s.redis.records id).isSome →
      ∃ es₁ e es₂ s₁, es = es₁ ++ e :: es₂ ∧ Steps .start es₁ s₁ ∧ s₁.Taken id ∧ e.Rewrites id)
      (fun htaken => by obtain ⟨p, poll, hp, -⟩ := htaken; cases hp)
      (fun es s e s' hsteps ih hst htaken hrecord => ?_) h
    have hs := Steps.inv hsteps inv_start
    have hbefore : s.Taken id := (State.Taken.of_next hs hst htaken).resolve_right fun hnone => by
      rw [hnone] at hrecord
      cases hrecord
    by_cases hthere : (s.redis.records id).isSome = true
    · obtain ⟨es₁, e₁, es₂, s₁, rfl, h₁, htaken₁, hwrites⟩ := ih hbefore hthere
      exact ⟨es₁, e₁, es₂ ++ [e], s₁, by simp, h₁, htaken₁, hwrites⟩
    · -- only a write of one of its fields makes the record
      refine ⟨es, e, [], s, rfl, hsteps, hbefore, ?_⟩
      rw [Bool.not_eq_true, Option.isSome_eq_false_iff, Option.isNone_iff_eq_none] at hthere
      rcases State.next_cases hst with hw | ⟨p, -, -, rfl⟩ | ⟨p, poll, keys, more, -, -, -, -, rfl⟩ |
        ⟨p, poll, r', poll', -, -, hadv, rfl⟩
      · cases hw with
        | delay => simp [State.setPhase, hthere] at hrecord
        | store => simp [Redis.storeResult, hthere] at hrecord
        | expire => simp [Redis.deleteResult, hthere] at hrecord
        | @hset id' _ f he =>
          by_cases heq : id = id'
          · exact heq ▸ he
          · simp [Redis.hset, Function.update_of_ne heq, hthere] at hrecord
        | @remove id' =>
          by_cases heq : id = id'
          · subst heq
            simp [Redis.removeTask] at hrecord
          · simp [Redis.removeTask, Function.update_of_ne heq, hthere] at hrecord
      · simp [State.setPoll, hthere] at hrecord
      · simp [State.setPoll, hthere] at hrecord
      · cases hadv with
        | @record done id' todo =>
          by_cases heq : id = id'
          · subst heq
            simp [Redis.removeTask] at hrecord
          · simp [Redis.removeTask, Function.update_of_ne heq, hthere] at hrecord
        | result => simp [Redis.deleteResult, hthere] at hrecord
        | _ => simp [hthere] at hrecord
  exact hall htaken hrecord

/-- **When a task is shown as pending for ever.**  While no poll is under way, a task that has ended hangs iff
    its record is there without its result; and then the result has expired, or its record was written
    after a poll had taken it: the task was registered, or its running time set, too late. -/
theorem hangs_iff {es : List Event} {s : State} (h : Steps .start es s) (hquiet : s.Quiet) {id : TaskId}
    {outcome : Outcome} (hended : s.phase id = .ended outcome) :
    (s.Hangs id ↔ (s.redis.records id).isSome ∧ s.redis.results id = none) ∧
    (s.Hangs id → .expire id ∈ es ∨
      ∃ es₁ e es₂ s₁, es = es₁ ++ e :: es₂ ∧ Steps .start es₁ s₁ ∧ s₁.Taken id ∧ e.Rewrites id) := by
  have hs := Steps.inv h inv_start
  have hiff : s.Hangs id ↔ (s.redis.records id).isSome ∧ s.redis.results id = none := by
    constructor
    · intro hhangs
      have hrecord := (hhangs [] s .nil List.not_mem_nil).1
      refine ⟨hrecord, ?_⟩
      cases hresult : s.redis.results id with
      | none => rfl
      | some outcome' =>
        obtain ⟨n, hn⟩ := exists_fresh h
        exact absurd hhangs (not_hangs_of_result ⟨n, hn n le_rfl⟩ hrecord hresult)
    · rintro ⟨hrecord, hresult⟩
      exact hangs_of_gone hs hquiet hended hrecord hresult
  refine ⟨hiff, fun hhangs => ?_⟩
  obtain ⟨hrecord, hresult⟩ := hiff.1 hhangs
  exact (taken_or_expired h hended hresult).symm.imp_right fun htaken => written_again h htaken hrecord

/-! ## A task registered too late -/

theorem steps_of_foldlM {s s' : State} {es : List Event} (h : es.foldlM State.next s = some s') : Steps s es s' := by
  induction es generalizing s with
  | nil =>
    obtain rfl := Option.some.inj h
    exact .nil
  | cons e es ih =>
    rw [List.foldlM_cons, Option.bind_eq_bind, Option.bind_eq_some_iff] at h
    obtain ⟨s₁, hst, h⟩ := h
    exact Run.cons hst (ih h)

/-- The worker is done before the request registers the task, and a poll comes between. -/
def lateEvents : List Event :=
  [.delay "t", .runtime "t" "1.50", .finish "t" .success, .poll 0, .scan 0 ["t"] false] ++
    List.replicate 8 (.advance 0) ++ [.register "t" "app_task"]

theorem lateEvents_possible : (lateEvents.foldlM State.next .start).isSome = true := by rfl

/-- The state after them. -/
def lateState : State := (lateEvents.foldlM State.next .start).get lateEvents_possible

theorem late_steps : Steps .start lateEvents lateState :=
  steps_of_foldlM (Option.some_get lateEvents_possible).symm

theorem late_polls (p : ℕ) (poll : Poll) (h : lateState.polls p = some poll) :
    p = 0 ∧ poll = ⟨false, [], [], [("t", "None", some "1.50")], [], .finished⟩ := by
  cases p with
  | zero => exact ⟨rfl, (Option.some.inj h).symm⟩
  | succ p => cases h

theorem late_quiet : lateState.Quiet := by
  intro p poll h
  rw [(late_polls p poll h).2]
  exact Or.inl rfl

/-- The poll reports the task without its name, and the task hangs. -/
theorem hangs_late : Steps .start lateEvents lateState ∧ lateState.Quiet ∧ lateState.Hangs "t" :=
  ⟨late_steps, late_quiet,
    (hangs_iff late_steps late_quiet (rfl : lateState.phase "t" = .ended .success)).1.2 ⟨rfl, rfl⟩⟩

theorem reports_late : Steps .start lateEvents lateState ∧ lateState.phase "t" = .ended .success :=
  ⟨late_steps, (reports_reachable late_steps).1 0 _ rfl "t" .success ⟨"None", some "1.50", List.mem_singleton.2 rfl⟩⟩

end PendingTasks

end ServerlessYarn
