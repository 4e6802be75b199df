/-
  ServerlessYARN model — the ticks of the power meters (`handle` and `_process_oldest_tick` of
  smartwatts/config/hwpc_report.py and selfwatts/config/handler.py).

  The sensor sends one report for each target and timestamp, and one on the whole machine.  A
  handler collects the reports of a timestamp in a tick, and processes the oldest tick when it
  has more than five of them (SmartWatts) or two (SelfWatts).  The power models are a parameter
  that always returns: the streams on which processing a tick raises (a frequency below every
  layer, or an MPERF of zero in SelfWatts) are outside the model, since what becomes of the actor
  then is up to its framework.

  * `run_sessions`: the handler refines the sessions of the stream of reports, by timestamp;
  * `ticks_processed`: every report is in one tick, and the ticks are those of the whole stream, each
    with all reports of its timestamp, iff no report is late.
-/
import ServerlessYarn.Lib.Dict
import ServerlessYarn.Lib.Sessions

namespace ServerlessYarn

namespace PowerTicks

variable {σ τ R P : Type*} [DecidableEq τ]

/-- `HWPCReport`: the measurements of a target. -/
structure HwpcReport (τ R : Type*) where
  timestamp : τ
  target : String
  groups : R

/-- The reports of a timestamp, by target. -/
abbrev Tick (τ R : Type*) := Dict String (HwpcReport τ R)

/-- The ticks that are waiting, the power models, the ticks that have been processed, and the reports
    that were sent for them. -/
structure Handler (σ τ R P : Type*) where
  ticks : Dict τ (Tick τ R)
  models : σ
  processed : List (τ × Tick τ R)
  sent : List P

namespace Handler

def start (models : σ) : Handler σ τ R P := ⟨Dict.empty, models, [], []⟩

end Handler

omit [DecidableEq τ] in
theorem nodup_behind {ticks : Dict τ (Tick τ R)} {e : τ × Tick τ R} {es : List (τ × Tick τ R)}
    (h : ticks.entries = e :: es) : (es.map Prod.fst).Nodup := by
  have hnodup := ticks.distinct
  rw [h, List.map_cons] at hnodup
  exact (List.nodup_cons.1 hnodup).2

/-- `self.ticks.popitem(last=False)` -/
def popOldest (ticks : Dict τ (Tick τ R)) : Option ((τ × Tick τ R) × Dict τ (Tick τ R)) :=
  match h : ticks.entries with
  | [] => none
  | e :: es => some (e, ⟨es, nodup_behind h⟩)

/-- What the power models make of a tick, of the report on the whole machine and those on the targets, and
    what they learn from it; they do not raise. -/
abbrev Estimate (σ τ R P : Type*) := σ → τ → HwpcReport τ R → Tick τ R → List P × σ

/-- `_process_oldest_tick`: a tick is of no use without the reference, or without targets. -/
def processTick (estimate : Estimate σ τ R P) (models : σ) (tick : τ × Tick τ R) : List P × σ :=
  match tick.2.get? "all" with
  | none => ([], models)
  | some global_report =>
    let hwpc_reports := tick.2.erase "all"
    if hwpc_reports.entries = [] then ([], models) else estimate models tick.1 global_report hwpc_reports

/-- `handle` -/
def handle (estimate : Estimate σ τ R P) (wait : ℕ) (h : Handler σ τ R P) (msg : HwpcReport τ R) :
    Handler σ τ R P :=
  let ticks := h.ticks.set msg.timestamp (((h.ticks.get? msg.timestamp).getD Dict.empty).set msg.target msg)
  if wait < ticks.entries.length then
    match popOldest ticks with
    | some (tick, ticks) =>
      let (reports, models) := processTick estimate h.models tick
      ⟨ticks, models, h.processed ++ [tick], h.sent ++ reports⟩
    | none => { h with ticks := ticks }
  else { h with ticks := ticks }

/-- `HwPCReportHandler` waits for five ticks, and `ReportHandler` for two. -/
def smartwattsWait : ℕ := 5

def selfwattsWait : ℕ := 2

/-- The handler after a stream of reports. -/
def run (estimate : Estimate σ τ R P) (wait : ℕ) (models : σ) (msgs : List (HwpcReport τ R)) :
    Handler σ τ R P :=
  msgs.foldl (handle estimate wait) (Handler.start models)

/-- The power models taken through ticks, one after the other. -/
def processTicks (estimate : Estimate σ τ R P) (models : σ) (ticks : List (τ × Tick τ R)) : List P × σ :=
  ticks.foldl (fun out tick =>
    (out.1 ++ (processTick estimate out.2 tick).1, (processTick estimate out.2 tick).2)) ([], models)

omit [DecidableEq τ] in
theorem processTicks_concat (estimate : Estimate σ τ R P) (models : σ) (ticks : List (τ × Tick τ R))
    (tick : τ × Tick τ R) : processTicks estimate models (ticks ++ [tick]) =
      ((processTicks estimate models ticks).1 ++ (processTick estimate (processTicks estimate models ticks).2 tick).1,
        (processTick estimate (processTicks estimate models ticks).2 tick).2) := by
  unfold processTicks
  rw [List.foldl_append]
  rfl

/-! ## Ticks and sessions -/

/-- The tick that reports make up. -/
def tickOf (msgs : List (HwpcReport τ R)) : Tick τ R := msgs.foldl (fun d msg => d.set msg.target msg) Dict.empty

/-- The tick of a session. -/
def sessionTick (s : Sessions.Session τ (HwpcReport τ R)) : τ × Tick τ R := (s.1, tickOf s.2)

omit [DecidableEq τ] in
theorem tickOf_concat (msgs : List (HwpcReport τ R)) (msg : HwpcReport τ R) :
    tickOf (msgs ++ [msg]) = (tickOf msgs).set msg.target msg := by
  unfold tickOf
  rw [List.foldl_append]
  rfl

omit [DecidableEq τ] in
/-- A tick has the last report of each target. -/
theorem get?_tickOf (msgs : List (HwpcReport τ R)) (target : String) :
    (tickOf msgs).get? target = (msgs.filter fun msg => msg.target = target).getLast? := by
  induction msgs using List.reverseRecOn with
  | nil => rfl
  | append_singleton msgs msg ih =>
    rw [tickOf_concat, Dict.get?_set, List.filter_append, List.filter_singleton]
    by_cases h : msg.target = target
    · simp [h]
    · simp [h, Ne.symm h, ih]

omit [DecidableEq τ] in
theorem keys_of_entries {ticks : Dict τ (Tick τ R)} {ss : List (Sessions.Session τ (HwpcReport τ R))}
    (h : ticks.entries = ss.map sessionTick) : ticks.keys = ss.map Prod.fst := by
  rw [Dict.keys, h, List.map_map]
  rfl

/-- A member joins the session of its key: the other ticks are as before. -/
theorem map_insert {msg : HwpcReport τ R} {ss : List (Sessions.Session τ (HwpcReport τ R))} {old : Tick τ R}
    (hkeys : (ss.map Prod.fst).Nodup) (hmem : msg.timestamp ∈ ss.map Prod.fst)
    (hold : ∀ s ∈ ss, s.1 = msg.timestamp → tickOf s.2 = old) :
    (Sessions.insert HwpcReport.timestamp msg ss).map sessionTick =
      (ss.map sessionTick).map fun e =>
        (e.1, if e.1 = msg.timestamp then old.set msg.target msg else e.2) := by
  induction ss with
  | nil => cases hmem
  | cons s ss ih =>
    rw [List.map_cons, List.nodup_cons] at hkeys
    rw [Sessions.insert]
    split_ifs with heq
    · have hothers : ∀ s' ∈ ss, s'.1 ≠ msg.timestamp := by
        rintro s' hs' rfl'
        exact hkeys.1 (heq ▸ rfl' ▸ List.mem_map_of_mem hs')
      rw [List.map_cons, List.map_cons, List.map_cons]
      congr 1
      · simp [sessionTick, heq, tickOf_concat, hold s List.mem_cons_self heq]
      · rw [List.map_map]
        refine List.map_congr_left fun s' hs' => ?_
        simp [sessionTick, hothers s' hs']
    · rw [List.map_cons, List.map_cons, List.map_cons,
        ih hkeys.2 ((List.mem_cons.1 hmem).resolve_left fun h => heq h.symm)
          fun s' hs' => hold s' (List.mem_cons_of_mem _ hs')]
      congr 1
      simp [sessionTick, heq]

/-- A report goes into its tick as into its session. -/
theorem entries_set {ticks : Dict τ (Tick τ R)} {ss : List (Sessions.Session τ (HwpcReport τ R))}
    (h : ticks.entries = ss.map sessionTick) (msg : HwpcReport τ R) :
    (ticks.set msg.timestamp (((ticks.get? msg.timestamp).getD Dict.empty).set msg.target msg)).entries =
      (Sessions.insert HwpcReport.timestamp msg ss).map sessionTick := by
  have hkeys := keys_of_entries h
  have hnodup : (ss.map Prod.fst).Nodup := hkeys ▸ ticks.nodup_keys
  by_cases hmem : msg.timestamp ∈ ticks.keys
  · obtain ⟨old, hold⟩ := Dict.mem_keys_iff.1 hmem
    have hunique : ∀ s ∈ ss, s.1 = msg.timestamp → tickOf s.2 = old := by
      intro s hs heq
      have hentry : (msg.timestamp, tickOf s.2) ∈ ticks.entries := by
        rw [h, ← heq]
        exact List.mem_map_of_mem hs
      exact Option.some.inj ((Dict.get?_eq_some_iff.2 hentry).symm.trans hold)
    rw [map_insert hnodup (hkeys ▸ hmem) hunique, ← h, hold, Option.getD_some, Dict.set, dif_pos hmem]
    rfl
  · rw [Dict.entries_set_of_notMem _ _ hmem, Sessions.insert_of_notMem (hkeys ▸ hmem), Dict.get?_eq_none_iff.2 hmem,
      List.map_append, h]
    rfl

omit [DecidableEq τ] in
/-- The oldest tick. -/
theorem popOldest_eq {ticks : Dict τ (Tick τ R)} {e : τ × Tick τ R} {es : List (τ × Tick τ R)}
    (h : ticks.entries = e :: es) : ∃ ticks', popOldest ticks = some (e, ticks') ∧ ticks'.entries = es := by
  unfold popOldest
  split
  · rename_i hnil
    rw [h] at hnil
    cases hnil
  · rename_i e' es' hcons
    rw [h] at hcons
    cases hcons
    exact ⟨_, rfl, rfl⟩

/-- **The handler refines the sessions of the reports**: the ticks that wait are the open sessions, and those
    that have been processed are the closed ones. -/
theorem run_sessions (estimate : Estimate σ τ R P) (wait : ℕ) (models : σ) (msgs : List (HwpcReport τ R)) :
    (run estimate wait models msgs).ticks.entries =
        (Sessions.run HwpcReport.timestamp wait msgs).opened.map sessionTick ∧
      (run estimate wait models msgs).processed =
        (Sessions.run HwpcReport.timestamp wait msgs).closed.map sessionTick ∧
      ((run estimate wait models msgs).sent, (run estimate wait models msgs).models) =
        processTicks estimate models (run estimate wait models msgs).processed := by
  induction msgs using List.reverseRecOn with
  | nil => exact ⟨rfl, rfl, rfl⟩
  | append_singleton msgs msg ih =>
    obtain ⟨hticks, hprocessed, hsent⟩ := ih
    have hset := entries_set hticks msg
    have hstep : run estimate wait models (msgs ++ [msg]) =
        handle estimate wait (run estimate wait models msgs) msg := by
      unfold run
      rw [List.foldl_append]
      rfl
    rw [hstep, Sessions.run_concat, Sessions.State.push, handle]
    have hlength := congrArg List.length hset
    rw [List.length_map] at hlength
    rw [hlength]
    by_cases hmore : wait < (Sessions.insert HwpcReport.timestamp msg
        (Sessions.run HwpcReport.timestamp wait msgs).opened).length
    · rw [if_pos hmore, if_pos hmore]
      cases hins : Sessions.insert HwpcReport.timestamp msg (Sessions.run HwpcReport.timestamp wait msgs).opened with
      | nil => simp [hins] at hmore
      | cons s ss =>
        rw [hins, List.map_cons] at hset
        obtain ⟨ticks', hpop, hrest⟩ := popOldest_eq hset
        rw [hpop]
        refine ⟨hrest, by simp [hprocessed], ?_⟩
        rw [processTicks_concat, ← hsent]
    · rw [if_neg hmore, if_neg hmore]
      exact ⟨hset, hprocessed, hsent⟩

/-- The tick of a timestamp, with all reports of the stream. -/
def completeTick (msgs : List (HwpcReport τ R)) (t : τ) : τ × Tick τ R :=
  (t, tickOf (msgs.filter fun msg => msg.timestamp = t))

/-- It has the last report of each target for the timestamp. -/
theorem get?_completeTick (msgs : List (HwpcReport τ R)) (t : τ) (target : String) :
    (completeTick msgs t).2.get? target =
      (msgs.filter fun msg => msg.timestamp = t ∧ msg.target = target).getLast? := by
  rw [completeTick, get?_tickOf, List.filter_filter]
  congr 1
  refine List.filter_congr fun msg _ => ?_
  rw [Bool.decide_and, Bool.and_comm]

/-- **What the power meters process.**  At most `wait` ticks are kept, and the power models are taken through
    the others, each once, the oldest first; every report goes into exactly one tick; and the ticks are the
    complete ones of the whole stream, in the order in which their timestamps first come, iff no report
    comes when `wait` newer ticks have been opened. -/
theorem ticks_processed (estimate : Estimate σ τ R P) (wait : ℕ) (models : σ) (msgs : List (HwpcReport τ R)) :
    (run estimate wait models msgs).ticks.entries.length ≤ wait ∧
    ((run estimate wait models msgs).sent, (run estimate wait models msgs).models) =
      processTicks estimate models (run estimate wait models msgs).processed ∧
    (∃ sessions : List (τ × List (HwpcReport τ R)), (sessions.flatMap Prod.snd).Perm msgs ∧
      (∀ s ∈ sessions, ∀ msg ∈ s.2, msg.timestamp = s.1) ∧
      (run estimate wait models msgs).processed ++ (run estimate wait models msgs).ticks.entries =
        sessions.map sessionTick) ∧
    (Sessions.InTime HwpcReport.timestamp wait msgs ↔
      (run estimate wait models msgs).processed ++ (run estimate wait models msgs).ticks.entries =
        (Sessions.firsts HwpcReport.timestamp msgs).map (completeTick msgs)) := by
  obtain ⟨hticks, hprocessed, hsent⟩ := run_sessions estimate wait models msgs
  have hall : (run estimate wait models msgs).processed ++ (run estimate wait models msgs).ticks.entries =
      (Sessions.run HwpcReport.timestamp wait msgs).all.map sessionTick := by
    rw [hprocessed, hticks, Sessions.State.all, List.map_append]
  have hcomplete : (Sessions.groups HwpcReport.timestamp msgs).map sessionTick =
      (Sessions.firsts HwpcReport.timestamp msgs).map (completeTick msgs) := by
    unfold Sessions.groups
    rw [List.map_map]
    rfl
  refine ⟨?_, hsent, ⟨_, Sessions.run_perm, Sessions.run_keyed, hall⟩, fun h => ?_, fun h => ?_⟩
  · rw [hticks, List.length_map]
    exact Sessions.run_bounds.1
  · rw [hall, Sessions.run_of_inTime h, hcomplete]
  · have hkeys := congrArg (List.map Prod.fst) (hall.symm.trans h)
    rw [List.map_map, List.map_map] at hkeys
    have hnodup : ((Sessions.run HwpcReport.timestamp wait msgs).all.map Prod.fst).Nodup := by
      refine (congrArg List.Nodup hkeys).mpr ?_
      rw [show (Prod.fst ∘ completeTick msgs) = id from rfl, List.map_id]
      exact Sessions.nodup_firsts
    exact Sessions.nodup_iff_inTime.1 hnodup

/-- A report that comes behind two newer ticks makes a tick of its own. -/
example : (run (fun _ t _ _ => ([t], ())) selfwattsWait ()
    ([(1, "all"), (1, "a"), (2, "all"), (2, "a"), (3, "all"), (1, "b"), (3, "a")].map
      fun e => (⟨e.1, e.2, ()⟩ : HwpcReport ℕ Unit))).processed.map (fun tick => (tick.1, tick.2.keys)) =
    [(1, ["all", "a"]), (2, ["all", "a"])] := by
  decide

end PowerTicks

end ServerlessYarn
