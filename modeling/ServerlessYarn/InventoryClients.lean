/-
  ServerlessYARN model — concurrent updates of the inventory file.

  Every client loads the inventory, changes it and saves it as a whole.  The
  Celery tasks (`ui/background_tasks.py`) do so under the redis lock
  `ansible_inventory_access_lock`; the script `update_host_disks_bw_inv.py`,
  which the playbooks run after the lock is released, does not take it.

  * `tasks_serial`: the tasks alone never lose an update;
  * `inventory_updates_serial`: neither do tasks and scripts, if no script saves
    between the load and the save of another client, and no task between those
    of a script;
  * `inventory_update_lost`: a script that overlaps a task erases its containers.
-/
import ServerlessYarn.InventoryUpdates
import ServerlessYarn.Lib.Snapshot

namespace ServerlessYarn

open Snapshot

section clients
variable {ι : Type} [DecidableEq ι] (clients : ι → InventoryUpdate)

/-- The clients that take the lock. -/
def Tasks (c : ι) : Prop := (clients c).locks

/-- One step of one client. -/
abbrev ClientStep : State ι Inventory → Event ι → State ι Inventory → Prop :=
  Step (Tasks clients) fun c inv => ((clients c).run inv).toOption

/-- A client saves a change while no other client is between its load and its
    save, except that the tasks need not care about each other. -/
abbrev SavesApart : State ι Inventory → Event ι → Prop :=
  Isolated (Tasks clients) fun c inv => ((clients c).run inv).toOption

/-- The updates of the clients that are done, one after another in some order. -/
def UpdatesSerial (inv : Inventory) (s : State ι Inventory) : Prop :=
  ∃ order : List ι, order.Nodup ∧ (∀ c, c ∈ order ↔ s.phase c = .done) ∧
    s.shared = order.foldl (fun inv c => (clients c).apply inv) inv

/-- **The tasks alone never lose an update.** -/
theorem tasks_serial (htasks : ∀ c, Tasks clients c) {inv : Inventory} {es : List (Event ι)}
    {s : State ι Inventory} (h : Run (ClientStep clients) (.initial inv) es s) :
    UpdatesSerial clients inv s := by
  refine Run.serial (h.mono fun s e s' hst => ⟨hst, ?_⟩)
  cases e with
  | save c =>
    intro _ _ _ c' _ _
    exact ⟨htasks c, htasks c'⟩
  | _ => trivial

/-- **No update is lost** in runs in which no script overlaps a save. -/
theorem inventory_updates_serial {inv : Inventory} {es : List (Event ι)} {s : State ι Inventory}
    (h : Run (fun s e s' => ClientStep clients s e s' ∧ SavesApart clients s e) (.initial inv) es s) :
    UpdatesSerial clients inv s ∧ ((∀ c, s.phase c = .done) →
      ∃ order : List ι, order.Nodup ∧ (∀ c, c ∈ order) ∧
        s.shared = order.foldl (fun inv c => (clients c).apply inv) inv) := by
  have hserial : UpdatesSerial clients inv s := Run.serial h
  refine ⟨hserial, fun hall => ?_⟩
  obtain ⟨order, hnodup, hdone, hshared⟩ := hserial
  exact ⟨order, hnodup, fun c => (hdone c).2 (hall c), hshared⟩

end clients

/-! ## A task and a script -/

/-- A host with one disk and no containers. -/
def diskInventory : Inventory :=
  Dict.empty.set HOST_GROUP_NAME ⟨some (Dict.empty.set "host0"
    (Dict.empty.set "disks" (.disks (Dict.empty.set "ssd_0" ⟨"/ssd", none, none⟩)))), some .empty⟩

/-- A task that adds a container, and the script that measured the disk. -/
def taskAndScript : Bool → InventoryUpdate
  | true => .addContainersToHosts (Dict.empty.set "host0" 1)
  | false => .updateHostDisksBw "host0" "ssd_0" 500 100

/-- The script runs after the task. -/
theorem inventory_updates_serial_apart : ∃ es s,
    Run (ClientStep taskAndScript) (.initial diskInventory) es s ∧ (∀ c, s.phase c = .done) ∧
    ∃ order : List Bool, order.Nodup ∧ (∀ c, c ∈ order) ∧
      s.shared = order.foldl (fun inv c => (taskAndScript c).apply inv) diskInventory := by
  let clients := taskAndScript
  let step := fun s e s' => ClientStep clients s e s' ∧ SavesApart clients s e
  obtain ⟨s, hrun, hdone⟩ : ∃ s, Run step (.initial diskInventory)
      [.acquire true, .load true, .save true, .release true, .load false, .save false] s ∧
      ∀ c, s.phase c = .done := by
    have h₀ : Run step (.initial diskInventory) [] (.initial diskInventory) := .nil
    have h₁ := h₀.snoc ⟨Step.acquire (c := true) (by rfl) rfl rfl, trivial⟩
    have h₂ := h₁.snoc ⟨Step.load (c := true) rfl fun _ => rfl, trivial⟩
    have h₃ := h₂.snoc ⟨Step.save (c := true) rfl, by
      rintro - - - c' hne ⟨y, hy⟩
      obtain rfl : c' = false := by simpa using hne
      cases hy⟩
    have h₄ := h₃.snoc ⟨Step.release (c := true) rfl rfl, trivial⟩
    have h₅ := h₄.snoc ⟨Step.load (c := false) rfl (by simp [Tasks, clients, taskAndScript,
      InventoryUpdate.locks]), trivial⟩
    have h₆ := h₅.snoc ⟨Step.save (c := false) rfl, by
      rintro - - - c' hne ⟨y, hy⟩
      obtain rfl : c' = true := by simpa using hne
      cases hy⟩
    exact ⟨_, h₆, fun c => by cases c <;> rfl⟩
  exact ⟨_, s, hrun.mono fun _ _ _ h => h.1, hdone, (inventory_updates_serial clients hrun).2 hdone⟩

/-- A script that loads before the task saves, and saves after it, erases the
    container of the task. -/
theorem inventory_update_lost : ¬ ∀ (ι : Type) [DecidableEq ι] (clients : ι → InventoryUpdate)
    (inv : Inventory) (es : List (Event ι)) (s : State ι Inventory),
    Run (ClientStep clients) (.initial inv) es s → (∀ c, s.phase c = .done) →
      ∃ order : List ι, order.Nodup ∧ (∀ c, c ∈ order) ∧
        s.shared = order.foldl (fun inv c => (clients c).apply inv) inv := by
  intro hall
  let clients := taskAndScript
  have h₀ : Run (ClientStep clients) (.initial diskInventory) [] (.initial diskInventory) := .nil
  have h₁ := h₀.snoc (Step.acquire (c := true) (by rfl) rfl rfl)
  have h₂ := h₁.snoc (Step.load (c := true) rfl fun _ => rfl)
  have h₃ := h₂.snoc (Step.load (c := false) rfl (by simp [Tasks, clients, taskAndScript,
    InventoryUpdate.locks]))
  have h₄ := h₃.snoc (Step.save (c := true) rfl)
  have h₅ := h₄.snoc (Step.save (c := false) rfl)
  have h₆ := h₅.snoc (Step.release (c := true) rfl rfl)
  obtain ⟨order, hnodup, hmem, hshared⟩ := hall Bool clients diskInventory _ _ h₆ fun c => by
    cases c <;> rfl
  have hcontainers := congrArg (Inventory.containersOf · "host0") hshared
  have horder : order = [true, false] ∨ order = [false, true] := by
    rcases order with _ | ⟨a, _ | ⟨b, _ | ⟨c, l⟩⟩⟩
    · simpa using hmem true
    · cases a <;> simp at hmem
    · cases a <;> cases b <;> simp at hnodup ⊢
    · cases a <;> cases b <;> cases c <;> simp at hnodup
  rcases horder with rfl | rfl
  · exact absurd hcontainers (by decide +kernel)
  · exact absurd hcontainers (by decide +kernel)

end ServerlessYarn
