/-
  ServerlessYARN model — the names of the containers of a host.

  `add_containers_to_hosts` numbers the new containers of a host after the last
  name in its list.  The names are new when no `<host>-cont<j>` in the list has a
  number above that one; the `namenode-<host>` and `datanode-<host>` of the HDFS
  start can be last with a lower number, or with none.

  * `added_fresh_iff`: exactly then the names added to a host are new;
  * `container_names_unique`: in runs of the inventory updates that add containers
    only to such lists, the lists stay duplicate-free and every added name is new;
  * `numbered_names_unique`: this is the case in every run without an HDFS start;
  * `container_name_reused`: after an HDFS start, a name is given out twice.
-/
import ServerlessYarn.InventoryUpdates
import ServerlessYarn.Lib.Run
import Mathlib.Data.List.Nodup
import Mathlib.Data.List.TakeWhile

namespace ServerlessYarn

open Inventory

/-! ## Numbered names -/

/-- `<host>-cont<i>`. -/
def containerName (host_name : String) (i : ℕ) : String :=
  host_name ++ HOST_CONTAINER_SEPARATOR ++ ("cont" ++ toString i)

theorem containerName_injective (host_name : String) :
    Function.Injective (containerName host_name) := by
  intro i j h
  unfold containerName at h
  rw [String.append_right_inj, String.append_right_inj] at h
  have hdigits : Nat.toDigits 10 i = Nat.toDigits 10 j := String.ofList_injective h
  rw [← Nat.ofDigitChars_ten_toDigits (n := i), hdigits, Nat.ofDigitChars_ten_toDigits]

theorem toList_containerName (host_name : String) (i : ℕ) : (containerName host_name i).toList =
    host_name.toList ++ '-' :: ("cont".toList ++ Nat.toDigits 10 i) := by
  have hsep : HOST_CONTAINER_SEPARATOR.toList = ['-'] := rfl
  have hdigits : (toString i).toList = Nat.toDigits 10 i := Nat.toList_repr
  unfold containerName
  rw [String.toList_append, String.toList_append, String.toList_append, hsep, hdigits]
  simp

theorem not_isLetterIgnoreCase_of_isDigit {c : Char} (h : c.isDigit) : ¬ isLetterIgnoreCase c := by
  unfold isLetterIgnoreCase
  simp only [Bool.or_eq_true, decide_eq_true_eq, List.mem_cons, List.not_mem_nil, or_false]
  rintro (halpha | rfl | rfl | rfl | rfl)
  · have hc := Char.isDigit_iff_toNat.1 h
    have hcase : (65 ≤ c.val ∧ c.val ≤ 90) ∨ (97 ≤ c.val ∧ c.val ≤ 122) := by
      simpa using
        show (decide (c.val ≥ 65 ∧ c.val ≤ 90) || (c.val ≥ 97 && c.val ≤ 122)) = true from halpha
    rw [UInt32.le_iff_toNat_le, UInt32.le_iff_toNat_le, UInt32.le_iff_toNat_le,
      UInt32.le_iff_toNat_le] at hcase
    have htoNat : c.val.toNat = c.toNat := rfl
    change 48 ≤ c.toNat ∧ c.toNat ≤ 57 at hc
    change (65 ≤ c.val.toNat ∧ c.val.toNat ≤ 90) ∨ (97 ≤ c.val.toNat ∧ c.val.toNat ≤ 122) at hcase
    omega
  all_goals exact absurd h (by decide)

/-- The index of a numbered name can be read back. -/
theorem matchIndex_lastSuffix (host_name : String) (i : ℕ) :
    matchIndex (lastSuffix (containerName host_name i)) = some i := by
  have hdigit : ∀ c ∈ Nat.toDigits 10 i, c.isDigit := fun c hc =>
    Nat.isDigit_of_mem_toDigits (by decide) (by decide) hc
  have hsuffix : lastSuffix (containerName host_name i) = "cont".toList ++ Nat.toDigits 10 i := by
    have hsep : '-' ∉ "cont".toList ++ Nat.toDigits 10 i := by
      rw [List.mem_append, not_or]
      exact ⟨by decide, fun h => absurd (hdigit _ h) (by decide)⟩
    unfold lastSuffix
    rw [toList_containerName, List.splitOn_append_cons_self, List.splitOn_eq_singleton hsep]
    simp
  have hletters : ("cont".toList ++ Nat.toDigits 10 i).takeWhile isLetterIgnoreCase = "cont".toList ∧
      ("cont".toList ++ Nat.toDigits 10 i).dropWhile isLetterIgnoreCase = Nat.toDigits 10 i := by
    rcases hd : Nat.toDigits 10 i with _ | ⟨d, ds⟩
    · exact absurd hd Nat.toDigits_ne_nil
    · have hnot : isLetterIgnoreCase d = false := by
        have := not_isLetterIgnoreCase_of_isDigit (hdigit d (by rw [hd]; exact List.mem_cons_self))
        simpa using this
      have hcont : ∀ c ∈ "cont".toList, isLetterIgnoreCase c := List.all_eq_true.1 (by decide +kernel)
      rw [List.takeWhile_append_of_pos hcont, List.dropWhile_append_of_pos hcont]
      simp [hnot]
  have hall : (Nat.toDigits 10 i).takeWhile Char.isDigit = Nat.toDigits 10 i :=
    List.takeWhile_eq_self_iff.2 hdigit
  unfold matchIndex
  simp only [hsuffix, hletters.1, hletters.2, hall, Nat.ofDigitChars_ten_toDigits]
  simp

theorem mem_createContainerList {host_name name : String} {number : ℤ} {first : ℕ} :
    name ∈ createContainerList host_name number first ↔
      ∃ i, first ≤ i ∧ i < first + number.toNat ∧ name = containerName host_name i := by
  unfold createContainerList
  simp only [List.mem_map, List.mem_range'_1, containerName, and_assoc, eq_comm]

theorem nodup_createContainerList (host_name : String) (number : ℤ) (first : ℕ) :
    (createContainerList host_name number first).Nodup :=
  List.Nodup.map (containerName_injective host_name) List.nodup_range'

/-- No `<host>-cont<j>` in the list has a number above that of the last name. -/
def LastHighest (host_name : String) (containers : List String) : Prop :=
  ∀ j, containerName host_name j ∈ containers → ∃ last i, containers.getLast? = some last ∧
    matchIndex (lastSuffix last) = some i ∧ j ≤ i

theorem lastHighest_iff {host_name : String} {containers : List String} :
    LastHighest host_name containers ↔
      ∀ j, containerName host_name j ∈ containers → j < nextIndex containers := by
  refine forall_congr' fun j => imp_congr_right fun _ => ?_
  unfold nextIndex
  rcases containers.getLast? with _ | last
  · simp
  · rcases hm : matchIndex (lastSuffix last) with _ | i
    · simp [hm]
    · simp only [Option.bind_some, hm]
      constructor
      · rintro ⟨last', i', hlast, hi', hle⟩
        cases hlast
        rw [hm] at hi'
        cases hi'
        omega
      · intro hlt
        exact ⟨last, i, rfl, hm, by omega⟩

/-- **The new names are new exactly if** the last name is the highest, whatever
    number of containers is added. -/
theorem created_fresh_iff {host_name : String} {containers : List String} :
    (∀ number : ℤ, ∀ name ∈ createContainerList host_name number (nextIndex containers),
      name ∉ containers) ↔ LastHighest host_name containers := by
  rw [lastHighest_iff]
  constructor
  · intro h j hj
    by_contra hle
    refine h (j + 1 : ℕ) _ (mem_createContainerList.2 ⟨j, by omega, by omega, rfl⟩) hj
  · intro h number name hname hmem
    obtain ⟨i, hi, -, rfl⟩ := mem_createContainerList.1 hname
    have hlt := h i hmem
    omega

/-- The list holds names `<host>-cont<j>` only, in ascending order. -/
def Numbered (host_name : String) (containers : List String) : Prop :=
  ∃ is : List ℕ, is.Pairwise (· < ·) ∧ containers = is.map (containerName host_name)

theorem nextIndex_concat (containers : List String) (host_name : String) (i : ℕ) :
    nextIndex (containers ++ [containerName host_name i]) = i + 1 := by
  unfold nextIndex
  rw [List.getLast?_concat, Option.bind_some, matchIndex_lastSuffix]

/-- In a numbered list, the next index is above all others. -/
theorem lt_nextIndex_of_pairwise (host_name : String) {is : List ℕ} (his : is.Pairwise (· < ·)) :
    ∀ j ∈ is, j < nextIndex (is.map (containerName host_name)) := by
  intro j hj
  rcases List.eq_nil_or_concat' is with rfl | ⟨is', i, rfl⟩
  · cases hj
  rw [List.map_append, List.map_singleton, nextIndex_concat]
  rw [List.pairwise_append] at his
  rcases List.mem_append.1 hj with hj | hj
  · have hlt := his.2.2 j hj i (List.mem_singleton_self i)
    omega
  · rw [List.mem_singleton.1 hj]
    exact Nat.lt_succ_self i

theorem Numbered.lastHighest {host_name : String} {containers : List String}
    (h : Numbered host_name containers) : LastHighest host_name containers := by
  obtain ⟨is, his, rfl⟩ := h
  refine lastHighest_iff.2 fun j hj => ?_
  obtain ⟨i, hi, heq⟩ := List.mem_map.1 hj
  rw [← containerName_injective host_name heq]
  exact lt_nextIndex_of_pairwise host_name his i hi

/-- New containers continue the numbering. -/
theorem Numbered.append {host_name : String} {containers : List String}
    (h : Numbered host_name containers) (number : ℤ) :
    Numbered host_name (containers ++ createContainerList host_name number (nextIndex containers)) := by
  obtain ⟨is, his, rfl⟩ := h
  refine ⟨is ++ List.range' (nextIndex (is.map (containerName host_name))) number.toNat, ?_, ?_⟩
  · refine List.pairwise_append.2 ⟨his, List.pairwise_lt_range' _, fun j hj i hi => ?_⟩
    have hlt := lt_nextIndex_of_pairwise host_name his j hj
    rw [List.mem_range'_1] at hi
    omega
  · rw [List.map_append]
    rfl

theorem Numbered.erase {host_name : String} {containers : List String}
    (h : Numbered host_name containers) (name : String) :
    Numbered host_name (containers.erase name) := by
  obtain ⟨is, his, rfl⟩ := h
  obtain ⟨is', hsub, heq⟩ := List.sublist_map_iff.1
    (List.erase_sublist (a := name) (l := is.map (containerName host_name)))
  exact ⟨is', his.sublist hsub, heq⟩

/-! ## Adding containers to hosts -/

/-- What one round of the loop of `add_containers_to_hosts` does. -/
theorem addContainersToHost_spec {inv inv' : Inventory} {host : String} {number : ℤ}
    {added : List String} (hne : host ≠ "")
    (h : addContainersToHost inv host number = .ok (inv', added)) :
    added = createContainerList host number (nextIndex (containersOf inv host)) ∧
      host ∈ inv.getNodeHostnames ∧
      (∀ other, other ∈ inv'.getNodeHostnames ↔ other ∈ inv.getNodeHostnames) ∧
      containersOf inv' host = containersOf inv host ++ added ∧
      ∀ other ≠ host, containersOf inv' other = containersOf inv other := by
  unfold addContainersToHost at h
  simp only [bind_eq_ok, pure_eq_ok, Prod.mk.injEq] at h
  obtain ⟨containers, hcontainers, inv₁, hadd, rfl, rfl⟩ := h
  have hlist : containersOf inv host = containers := by
    unfold containersOf
    rw [hcontainers]
    rfl
  exact ⟨by rw [hlist], addContainers_spec hne hadd⟩

/-- A host of the inventory whose list can be read gets its containers. -/
theorem exists_addContainersToHost {inv : Inventory} {host : String} {containers : List String}
    (hne : host ≠ "") (hmem : host ∈ inv.getNodeHostnames)
    (hread : inv.getContainers host = .ok containers) (number : ℤ) :
    ∃ inv', addContainersToHost inv host number =
      .ok (inv', createContainerList host number (nextIndex containers)) := by
  obtain ⟨inv', hwrite⟩ := exists_setHostVar hne hmem "containers"
    (.containers (containers ++ createContainerList host number (nextIndex containers)))
  refine ⟨inv', ?_⟩
  unfold addContainersToHost addContainers
  simp only [hread, bind, Except.bind, hwrite]
  rfl

/-- **The names added to a host are new exactly if** the last name in its list
    is the highest. -/
theorem added_fresh_iff {inv : Inventory} {host : String} (hne : host ≠ "")
    (hmem : host ∈ inv.getNodeHostnames) :
    (∀ number inv' added, addContainersToHost inv host number = .ok (inv', added) →
      ∀ name ∈ added, name ∉ containersOf inv host) ↔ LastHighest host (containersOf inv host) := by
  rw [← created_fresh_iff]
  constructor
  · intro h number
    rcases hread : inv.getContainers host with err | containers
    · have hempty : containersOf inv host = [] := by unfold containersOf; rw [hread]; rfl
      simp [hempty]
    · have hlist : containersOf inv host = containers := by unfold containersOf; rw [hread]; rfl
      obtain ⟨inv', hadd⟩ := exists_addContainersToHost hne hmem hread number
      rw [hlist] at h ⊢
      exact h number inv' _ hadd
  · intro h number inv' added hadd
    rw [(addContainersToHost_spec hne hadd).1]
    exact h number

/-- The hosts of the loop do not disturb each other: every host gets the names
    numbered after its list before the loop. -/
theorem foldlM_addContainersToHost_spec : ∀ (es : List (String × ℤ)) {inv inv' : Inventory}
    {acc added : Dict String (List String)}, (es.map Prod.fst).Nodup → (∀ e ∈ es, e.1 ≠ "") →
    es.foldlM (fun (inv, added_containers) h => do
      let (inv, added) ← addContainersToHost inv h.1 h.2
      return (inv, added_containers.set h.1 added)) (inv, acc) = .ok (inv', added) →
    (∀ other, other ∈ inv'.getNodeHostnames ↔ other ∈ inv.getNodeHostnames) ∧
      (∀ host number, (host, number) ∈ es → host ∈ inv.getNodeHostnames ∧ ∃ names,
        names = createContainerList host number (nextIndex (containersOf inv host)) ∧
        added.get? host = some names ∧ containersOf inv' host = containersOf inv host ++ names) ∧
      ∀ other, other ∉ es.map Prod.fst →
        added.get? other = acc.get? other ∧ containersOf inv' other = containersOf inv other
  | [], inv, inv', acc, added, _, _, h => by
    cases h
    exact ⟨fun _ => Iff.rfl, by simp, fun _ _ => ⟨rfl, rfl⟩⟩
  | e :: es, inv, inv', acc, added, hnodup, hne, h => by
    rw [List.map_cons, List.nodup_cons] at hnodup
    simp only [List.foldlM_cons, bind_eq_ok, pure_eq_ok] at h
    obtain ⟨_, ⟨⟨inv₁, names⟩, hadd, rfl⟩, h⟩ := h
    obtain ⟨hnames, hmem₀, hhosts₁, hself, hothers⟩ := addContainersToHost_spec (hne e List.mem_cons_self) hadd
    obtain ⟨hhosts, hin, hout⟩ := foldlM_addContainersToHost_spec es hnodup.2
      (fun e' he' => hne e' (List.mem_cons_of_mem _ he')) h
    refine ⟨fun other => (hhosts other).trans (hhosts₁ other), ?_, ?_⟩
    · intro host number hmem
      rcases List.mem_cons.1 hmem with rfl | hmem
      · obtain ⟨hget, hlist⟩ := hout host hnodup.1
        exact ⟨hmem₀, names, hnames, by rw [hget, Dict.get?_set_self], by rw [hlist, hself]⟩
      · have hoe : host ≠ e.1 := by
          rintro rfl
          exact hnodup.1 (List.mem_map.2 ⟨_, hmem, rfl⟩)
        obtain ⟨hmem₁, names', hnames', hget, hlist⟩ := hin host number hmem
        rw [hothers host hoe] at hnames' hlist
        exact ⟨(hhosts₁ host).1 hmem₁, names', hnames', hget, hlist⟩
    · intro other hother
      rw [List.map_cons, List.mem_cons, not_or] at hother
      obtain ⟨hget, hlist⟩ := hout other hother.2
      rw [Dict.get?_set_of_ne _ _ hother.1] at hget
      exact ⟨hget, hlist.trans (hothers other hother.1)⟩

/-- What `add_containers_to_hosts` does: every host of the argument gets the names
    numbered after its list, the other lists are kept. -/
theorem addContainersToHosts_spec {new_containers : Dict String ℤ} {inv inv' : Inventory}
    {added : Dict String (List String)} (hne : ∀ host ∈ new_containers.keys, host ≠ "")
    (h : addContainersToHosts new_containers inv = .ok (inv', added)) :
    (∀ other, other ∈ inv'.getNodeHostnames ↔ other ∈ inv.getNodeHostnames) ∧
      ∀ host, (new_containers.get? host = none ∧ added.get? host = none ∧
          containersOf inv' host = containersOf inv host) ∨
        ∃ number names, new_containers.get? host = some number ∧ host ∈ inv.getNodeHostnames ∧
          names = createContainerList host number (nextIndex (containersOf inv host)) ∧
          added.get? host = some names ∧ containersOf inv' host = containersOf inv host ++ names := by
  obtain ⟨hhosts, hin, hout⟩ := foldlM_addContainersToHost_spec new_containers.entries
    new_containers.distinct (fun e he => hne e.1 (List.mem_map_of_mem (f := Prod.fst) he)) h
  refine ⟨hhosts, fun host => ?_⟩
  rcases hget : new_containers.get? host with _ | number
  · obtain ⟨hadded, hlist⟩ := hout host (Dict.get?_eq_none_iff.1 hget)
    exact .inl ⟨rfl, hadded, hlist⟩
  · obtain ⟨hmem, names, hnames, hadded, hlist⟩ := hin host number (Dict.get?_eq_some_iff.1 hget)
    exact .inr ⟨number, names, rfl, hmem, hnames, hadded, hlist⟩

/-! ## A property of every list -/

/-- The container list of every host of the inventory has a property. -/
def AllLists (P : String → List String → Prop) (inv : Inventory) : Prop :=
  ∀ host ∈ inv.getNodeHostnames, P host (containersOf inv host)

/-- The arguments of an update: hosts have a name, and the HDFS start adds
    containers that are not there yet. -/
def Admissible (inv : Inventory) : InventoryUpdate → Prop
  | .addHost _ host => host.hostname ≠ ""
  | .addContainersToHosts new_containers => ∀ host ∈ new_containers.keys, host ≠ ""
  | .addContainersToInventory containers => containers.Nodup ∧ ∀ c ∈ containers, c.host ≠ "" ∧
      c.container_name ∉ containersOf inv c.host
  | .addDisksToHosts _ hosts _ => ∀ host ∈ hosts, host ≠ ""
  | .removeHost _ => True
  | .removeContainerFromHost _ hostname => hostname ≠ ""
  | .updateHostDisksBw hostname _ _ _ => hostname ≠ ""

/-- What a property needs to be kept by every update that adds no containers to
    a host of the inventory. -/
structure KeptByRemoval (P : String → List String → Prop) : Prop where
  nil (host : String) : P host []
  created (host : String) (number : ℤ) : P host (createContainerList host number 0)
  erase {host : String} {containers : List String} (name : String) :
    P host containers → P host (containers.erase name)

namespace AllLists
variable {P : String → List String → Prop} {inv inv' : Inventory}

theorem of_same (hall : AllLists P inv)
    (hhosts : ∀ other, other ∈ inv'.getNodeHostnames ↔ other ∈ inv.getNodeHostnames)
    (hlists : ∀ other, containersOf inv' other = containersOf inv other) : AllLists P inv' := by
  intro host hmem
  rw [hlists]
  exact hall host ((hhosts host).1 hmem)

/-- One list is changed. -/
theorem of_one {hostname : String} (hall : AllLists P inv)
    (hhosts : ∀ other, other ∈ inv'.getNodeHostnames ↔ other ∈ inv.getNodeHostnames)
    (hself : P hostname (containersOf inv hostname) → P hostname (containersOf inv' hostname))
    (hothers : ∀ other ≠ hostname, containersOf inv' other = containersOf inv other) :
    AllLists P inv' := by
  intro host hmem
  have hhost := hall host ((hhosts host).1 hmem)
  by_cases ho : host = hostname
  · subst ho
    exact hself hhost
  · rw [hothers host ho]
    exact hhost

theorem addHost {expandvars : String → String} {host : NewHost} (hP : KeptByRemoval P)
    (hall : AllLists P inv) (hne : host.hostname ≠ "")
    (h : ServerlessYarn.addHost expandvars host inv = .ok inv') : AllLists P inv' := by
  obtain ⟨resources, hadd⟩ : ∃ resources, inv.addNode host.hostname resources
      (createContainerList host.hostname host.new_containers 0) = .ok inv' := by
    unfold ServerlessYarn.addHost at h
    split at h <;>
      (rw [bind_eq_ok] at h; obtain ⟨disks, -, h⟩ := h; exact ⟨_, h⟩)
  obtain ⟨hothers, hself⟩ := addNode_spec hne hadd
  intro other hmem
  by_cases ho : other = host.hostname
  · rw [ho, hself]
    exact hP.created _ _
  · obtain ⟨hmem₀, hlist⟩ := hothers other ho hmem
    rw [hlist]
    exact hall other hmem₀

theorem addContainersToHosts {new_containers : Dict String ℤ} {added : Dict String (List String)}
    (hall : AllLists P inv) (hne : ∀ host ∈ new_containers.keys, host ≠ "")
    (hP : ∀ host ∈ inv.getNodeHostnames, ∀ number, new_containers.get? host = some number →
      P host (containersOf inv host) → P host (containersOf inv host ++
        createContainerList host number (nextIndex (containersOf inv host))))
    (h : ServerlessYarn.addContainersToHosts new_containers inv = .ok (inv', added)) :
    AllLists P inv' := by
  obtain ⟨hhosts, hlists⟩ := addContainersToHosts_spec hne h
  intro host hmem
  have hhost := hall host ((hhosts host).1 hmem)
  rcases hlists host with ⟨-, -, hlist⟩ | ⟨number, names, hget, hmem₀, rfl, -, hlist⟩
  · rw [hlist]
    exact hhost
  · rw [hlist]
    exact hP host hmem₀ number hget hhost

theorem removeContainer {hostname container : String} (hP : KeptByRemoval P)
    (hall : AllLists P inv) (hne : hostname ≠ "")
    (h : inv.removeContainer hostname container = .ok inv') : AllLists P inv' := by
  obtain ⟨hhosts, hself, hothers⟩ := removeContainer_spec hne h
  refine hall.of_one hhosts (fun hhost => ?_) hothers
  rw [hself]
  exact hP.erase container hhost

theorem addDisksToHosts (decimals : Decimals) (new_disks : List String) : ∀ (hosts : List String) {inv inv' : Inventory}
    {acc added : Dict String (Dict String DiskInfo)}, AllLists P inv → (∀ host ∈ hosts, host ≠ "") →
    hosts.foldlM (fun (inv, added_disks) host => do
      let (inv, added) ← addDisksToHost decimals inv host new_disks
      return (inv, added_disks.set host added)) (inv, acc) = .ok (inv', added) → AllLists P inv'
  | [], inv, inv', acc, added, hall, _, h => by
    cases h
    exact hall
  | host :: hosts, inv, inv', acc, added, hall, hne, h => by
    simp only [List.foldlM_cons, bind_eq_ok, pure_eq_ok, addDisksToHost, addDisks] at h
    obtain ⟨_, ⟨_, ⟨disks, -, disk_id, -, inv₁, ⟨current, -, hwrite⟩, rfl⟩, rfl⟩, h⟩ := h
    have hhost := hne host List.mem_cons_self
    exact addDisksToHosts decimals new_disks hosts
      (hall.of_same (setHostVar_hostnames hhost hwrite).2
        (containersOf_setHostVar_key hhost (by decide) hwrite))
      (fun host' hmem => hne host' (List.mem_cons_of_mem _ hmem)) h

/-- Popping `hosts` or `vars` from the group leaves no host, or no default. -/
theorem removeNode (hP : KeptByRemoval P) (hall : AllLists P inv) (host_name : String) :
    AllLists P (inv.removeNode host_name) := by
  intro host hmem
  unfold Inventory.removeNode Inventory.removeHost at hmem ⊢
  rcases hg : inv.get? HOST_GROUP_NAME with _ | g
  · simp [getNodeHostnames, hg] at hmem
  unfold getNodeHostnames at hmem
  rw [containersOf_eq]
  rw [Dict.get?_modify_self, hg, Option.map_some] at hmem ⊢
  simp only [Option.bind_some] at hmem
  simp only [Option.map_some, Option.getD_some]
  have hlist : ∀ hosts, g.hosts = some hosts → host ∈ hosts.keys →
      P host (listOf (hostVar g "containers" host)) := by
    intro hosts hhosts hin
    have h := hall host ((mem_getNodeHostnames hg hhosts).2 hin)
    rwa [containersOf_eq, hg] at h
  split_ifs at hmem ⊢ with hpop hpop'
  · simp at hmem
  · -- without the defaults only the own variable is left
    rcases hhosts : g.hosts with _ | hosts
    · simp [hhosts] at hmem
    rw [hhosts] at hmem
    have h := hlist hosts hhosts hmem
    by_cases hoe : host = ""
    · simp only [hostVar, if_pos hoe]
      exact hP.nil host
    · rw [hostVar_eq hoe hhosts] at h
      rw [hostVar_eq hoe rfl]
      generalize (hosts.get? host).bind (·.get? "containers") = own at h
      rcases own with _ | _ | _
      · exact hP.nil host
      · exact hP.nil host
      all_goals exact h
  · rcases hhosts : g.hosts with _ | hosts
    · simp [hhosts] at hmem
    · rw [hhosts] at hmem
      exact hlist hosts hhosts hmem

/-- What every update keeps, given what the two that add containers to existing
    hosts do. -/
theorem apply {u : InventoryUpdate} (hP : KeptByRemoval P) (hall : AllLists P inv)
    (hu : Admissible inv u)
    (hadd : ∀ new_containers, u = .addContainersToHosts new_containers →
      ∀ host ∈ inv.getNodeHostnames, ∀ number, new_containers.get? host = some number →
        P host (containersOf inv host) → P host (containersOf inv host ++
          createContainerList host number (nextIndex (containersOf inv host))))
    (hnamed : ∀ containers inv', u = .addContainersToInventory containers →
      addContainersToInventory containers inv = .ok inv' → AllLists P inv') :
    AllLists P (u.apply inv) := by
  unfold InventoryUpdate.apply
  rcases hrun : u.run inv with err | inv'
  · exact hall
  · change AllLists P inv'
    cases u with
    | addHost expandvars host => exact hall.addHost hP hu hrun
    | addContainersToHosts new_containers =>
      rcases h : ServerlessYarn.addContainersToHosts new_containers inv with err | ⟨inv₁, added⟩
      · simp [InventoryUpdate.run, h] at hrun
      · simp only [InventoryUpdate.run, h] at hrun
        cases hrun
        exact hall.addContainersToHosts hu (hadd new_containers rfl) h
    | addContainersToInventory containers => exact hnamed containers inv' rfl hrun
    | addDisksToHosts decimals hosts new_disks =>
      rcases h : ServerlessYarn.addDisksToHosts decimals hosts new_disks inv with err | ⟨inv₁, added⟩
      · simp [InventoryUpdate.run, h] at hrun
      · simp only [InventoryUpdate.run, h] at hrun
        cases hrun
        exact addDisksToHosts decimals new_disks hosts hall hu h
    | removeHost host_name =>
      cases hrun
      exact hall.removeNode hP host_name
    | removeContainerFromHost container hostname => exact hall.removeContainer hP hu hrun
    | updateHostDisksBw hostname disk read write =>
      simp only [InventoryUpdate.run, updateInventoryDisk, updateDisk, bind_eq_ok] at hrun
      obtain ⟨_, -, _, -, hwrite⟩ := hrun
      exact hall.of_same (setHostVar_hostnames hu hwrite).2
        (containersOf_setHostVar_key hu (by decide) hwrite)

end AllLists

/-! ## Duplicate-free lists -/

/-- The container list of every host of the inventory is duplicate-free. -/
def DuplicateFree (inv : Inventory) : Prop := AllLists (fun _ containers => containers.Nodup) inv

/-- The names returned by `add_containers_to_hosts` were not in the lists. -/
def ReturnsNew (inv : Inventory) (added : Dict String (List String)) : Prop :=
  ∀ host names, added.get? host = some names → ∀ name ∈ names, name ∉ containersOf inv host

/-- `add_containers_to_hosts` adds containers only to lists whose last name is the
    highest. -/
def AddsAfterLast (inv : Inventory) : InventoryUpdate → Prop
  | .addContainersToHosts new_containers => ∀ host ∈ inv.getNodeHostnames, ∀ number,
      new_containers.get? host = some number → 0 < number → LastHighest host (containersOf inv host)
  | _ => True

theorem keptByRemoval_nodup : KeptByRemoval fun _ containers => containers.Nodup where
  nil _ := List.nodup_nil
  created host number := nodup_createContainerList host number 0
  erase name h := h.erase name

/-- No name that is added is in the list of its host. -/
theorem AddsAfterLast.notMem {inv : Inventory} {new_containers : Dict String ℤ} {host name : String}
    {number : ℤ} (hlast : AddsAfterLast inv (.addContainersToHosts new_containers))
    (hmem : host ∈ inv.getNodeHostnames) (hget : new_containers.get? host = some number)
    (hname : name ∈ createContainerList host number (nextIndex (containersOf inv host))) :
    name ∉ containersOf inv host := by
  have hpos : 0 < number := by
    obtain ⟨i, hi, hlt, -⟩ := mem_createContainerList.1 hname
    omega
  exact created_fresh_iff.2 (hlast host hmem number hget hpos) number name hname

/-- The names that are returned are new if they are numbered after the highest. -/
theorem AddsAfterLast.returnsNew {new_containers : Dict String ℤ} {inv inv' : Inventory}
    {added : Dict String (List String)} (hlast : AddsAfterLast inv (.addContainersToHosts new_containers))
    (hne : ∀ host ∈ new_containers.keys, host ≠ "")
    (h : addContainersToHosts new_containers inv = .ok (inv', added)) : ReturnsNew inv added := by
  intro host names hnames name hname
  rcases (addContainersToHosts_spec hne h).2 host with ⟨-, hnone, -⟩ |
    ⟨number, names', hget, hmem, rfl, hsome, -⟩
  · rw [hnone] at hnames
    cases hnames
  · rw [hsome, Option.some.injEq] at hnames
    subst hnames
    exact hlast.notMem hmem hget hname

theorem DuplicateFree.addContainer {inv inv' : Inventory} {c : NamedContainer}
    (hdup : DuplicateFree inv) (hne : c.host ≠ "") (hnew : c.container_name ∉ containersOf inv c.host)
    (h : inv.addContainer c.host c.container_name = .ok inv') : DuplicateFree inv' := by
  obtain ⟨-, hhosts, hself, hothers⟩ := addContainers_spec hne h
  refine AllLists.of_one hdup hhosts (fun hnodup => ?_) hothers
  rw [hself]
  exact List.Nodup.append hnodup (List.nodup_singleton _) (by simpa using hnew)

theorem DuplicateFree.addContainersToInventory : ∀ (containers : List NamedContainer)
    {inv inv' : Inventory}, DuplicateFree inv → Admissible inv (.addContainersToInventory containers) →
    ServerlessYarn.addContainersToInventory containers inv = .ok inv' → DuplicateFree inv'
  | [], inv, inv', hdup, _, h => by
    cases h
    exact hdup
  | c :: containers, inv, inv', hdup, ⟨hnodup, hnew⟩, h => by
    unfold ServerlessYarn.addContainersToInventory at h
    rw [List.foldlM_cons, bind_eq_ok] at h
    obtain ⟨inv₁, hadd, h⟩ := h
    obtain ⟨hne, hc⟩ := hnew c List.mem_cons_self
    rw [List.nodup_cons] at hnodup
    refine DuplicateFree.addContainersToInventory containers (hdup.addContainer hne hc hadd)
      ⟨hnodup.2, fun c' hc' => ?_⟩ h
    obtain ⟨hne', hnew'⟩ := hnew c' (List.mem_cons_of_mem _ hc')
    obtain ⟨-, -, hself, hothers⟩ := addContainers_spec hne hadd
    refine ⟨hne', ?_⟩
    by_cases ho : c'.host = c.host
    · -- the containers are distinct, so on one host their names are
      have hname : c'.container_name ≠ c.container_name := by
        intro hname
        have hcc : c' = c := by
          rcases c with ⟨name, host⟩
          rcases c' with ⟨name', host'⟩
          cases ho
          cases hname
          rfl
        exact hnodup.1 (hcc ▸ hc')
      rw [ho] at hnew' ⊢
      rw [hself]
      simp [hnew', hname]
    · rw [hothers _ ho]
      exact hnew'

/-- **One update keeps the lists duplicate-free.** -/
theorem DuplicateFree.apply {inv : Inventory} {u : InventoryUpdate} (hdup : DuplicateFree inv)
    (hu : Admissible inv u) (hlast : AddsAfterLast inv u) : DuplicateFree (u.apply inv) := by
  refine AllLists.apply keptByRemoval_nodup hdup hu ?_ ?_
  · rintro new_containers rfl host hmem number hget hnodup
    refine List.Nodup.append hnodup (nodup_createContainerList _ _ _) ?_
    intro name hold hname
    exact hlast.notMem hmem hget hname hold
  · rintro containers inv' rfl h
    exact DuplicateFree.addContainersToInventory containers hdup hu h

/-- **Container names are not reused** in runs of the updates that add containers
    only to lists whose last name is the highest: the lists stay duplicate-free,
    and such an addition returns new names in every state that is reached. -/
theorem container_names_unique {inv₀ inv : Inventory} {us : List InventoryUpdate}
    (hdup : DuplicateFree inv₀)
    (h : Run (fun inv u inv' => Admissible inv u ∧ AddsAfterLast inv u ∧ inv' = u.apply inv)
      inv₀ us inv) :
    DuplicateFree inv ∧ ∀ new_containers, Admissible inv (.addContainersToHosts new_containers) →
      AddsAfterLast inv (.addContainersToHosts new_containers) → ∀ inv' added,
        addContainersToHosts new_containers inv = .ok (inv', added) → ReturnsNew inv added := by
  constructor
  · refine h.inv (I := DuplicateFree) ?_ hdup
    rintro inv u inv' hinv ⟨hu, hlast, rfl⟩
    exact hinv.apply hu hlast
  · intro new_containers hne hlast inv' added hadd
    exact hlast.returnsNew hne hadd

/-- A host with two containers. -/
def newHost : InventoryUpdate := .addHost id ⟨"host0", 4, 4096, none, none, 2⟩

/-- One more container on it. -/
def oneMore : Dict String ℤ := Dict.empty.set "host0" 1

/-- The containers of a new host are numbered on. -/
theorem container_names_unique_numbered : ∃ inv, DuplicateFree inv ∧
    containersOf inv "host0" = ["host0-cont0", "host0-cont1", "host0-cont2"] ∧
    ∀ inv' added, addContainersToHosts oneMore inv = .ok (inv', added) → ReturnsNew inv added := by
  let inv₁ := newHost.apply Dict.empty
  let inv₂ := (InventoryUpdate.addContainersToHosts oneMore).apply inv₁
  have hkeys : ∀ inv, Admissible inv (.addContainersToHosts oneMore) := fun _ =>
    show ∀ host ∈ oneMore.keys, host ≠ "" by decide
  have hlast : ∀ n, AddsAfterLast inv₁ (.addContainersToHosts n) ∧
      AddsAfterLast inv₂ (.addContainersToHosts n) := by
    intro n
    have hnum₁ : Numbered "host0" (containersOf inv₁ "host0") :=
      ⟨[0, 1], by decide, by decide +kernel⟩
    have hnum₂ : Numbered "host0" (containersOf inv₂ "host0") :=
      ⟨[0, 1, 2], by decide, by decide +kernel⟩
    have hhosts₁ : inv₁.getNodeHostnames = ["host0"] := by decide +kernel
    have hhosts₂ : inv₂.getNodeHostnames = ["host0"] := by decide +kernel
    constructor <;> intro host hmem number _ _
    · rw [hhosts₁, List.mem_singleton] at hmem
      subst hmem
      exact hnum₁.lastHighest
    · rw [hhosts₂, List.mem_singleton] at hmem
      subst hmem
      exact hnum₂.lastHighest
  have h₁ : Run (fun inv u inv' => Admissible inv u ∧ AddsAfterLast inv u ∧ inv' = u.apply inv)
      Dict.empty [newHost] inv₁ := .single ⟨by simp [newHost, Admissible], trivial, rfl⟩
  have h₂ := h₁.append (.single (e := .addContainersToHosts oneMore) (s := inv₁)
    ⟨hkeys inv₁, (hlast oneMore).1, rfl⟩)
  have hempty : DuplicateFree Dict.empty := fun host hmem => absurd hmem (by simp [getNodeHostnames])
  obtain ⟨hdup, hnew⟩ := container_names_unique hempty h₂
  exact ⟨inv₂, hdup, by decide +kernel, hnew oneMore (hkeys inv₂) (hlast oneMore).2⟩

/-- After an HDFS start the last name of the host has the number of the host: a
    name in use is given out again. -/
theorem container_name_reused : ∃ inv inv' added, DuplicateFree Dict.empty ∧
    Run (fun inv u inv' => Admissible inv u ∧ inv' = u.apply inv) Dict.empty
      [newHost, .addContainersToInventory [⟨"datanode-host0", "host0"⟩]] inv ∧
    addContainersToHosts oneMore inv = .ok (inv', added) ∧ ¬ ReturnsNew inv added ∧
    ¬ DuplicateFree inv' := by
  let hdfs : InventoryUpdate := .addContainersToInventory [⟨"datanode-host0", "host0"⟩]
  let inv := hdfs.apply (newHost.apply Dict.empty)
  have h₁ : Run (fun inv u inv' => Admissible inv u ∧ inv' = u.apply inv)
      Dict.empty [newHost] (newHost.apply Dict.empty) := .single ⟨by simp [newHost, Admissible], rfl⟩
  have hhdfs : Admissible (newHost.apply Dict.empty) hdfs := by
    refine ⟨List.nodup_singleton _, fun c hc => ?_⟩
    rw [List.mem_singleton] at hc
    subst hc
    exact ⟨by decide, by decide +kernel⟩
  have h₂ := h₁.append (.single (e := hdfs) ⟨hhdfs, rfl⟩)
  have hrun : (addContainersToHosts oneMore inv).toOption.map (fun r =>
      (r.2.get? "host0", containersOf r.1 "host0")) = some (some ["host0-cont1"],
        ["host0-cont0", "host0-cont1", "datanode-host0", "host0-cont1"]) := by decide +kernel
  obtain ⟨⟨inv', added⟩, hadd, hread⟩ := Option.map_eq_some_iff.1 hrun
  rw [toOption_eq_some] at hadd
  obtain ⟨hname, hlist⟩ := Prod.mk.inj hread
  refine ⟨inv, inv', added, fun host hmem => absurd hmem (by simp [getNodeHostnames]), h₂, hadd, ?_, ?_⟩
  · intro hnew
    exact hnew "host0" _ hname "host0-cont1" (List.mem_singleton_self _) (by decide +kernel)
  · intro hdup
    have hmem : "host0" ∈ inv'.getNodeHostnames := by
      have hhosts := (addContainersToHosts_spec (by decide) hadd).1 "host0"
      exact hhosts.2 (by decide +kernel)
    exact absurd (hdup "host0" hmem) (by rw [hlist]; decide)

/-! ## Runs without an HDFS start -/

theorem keptByRemoval_numbered : KeptByRemoval Numbered where
  nil _ := ⟨[], List.Pairwise.nil, rfl⟩
  created _ number := ⟨List.range' 0 number.toNat, List.pairwise_lt_range' _, rfl⟩
  erase name h := h.erase name

/-- **Without an HDFS start the lists stay numbered**, so that the condition of
    `container_names_unique` holds of every update in every state. -/
theorem numbered_names_unique {inv₀ inv : Inventory} {us : List InventoryUpdate}
    (hnum : AllLists Numbered inv₀)
    (h : Run (fun inv u inv' => Admissible inv u ∧ (∀ containers, u ≠ .addContainersToInventory containers) ∧
      inv' = u.apply inv) inv₀ us inv) :
    AllLists Numbered inv ∧ ∀ u, AddsAfterLast inv u := by
  have hinv : AllLists Numbered inv := by
    refine h.inv (I := AllLists Numbered) ?_ hnum
    rintro inv u inv' hall ⟨hu, hno, rfl⟩
    refine hall.apply keptByRemoval_numbered hu ?_ ?_
    · intro _ _ host _ number _ hlist
      exact hlist.append number
    · intro containers _ heq
      exact absurd heq (hno containers)
  refine ⟨hinv, fun u => ?_⟩
  cases u with
  | addContainersToHosts new_containers =>
    intro host hmem _ _ _
    exact (hinv host hmem).lastHighest
  | _ => trivial

end ServerlessYarn
