/-
  ServerlessYARN model — throttling the containers of hosts whose volumes are extended
  (`scripts/state_database/limit_containers_bw.py`, called by `extend_lv` of
  `ui/run_playbooks.py`).

  The caller passes the text of the list of the hosts; the script splits it at commas, so
  brackets, quotes and blanks stay with the names.  Bandwidths are exact numbers, and the
  factor 0.10 of the script, a double, is read as 1/10.

  * `get?_hostList`: what the script knows of a host it considers;
  * `limitContainersBw_ok_iff`: when it finds all bandwidths, and what it requests then;
  * `throttles_exactly_iff`: when the right hosts are considered;
  * `nobody_throttled`: for ordinary names nobody is, without an error.
-/
import ServerlessYarn.Lib.Grouping
import ServerlessYarn.Lib.Traversal
import ServerlessYarn.Texts

namespace ServerlessYarn

open Traversal

namespace VolumeThrottling

/-! ## The script -/

structure BwContainer where
  name : String
  host : String
  resources : Dict String (Dict String ℚ)
deriving DecidableEq

/-- An entry of `requested_data`. -/
inductive BwStructure where
  /-- With `resources["disks"]`, if there is one. -/
  | host (name : String) (disks : Option (Dict String (Dict String ℚ)))
  | container (c : BwContainer)
  | other (name : String)
deriving DecidableEq

/-- An entry of `host_list`. -/
structure BwHost where
  disks : Option (Dict String (Dict String ℚ))
  containers : List BwContainer

inductive BwResource where
  | disk_read | disk_write
deriving DecidableEq

namespace BwResource

def key : BwResource → String
  | disk_read => "disk_read"
  | disk_write => "disk_write"

def maxKey : BwResource → String
  | disk_read => "max_read"
  | disk_write => "max_write"

end BwResource

/-- `generate_request(container, amount, resource)`. -/
structure BwRequest where
  container : BwContainer
  amount : ℚ
  resource : BwResource
deriving DecidableEq

/-- 10% of max bw; `0.10` in the source. -/
def cap_bw : ℚ := 1 / 10

/-- The body of the first loop. -/
def selectHost (hosts : List (List Char)) (host_list : Dict String BwHost) :
    BwStructure → Dict String BwHost
  | .host name disks => if name.toList ∈ hosts then host_list.set name ⟨disks, []⟩ else host_list
  | _ => host_list

/-- The body of the second loop: a container is appended to its host, if that is listed. -/
def addContainer (host_list : Dict String BwHost) : BwStructure → Dict String BwHost
  | .container c => host_list.modify c.host fun h => { h with containers := h.containers ++ [c] }
  | _ => host_list

def selectHosts (hosts : List (List Char)) (requested_data : List BwStructure) : Dict String BwHost :=
  requested_data.foldl (selectHost hosts) .empty

def addContainers (requested_data : List BwStructure) (host_list : Dict String BwHost) :
    Dict String BwHost :=
  requested_data.foldl addContainer host_list

def hostList (hosts : List (List Char)) (requested_data : List BwStructure) : Dict String BwHost :=
  addContainers requested_data (selectHosts hosts requested_data)

/-- `max(limited, container["resources"][resource]["min"]) - …["current"]`. -/
def toEscale (limited : ℚ) (container : BwContainer) (resource : BwResource) : Py ℚ := do
  let limits ← getItem container.resources resource.key
  let min ← getItem limits "min"
  let current ← getItem limits "current"
  return max limited min - current

/-- The requests for one container. -/
def containerRequests (limited_read limited_write : ℚ) (container : BwContainer) : Py (List BwRequest) := do
  let read_to_escale ← toEscale limited_read container .disk_read
  let write_to_escale ← toEscale limited_write container .disk_write
  return (if read_to_escale < 0 then [⟨container, read_to_escale, .disk_read⟩] else []) ++
    if write_to_escale < 0 then [⟨container, write_to_escale, .disk_write⟩] else []

/-- `host_info["resources"]["disks"]`. -/
def diskBandwidths (host_info : BwHost) : Py (Dict String (Dict String ℚ)) :=
  match host_info.disks with
  | some disks => .ok disks
  | none => .error (.keyError "disks")

/-- The requests for the containers of one host. -/
def hostRequests (host_info : BwHost) : Py (List BwRequest) := do
  let disks ← diskBandwidths host_info
  let lvm ← getItem disks "lvm"
  let max_read ← getItem lvm "max_read"
  let max_write ← getItem lvm "max_write"
  let requests ← host_info.containers.mapM
    (containerRequests (max_read * cap_bw / host_info.containers.length)
      (max_write * cap_bw / host_info.containers.length))
  return requests.flatten

/-- `main`: the requests that are added to the database. -/
def limitContainersBw (hosts_str : List Char) (requested_data : List BwStructure) :
    Py (List BwRequest) := do
  let requests ← (hostList (hosts_str.splitOn ',') requested_data).entries.mapM fun e => hostRequests e.2
  return requests.flatten

/-- The texts that `main` takes for names of hosts. -/
def hostPieces (isprintable : Char → Bool) (host_names : List String) : List (List Char) :=
  (reprList isprintable (host_names.map String.toList)).splitOn ','

/-- `limit_containers_bw.main(str(host_names), config_path)` of `extend_lv`. -/
def throttle (isprintable : Char → Bool) (host_names : List String) (requested_data : List BwStructure) :
    Py (List BwRequest) :=
  limitContainersBw (reprList isprintable (host_names.map String.toList)) requested_data

/-! ## What should be requested -/

def BwStructure.container? : BwStructure → Option BwContainer
  | .container c => some c
  | _ => none

/-- The containers of the database. -/
def containersOf (requested_data : List BwStructure) : List BwContainer :=
  requested_data.filterMap BwStructure.container?

def containersOn (requested_data : List BwStructure) (host : String) : List BwContainer :=
  (containersOf requested_data).filter fun c => c.host = host

def laterDisks (name : String) (found : Option (Option (Dict String (Dict String ℚ)))) :
    BwStructure → Option (Option (Dict String (Dict String ℚ)))
  | .host name' disks => if name' = name then some disks else found
  | _ => found

/-- `resources["disks"]` of a host, which the last of its entries tells. -/
def disksOfHost (requested_data : List BwStructure) (name : String) :
    Option (Option (Dict String (Dict String ℚ))) :=
  requested_data.foldl (laterDisks name) none

/-- The maximum of the volume of a host. -/
def volumeMax (requested_data : List BwStructure) (host : String) (resource : BwResource) : Option ℚ := do
  let disks ← (disksOfHost requested_data host).join
  let lvm ← disks.get? "lvm"
  lvm.get? resource.maxKey

/-- A limit of a container, `"min"` or `"current"`. -/
def limit (c : BwContainer) (resource : BwResource) (key : String) : Option ℚ :=
  (c.resources.get? resource.key).bind fun limits => limits.get? key

/-- What a container may keep: its minimum, or its share of a tenth of the volume. -/
def target (requested_data : List BwStructure) (c : BwContainer) (resource : BwResource) : Option ℚ := do
  let volume ← volumeMax requested_data c.host resource
  let min ← limit c resource "min"
  return max (volume * cap_bw / (containersOn requested_data c.host).length) min

/-- A request that brings a container of a listed host down to its target. -/
def Wanted (host_names : List String) (requested_data : List BwStructure) (r : BwRequest) : Prop :=
  r.container ∈ containersOf requested_data ∧ r.container.host ∈ host_names ∧
    ∃ down_to current, target requested_data r.container r.resource = some down_to ∧
      limit r.container r.resource "current" = some current ∧ down_to < current ∧
      r.amount = down_to - current

/-- The script considers exactly the listed hosts, and makes every wanted request once for
    each entry of its container, and no other. -/
structure ThrottlesExactly (isprintable : Char → Bool) (host_names : List String)
    (requested_data : List BwStructure) (requests : List BwRequest) : Prop where
  considered : ∀ name,
    name ∈ (hostList (hostPieces isprintable host_names) requested_data).keys ↔
      name ∈ host_names ∧ (disksOfHost requested_data name).isSome
  issued : ∀ r, Wanted host_names requested_data r →
    requests.count r = (containersOf requested_data).count r.container
  only : ∀ r ∈ requests, Wanted host_names requested_data r

/-! ## The hosts and their containers -/

section
variable {hosts : List (List Char)} {requested_data : List BwStructure} {name : String}

theorem get?_foldl_selectHosts (hname : name.toList ∈ hosts) {host_list : Dict String BwHost}
    {found : Option (Option (Dict String (Dict String ℚ)))}
    (hfound : host_list.get? name = found.map fun disks => ⟨disks, []⟩) :
    (requested_data.foldl (selectHost hosts) host_list).get? name =
      (requested_data.foldl (laterDisks name) found).map fun disks => ⟨disks, []⟩ := by
  induction requested_data generalizing host_list found with
  | nil => exact hfound
  | cons structure_ requested_data ih =>
    rw [List.foldl_cons, List.foldl_cons]
    cases structure_ with
    | host name' disks =>
      refine ih ?_
      rw [selectHost, laterDisks]
      by_cases hsame : name' = name
      · subst hsame
        rw [if_pos hname, if_pos rfl, Dict.get?_set_self]
        rfl
      · rw [if_neg hsame, ← hfound]
        split_ifs
        · rw [Dict.get?_set_of_ne _ _ (Ne.symm hsame)]
        · rfl
    | container c => exact ih hfound
    | other name' => exact ih hfound

theorem get?_foldl_selectHosts_of_notMem (hname : name.toList ∉ hosts) (host_list : Dict String BwHost) :
    (requested_data.foldl (selectHost hosts) host_list).get? name = host_list.get? name := by
  induction requested_data generalizing host_list with
  | nil => rfl
  | cons structure_ requested_data ih =>
    rw [List.foldl_cons]
    cases structure_ with
    | host name' disks =>
      rw [ih]
      rw [selectHost]
      split_ifs with hselected
      · refine Dict.get?_set_of_ne _ _ ?_
        rintro rfl
        exact hname hselected
      · rfl
    | container c => exact ih _
    | other name' => exact ih _

/-- A host that is selected has the disks of its last entry. -/
theorem get?_selectHosts : (selectHosts hosts requested_data).get? name =
    if name.toList ∈ hosts then (disksOfHost requested_data name).map fun disks => ⟨disks, []⟩
    else none := by
  split_ifs with hname
  · exact get?_foldl_selectHosts hname (Dict.get?_empty name)
  · exact get?_foldl_selectHosts_of_notMem hname .empty

theorem get?_addContainers (host_list : Dict String BwHost) :
    (addContainers requested_data host_list).get? name =
      (host_list.get? name).map fun h =>
        { h with containers := h.containers ++ containersOn requested_data name } := by
  unfold addContainers
  induction requested_data generalizing host_list with
  | nil => simp [containersOn, containersOf]
  | cons structure_ requested_data ih =>
    rw [List.foldl_cons, ih]
    cases structure_ with
    | host name' disks => rfl
    | other name' => rfl
    | container c =>
      have hcons : containersOn (.container c :: requested_data) name =
          if c.host = name then c :: containersOn requested_data name
          else containersOn requested_data name := by
        simp [containersOn, containersOf, BwStructure.container?, List.filter_cons]
      rw [addContainer, hcons, Dict.get?_modify]
      by_cases hname : name = c.host
      · rw [if_pos hname, if_pos hname.symm, Option.map_map]
        cases host_list.get? name <;> simp
      · rw [if_neg hname, if_neg (Ne.symm hname)]

/-- What the script knows of a host. -/
theorem get?_hostList : (hostList hosts requested_data).get? name =
    if name.toList ∈ hosts then (disksOfHost requested_data name).map fun disks =>
      ⟨disks, containersOn requested_data name⟩
    else none := by
  unfold hostList
  rw [get?_addContainers, get?_selectHosts]
  split_ifs with hname
  · rw [Option.map_map]
    rfl
  · rfl

theorem mem_keys_hostList : name ∈ (hostList hosts requested_data).keys ↔
    name.toList ∈ hosts ∧ (disksOfHost requested_data name).isSome := by
  rw [Dict.mem_keys_iff, get?_hostList]
  split_ifs with hname
  · simp [hname, Option.isSome_iff_exists]
  · simp [hname]

end

/-! ## What is requested -/

/-- The request for a container and a resource, if there is one. -/
def asked (requested_data : List BwStructure) (c : BwContainer) (resource : BwResource) : List BwRequest :=
  match target requested_data c resource, limit c resource "current" with
  | some down_to, some current => if down_to < current then [⟨c, down_to - current, resource⟩] else []
  | _, _ => []

def askedOf (requested_data : List BwStructure) (c : BwContainer) : List BwRequest :=
  asked requested_data c .disk_read ++ asked requested_data c .disk_write

/-- Both limits of the container are there. -/
def LimitsReadable (c : BwContainer) : Prop :=
  ∀ resource : BwResource, (limit c resource "min").isSome ∧ (limit c resource "current").isSome

/-- All bandwidths of a host and its containers are there. -/
structure HostReadable (requested_data : List BwStructure) (name : String) : Prop where
  volume : ∀ resource : BwResource, (volumeMax requested_data name resource).isSome
  containers : ∀ c ∈ containersOn requested_data name, LimitsReadable c

section
variable {requested_data : List BwStructure} {c : BwContainer} {resource : BwResource} {name : String}

theorem mem_asked {r : BwRequest} : r ∈ asked requested_data c resource ↔
    r.container = c ∧ r.resource = resource ∧ ∃ down_to current,
      target requested_data c resource = some down_to ∧ limit c resource "current" = some current ∧
        down_to < current ∧ r.amount = down_to - current := by
  unfold asked
  cases htarget : target requested_data c resource with
  | none => simp
  | some down_to =>
    cases hcurrent : limit c resource "current" with
    | none => simp
    | some current =>
      obtain ⟨container, amount, resource'⟩ := r
      dsimp only
      split_ifs with hlt
      · simp only [List.mem_singleton, BwRequest.mk.injEq, Option.some.injEq]
        constructor
        · rintro ⟨rfl, rfl, rfl⟩
          exact ⟨rfl, rfl, _, _, rfl, rfl, hlt, rfl⟩
        · rintro ⟨rfl, rfl, _, _, rfl, rfl, -, rfl⟩
          exact ⟨rfl, rfl, rfl⟩
      · constructor
        · intro h
          cases h
        · rintro ⟨-, -, _, _, hdown, hcur, hlt', -⟩
          cases hdown
          cases hcur
          exact absurd hlt' hlt

theorem mem_askedOf {r : BwRequest} : r ∈ askedOf requested_data c ↔
    r.container = c ∧ r ∈ asked requested_data c r.resource := by
  unfold askedOf
  rw [List.mem_append]
  constructor
  · rintro (h | h)
    · obtain ⟨hc, hr, -⟩ := mem_asked.1 h
      rw [hr]
      exact ⟨hc, h⟩
    · obtain ⟨hc, hr, -⟩ := mem_asked.1 h
      rw [hr]
      exact ⟨hc, h⟩
  · rintro ⟨-, h⟩
    cases hr : r.resource with
    | disk_read => exact .inl (hr ▸ h)
    | disk_write => exact .inr (hr ▸ h)

theorem nodup_asked : (asked requested_data c resource).Nodup := by
  unfold asked
  split
  · split_ifs <;> simp
  · simp

theorem nodup_askedOf : (askedOf requested_data c).Nodup := by
  refine nodup_asked.append nodup_asked fun r hread hwrite => ?_
  have h := (mem_asked.1 hread).2.1
  rw [(mem_asked.1 hwrite).2.1] at h
  cases h

/-- What a container has to give up, if its limits are there. -/
theorem toEscale_eq_ok {limited x : ℚ} : toEscale limited c resource = .ok x ↔
    ∃ min current, limit c resource "min" = some min ∧ limit c resource "current" = some current ∧
      x = max limited min - current := by
  unfold toEscale limit
  simp only [bind_eq_ok, getItem_eq_ok, pure_eq_ok, Option.bind_eq_some_iff]
  constructor
  · rintro ⟨limits, hlimits, min, hmin, current, hcurrent, rfl⟩
    exact ⟨min, current, ⟨limits, hlimits, hmin⟩, ⟨limits, hlimits, hcurrent⟩, rfl⟩
  · rintro ⟨min, current, ⟨limits, hlimits, hmin⟩, ⟨limits', hlimits', hcurrent⟩, rfl⟩
    rw [hlimits] at hlimits'
    cases hlimits'
    exact ⟨limits, hlimits, min, hmin, current, hcurrent, rfl⟩

/-- The share of a container on a host, of the maximum of the volume. -/
def share (requested_data : List BwStructure) (name : String) (volume : ℚ) : ℚ :=
  volume * cap_bw / (containersOn requested_data name).length

theorem toEscale_asked {volume x : ℚ} (hvolume : volumeMax requested_data c.host resource = some volume)
    (h : toEscale (share requested_data c.host volume) c resource = .ok x) :
    (if x < 0 then [(⟨c, x, resource⟩ : BwRequest)] else []) = asked requested_data c resource := by
  obtain ⟨min, current, hmin, hcurrent, rfl⟩ := toEscale_eq_ok.1 h
  have htarget : target requested_data c resource =
      some (max (share requested_data c.host volume) min) := by
    unfold target
    rw [hvolume, hmin]
    rfl
  unfold asked
  rw [htarget, hcurrent]
  simp only [sub_neg]

/-- The requests for a container, if its limits are there. -/
theorem containerRequests_ok_iff {max_read max_write : ℚ} {requests : List BwRequest}
    (hread : volumeMax requested_data c.host .disk_read = some max_read)
    (hwrite : volumeMax requested_data c.host .disk_write = some max_write) :
    containerRequests (share requested_data c.host max_read) (share requested_data c.host max_write) c =
        .ok requests ↔
      LimitsReadable c ∧ requests = askedOf requested_data c := by
  unfold containerRequests
  constructor
  · intro h
    obtain ⟨x, hx, h⟩ := bind_eq_ok.1 h
    obtain ⟨y, hy, h⟩ := bind_eq_ok.1 h
    rw [pure_eq_ok, toEscale_asked hread hx, toEscale_asked hwrite hy] at h
    refine ⟨fun resource => ?_, h.symm⟩
    cases resource with
    | disk_read =>
      obtain ⟨min, current, hmin, hcurrent, -⟩ := toEscale_eq_ok.1 hx
      simp [hmin, hcurrent]
    | disk_write =>
      obtain ⟨min, current, hmin, hcurrent, -⟩ := toEscale_eq_ok.1 hy
      simp [hmin, hcurrent]
  · rintro ⟨hreadable, rfl⟩
    have hescale (resource : BwResource) (limited : ℚ) : ∃ x, toEscale limited c resource = .ok x := by
      obtain ⟨hmin, hcurrent⟩ := hreadable resource
      obtain ⟨min, hmin⟩ := Option.isSome_iff_exists.1 hmin
      obtain ⟨current, hcurrent⟩ := Option.isSome_iff_exists.1 hcurrent
      exact ⟨_, toEscale_eq_ok.2 ⟨min, current, hmin, hcurrent, rfl⟩⟩
    obtain ⟨x, hx⟩ := hescale .disk_read (share requested_data c.host max_read)
    obtain ⟨y, hy⟩ := hescale .disk_write (share requested_data c.host max_write)
    refine bind_eq_ok.2 ⟨x, hx, bind_eq_ok.2 ⟨y, hy, ?_⟩⟩
    rw [pure_eq_ok, toEscale_asked hread hx, toEscale_asked hwrite hy]
    rfl

/-- The requests for the containers of a host, if all bandwidths are there. -/
theorem hostRequests_ok_iff {disks : Option (Dict String (Dict String ℚ))} {requests : List BwRequest}
    (hdisks : disksOfHost requested_data name = some disks) :
    hostRequests ⟨disks, containersOn requested_data name⟩ = .ok requests ↔
      HostReadable requested_data name ∧
        requests = (containersOn requested_data name).flatMap (askedOf requested_data) := by
  have hvolume (resource : BwResource) (volume : ℚ) :
      volumeMax requested_data name resource = some volume ↔ ∃ d lvm, disks = some d ∧
        d.get? "lvm" = some lvm ∧ lvm.get? resource.maxKey = some volume := by
    unfold volumeMax
    rw [hdisks]
    simp [Option.bind_eq_some_iff]
  have hcontainers {max_read max_write : ℚ} (hread : volumeMax requested_data name .disk_read = some max_read)
      (hwrite : volumeMax requested_data name .disk_write = some max_write) (c : BwContainer)
      (hc : c ∈ containersOn requested_data name) (rs : List BwRequest) :
      containerRequests (share requested_data name max_read) (share requested_data name max_write) c =
        .ok rs ↔ LimitsReadable c ∧ rs = askedOf requested_data c := by
    have hhost : c.host = name := of_decide_eq_true (List.mem_filter.1 hc).2
    subst hhost
    exact containerRequests_ok_iff hread hwrite
  unfold hostRequests
  constructor
  · intro h
    obtain ⟨d, hd, h⟩ := bind_eq_ok.1 h
    obtain ⟨lvm, hlvm, h⟩ := bind_eq_ok.1 h
    obtain ⟨max_read, hread, h⟩ := bind_eq_ok.1 h
    obtain ⟨max_write, hwrite, h⟩ := bind_eq_ok.1 h
    obtain ⟨rs, hrs, h⟩ := bind_eq_ok.1 h
    rw [pure_eq_ok] at h
    have hsome : disks = some d := by
      cases disks with
      | none => cases hd
      | some d' => rw [Except.ok.inj hd]
    have hread := (hvolume .disk_read max_read).2 ⟨d, lvm, hsome, getItem_eq_ok.1 hlvm, getItem_eq_ok.1 hread⟩
    have hwrite := (hvolume .disk_write max_write).2
      ⟨d, lvm, hsome, getItem_eq_ok.1 hlvm, getItem_eq_ok.1 hwrite⟩
    have hall : ∀ c ∈ containersOn requested_data name, LimitsReadable c ∧
        containerRequests (share requested_data name max_read) (share requested_data name max_write) c =
          .ok (askedOf requested_data c) := by
      intro c hc
      obtain ⟨b, -, hb⟩ := mem_of_mapM hrs hc
      obtain ⟨hreadable, rfl⟩ := (hcontainers hread hwrite c hc b).1 hb
      exact ⟨hreadable, hb⟩
    have hmap := mapM_eq_ok_map_iff.2 fun c hc => (hall c hc).2
    have hsame := Except.ok.inj (hrs.symm.trans hmap)
    refine ⟨⟨fun resource => ?_, fun c hc => (hall c hc).1⟩, by rw [← h, hsame, List.flatMap_def]⟩
    cases resource with
    | disk_read => simp [hread]
    | disk_write => simp [hwrite]
  · rintro ⟨hreadable, rfl⟩
    obtain ⟨max_read, hread⟩ := Option.isSome_iff_exists.1 (hreadable.volume .disk_read)
    obtain ⟨max_write, hwrite⟩ := Option.isSome_iff_exists.1 (hreadable.volume .disk_write)
    obtain ⟨d, lvm, rfl, hlvm, hgetRead⟩ := (hvolume _ _).1 hread
    obtain ⟨d', lvm', hd', hlvm', hgetWrite⟩ := (hvolume _ _).1 hwrite
    cases hd'
    rw [hlvm] at hlvm'
    cases hlvm'
    have hmap : (containersOn requested_data name).mapM
        (containerRequests (share requested_data name max_read) (share requested_data name max_write)) =
          .ok ((containersOn requested_data name).map (askedOf requested_data)) :=
      mapM_eq_ok_map_iff.2 fun c hc =>
        (hcontainers hread hwrite c hc _).2 ⟨hreadable.containers c hc, rfl⟩
    refine bind_eq_ok.2 ⟨d, rfl, bind_eq_ok.2 ⟨lvm, getItem_eq_ok.2 hlvm, bind_eq_ok.2 ⟨max_read,
      getItem_eq_ok.2 hgetRead, bind_eq_ok.2 ⟨max_write, getItem_eq_ok.2 hgetWrite,
        bind_eq_ok.2 ⟨_, hmap, rfl⟩⟩⟩⟩⟩

/-- The script ends if the bandwidths of the considered hosts are there; it makes the
    requests for their containers. -/
theorem limitContainersBw_ok_iff {hosts_str : List Char} {requests : List BwRequest} :
    limitContainersBw hosts_str requested_data = .ok requests ↔
      (∀ name ∈ (hostList (hosts_str.splitOn ',') requested_data).keys, HostReadable requested_data name) ∧
        requests = (hostList (hosts_str.splitOn ',') requested_data).keys.flatMap fun name =>
          (containersOn requested_data name).flatMap (askedOf requested_data) := by
  set host_list := hostList (hosts_str.splitOn ',') requested_data with hhost_list
  have hentry (e : String × BwHost) (he : e ∈ host_list.entries) (rs : List BwRequest) :
      hostRequests e.2 = .ok rs ↔ HostReadable requested_data e.1 ∧
        rs = (containersOn requested_data e.1).flatMap (askedOf requested_data) := by
    have hget : host_list.get? e.1 = some e.2 := Dict.get?_eq_some_iff.2 he
    rw [hhost_list, get?_hostList] at hget
    split_ifs at hget
    obtain ⟨disks, hdisks, heq⟩ := Option.map_eq_some_iff.1 hget
    rw [← heq]
    exact hostRequests_ok_iff hdisks
  have hkeys : host_list.keys.flatMap (fun name =>
      (containersOn requested_data name).flatMap (askedOf requested_data)) =
        (host_list.entries.map fun e =>
          (containersOn requested_data e.1).flatMap (askedOf requested_data)).flatten := by
    rw [← List.flatMap_def, Dict.keys, List.flatMap_map]
  unfold limitContainersBw
  rw [hkeys]
  constructor
  · intro h
    obtain ⟨rs, hrs, h⟩ := bind_eq_ok.1 h
    rw [pure_eq_ok] at h
    have hall : ∀ e ∈ host_list.entries, HostReadable requested_data e.1 ∧ hostRequests e.2 =
        .ok ((containersOn requested_data e.1).flatMap (askedOf requested_data)) := by
      intro e he
      obtain ⟨b, -, hb⟩ := mem_of_mapM hrs he
      obtain ⟨hreadable, rfl⟩ := (hentry e he b).1 hb
      exact ⟨hreadable, hb⟩
    have hmap := mapM_eq_ok_map_iff.2 fun e he => (hall e he).2
    have hsame := Except.ok.inj (hrs.symm.trans hmap)
    refine ⟨fun name hname => ?_, by rw [← h, hsame]⟩
    obtain ⟨e, he, rfl⟩ := List.mem_map.1 hname
    exact (hall e he).1
  · rintro ⟨hreadable, rfl⟩
    have hmap : host_list.entries.mapM (fun e => hostRequests e.2) = .ok (host_list.entries.map fun e =>
        (containersOn requested_data e.1).flatMap (askedOf requested_data)) :=
      mapM_eq_ok_map_iff.2 fun e he =>
        (hentry e he _).2 ⟨hreadable e.1 (List.mem_map_of_mem he), rfl⟩
    exact bind_eq_ok.2 ⟨_, hmap, rfl⟩

/-! ## The listed hosts -/

variable {isprintable : Char → Bool} {host_names : List String} {requests : List BwRequest}

theorem wanted_iff {r : BwRequest} : Wanted host_names requested_data r ↔
    r.container ∈ containersOf requested_data ∧ r.container.host ∈ host_names ∧
      r ∈ askedOf requested_data r.container := by
  unfold Wanted
  rw [mem_askedOf, mem_asked]
  simp

theorem isSome_disksOfHost {volume : ℚ} (h : volumeMax requested_data name resource = some volume) :
    (disksOfHost requested_data name).isSome := by
  unfold volumeMax at h
  cases hdisks : disksOfHost requested_data name with
  | none =>
    rw [hdisks] at h
    cases h
  | some disks => rfl

/-- A container that is asked for something is on a host of the database. -/
theorem isSome_of_mem_askedOf {r : BwRequest} (h : r ∈ askedOf requested_data c) :
    (disksOfHost requested_data c.host).isSome := by
  obtain ⟨-, -, down_to, current, htarget, -⟩ := mem_asked.1 (mem_askedOf.1 h).2
  unfold target at htarget
  obtain ⟨volume, hvolume, -⟩ := Option.bind_eq_some_iff.1 htarget
  exact isSome_disksOfHost hvolume

theorem throttle_ok_iff : throttle isprintable host_names requested_data = .ok requests ↔
    (∀ name ∈ (hostList (hostPieces isprintable host_names) requested_data).keys,
        HostReadable requested_data name) ∧
      requests = (hostList (hostPieces isprintable host_names) requested_data).keys.flatMap fun name =>
        (containersOn requested_data name).flatMap (askedOf requested_data) :=
  limitContainersBw_ok_iff

/-- How often a request is made. -/
theorem count_requests (h : throttle isprintable host_names requested_data = .ok requests) (r : BwRequest) :
    requests.count r =
      ((containersOf requested_data).filter fun c =>
        c.host ∈ (hostList (hostPieces isprintable host_names) requested_data).keys).count r.container *
          (askedOf requested_data r.container).count r := by
  obtain ⟨-, rfl⟩ := throttle_ok_iff.1 h
  have hperm := (flatMap_filter_perm BwContainer.host (containersOf requested_data)
    (hostList (hostPieces isprintable host_names) requested_data).nodup_keys).flatMap_right
      (askedOf requested_data)
  rw [List.flatMap_assoc] at hperm
  exact (hperm.count_eq r).trans
    (count_flatMap_key (fun c r hr => (mem_askedOf.1 hr).1) _ r)

/-- If the right hosts are considered, the right requests are made. -/
theorem throttlesExactly_of_considered (h : throttle isprintable host_names requested_data = .ok requests)
    (hpieces : ∀ name, (disksOfHost requested_data name).isSome →
      (name.toList ∈ hostPieces isprintable host_names ↔ name ∈ host_names)) :
    ThrottlesExactly isprintable host_names requested_data requests := by
  have hconsidered (name : String) :
      name ∈ (hostList (hostPieces isprintable host_names) requested_data).keys ↔
        name ∈ host_names ∧ (disksOfHost requested_data name).isSome := by
    rw [mem_keys_hostList]
    exact and_congr_left fun hsome => hpieces name hsome
  refine ⟨hconsidered, fun r hr => ?_, fun r hr => ?_⟩
  · obtain ⟨-, hhost, hasked⟩ := wanted_iff.1 hr
    have hkey := (hconsidered _).2 ⟨hhost, isSome_of_mem_askedOf hasked⟩
    have hcount : ((containersOf requested_data).filter fun c =>
        c.host ∈ (hostList (hostPieces isprintable host_names) requested_data).keys).count r.container =
          (containersOf requested_data).count r.container := List.count_filter (decide_eq_true hkey)
    rw [count_requests h, hcount, List.count_eq_one_of_mem nodup_askedOf hasked, Nat.mul_one]
  · have hpos := List.count_pos_iff.2 hr
    rw [count_requests h] at hpos
    have hcontainer := List.count_pos_iff.1 (Nat.pos_of_mul_pos_right hpos)
    have hasked := List.count_pos_iff.1 (Nat.pos_of_mul_pos_left hpos)
    obtain ⟨hmem, hkey⟩ := List.mem_filter.1 hcontainer
    exact wanted_iff.2 ⟨hmem, ((hconsidered _).1 (of_decide_eq_true hkey)).1, hasked⟩

/-- If the right hosts are considered, their names are the texts between the commas. -/
theorem ThrottlesExactly.pieces (h : ThrottlesExactly isprintable host_names requested_data requests)
    (hname : (disksOfHost requested_data name).isSome) :
    name.toList ∈ hostPieces isprintable host_names ↔ name ∈ host_names := by
  have hconsidered := h.considered name
  rw [mem_keys_hostList] at hconsidered
  simpa [hname] using hconsidered

/-- **The containers of the listed hosts are throttled exactly** when, of the hosts of the
    database, those in the list are those that are texts between the commas of its
    representation, and all their bandwidths are there. -/
theorem throttles_exactly_iff (isprintable : Char → Bool) (host_names : List String)
    (requested_data : List BwStructure) :
    (∃ requests, throttle isprintable host_names requested_data = .ok requests ∧
      ThrottlesExactly isprintable host_names requested_data requests) ↔
      (∀ name, (disksOfHost requested_data name).isSome →
        (name.toList ∈ hostPieces isprintable host_names ↔ name ∈ host_names)) ∧
      ∀ name ∈ host_names, (disksOfHost requested_data name).isSome → HostReadable requested_data name := by
  constructor
  · rintro ⟨requests, h, hexact⟩
    refine ⟨fun name hname => hexact.pieces hname, fun name hmem hname => ?_⟩
    exact (throttle_ok_iff.1 h).1 name ((hexact.considered name).2 ⟨hmem, hname⟩)
  · rintro ⟨hpieces, hreadable⟩
    have hall : ∀ name ∈ (hostList (hostPieces isprintable host_names) requested_data).keys,
        HostReadable requested_data name := by
      intro name hkey
      obtain ⟨hpiece, hname⟩ := mem_keys_hostList.1 hkey
      exact hreadable name ((hpieces name hname).1 hpiece) hname
    have h := throttle_ok_iff.2 ⟨hall, rfl⟩
    exact ⟨_, h, throttlesExactly_of_considered h hpieces⟩

end

/-! ## Ordinary names -/

/-- Every text between the commas holds one of the representations. -/
theorem infix_of_mem_splitOn (h r : List Char) (rs : List (List Char)) (hh : ',' ∉ h)
    (hrs : ∀ x ∈ r :: rs, ',' ∉ x) {p : List Char}
    (hp : p ∈ (h ++ (List.intercalate [',', ' '] (r :: rs) ++ [']'])).splitOn ',') :
    ∃ x ∈ r :: rs, x <:+: p := by
  induction rs generalizing h r with
  | nil =>
    have hnone : ',' ∉ h ++ (r ++ [']']) := by
      simp only [List.mem_append, List.mem_singleton, not_or]
      exact ⟨hh, hrs r List.mem_cons_self, by decide⟩
    rw [List.intercalate_singleton, List.splitOn_eq_singleton hnone, List.mem_singleton] at hp
    rw [hp]
    exact ⟨r, List.mem_cons_self, h, [']'], by simp⟩
  | cons r' rs ih =>
    have hnone : ',' ∉ h ++ r := by
      rw [List.mem_append, not_or]
      exact ⟨hh, hrs r List.mem_cons_self⟩
    have htext : h ++ (List.intercalate [',', ' '] (r :: r' :: rs) ++ [']']) =
        (h ++ r) ++ ',' :: ([' '] ++ (List.intercalate [',', ' '] (r' :: rs) ++ [']'])) := by
      simp [List.intercalate]
    rw [htext, List.splitOn_append_cons_self_of_not_mem hnone] at hp
    rcases List.mem_cons.1 hp with rfl | hp
    · exact ⟨r, List.mem_cons_self, (List.suffix_append h r).isInfix⟩
    · obtain ⟨x, hx, hinfix⟩ := ih [' '] r' (by decide) (fun x hx => hrs x (List.mem_cons_of_mem _ hx)) hp
      exact ⟨x, List.mem_cons_of_mem _ hx, hinfix⟩

/-- Hosts with ordinary names are not found in a list of ordinary names, and nothing is
    requested. -/
theorem nobody_throttled (isprintable : Char → Bool) {host_names : List String}
    {requested_data : List BwStructure} (hcomma : ∀ name ∈ host_names, ',' ∉ name.toList)
    (hplain : ∀ name, (disksOfHost requested_data name).isSome →
      '\'' ∉ name.toList ∧ '"' ∉ name.toList ∧ name ≠ "[]") :
    throttle isprintable host_names requested_data = .ok [] := by
  have hkeys : (hostList (hostPieces isprintable host_names) requested_data).keys = [] := by
    refine List.eq_nil_iff_forall_not_mem.2 fun name hkey => ?_
    obtain ⟨hpiece, hname⟩ := mem_keys_hostList.1 hkey
    obtain ⟨hsingle, hdouble, hempty⟩ := hplain name hname
    cases host_names with
    | nil =>
      have hpieces : hostPieces isprintable [] = "[]".toList.splitOn ',' := rfl
      rw [hpieces, List.splitOn_eq_singleton (by decide), List.mem_singleton] at hpiece
      exact hempty (String.toList_inj.1 hpiece)
    | cons first rest =>
      -- a quote comes with every piece
      have hreprs : ∀ x ∈ ((first :: rest).map String.toList).map (pyRepr isprintable), ',' ∉ x := by
        intro x hx
        rw [List.map_map] at hx
        obtain ⟨other, hother, rfl⟩ := List.mem_map.1 hx
        exact comma_notMem_pyRepr isprintable (hcomma other hother)
      obtain ⟨x, hx, hinfix⟩ := infix_of_mem_splitOn ['['] _ _ (by decide) hreprs hpiece
      obtain ⟨other, -, rfl⟩ := List.mem_map.1
        (show x ∈ ((first :: rest).map String.toList).map (pyRepr isprintable) from hx)
      have hquote : reprQuote other ∈ name.toList := hinfix.subset List.mem_cons_self
      unfold reprQuote at hquote
      split_ifs at hquote
      · exact hdouble hquote
      · exact hsingle hquote
  rw [throttle_ok_iff, hkeys]
  exact ⟨fun name hname => absurd hname List.not_mem_nil, rfl⟩

/-- A container uses more than its share of the volume of `host0`. -/
def busyHost : List BwStructure :=
  [.host "host0" (some (Dict.empty.set "lvm" ((Dict.empty.set "max_read" 100).set "max_write" 100))),
    .container ⟨"host0-cont0", "host0",
      (Dict.empty.set "disk_read" ((Dict.empty.set "min" 5).set "current" 50)).set "disk_write"
        ((Dict.empty.set "min" 5).set "current" 5)⟩]

/-- The host is in the list, and is not considered. -/
theorem busy_host_not_throttled : ¬ ∃ requests,
    throttle (fun _ => true) ["host0"] busyHost = .ok requests ∧
      ThrottlesExactly (fun _ => true) ["host0"] busyHost requests := by
  rintro ⟨requests, -, hexact⟩
  have hhost : (disksOfHost busyHost "host0").isSome := rfl
  have hpiece := (hexact.pieces hhost).2 (List.mem_singleton_self _)
  revert hpiece
  decide

end VolumeThrottling

end ServerlessYarn
