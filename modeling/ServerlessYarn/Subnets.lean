/-
  ServerlessYARN model — container subnets and racks
  (`scripts/network/get_subnets.py`, `templates/hadoop/rack_topology.py`,
  `tasks/install/network_setup.yml`, `configure_host`).

  The install playbook splits the network of the containers among the hosts it
  runs on: the server and all nodes at first, one host when it is added later.
  The rack of an address is its block of the same network, split among the nodes
  of the inventory.

  * `getSubnets_spec`: the hosts get consecutive blocks;
  * `rackTopology_eq`: the rack of an address is the number of its block;
  * `wellPlaced_iff`: right after the installation, ranges and racks fit together
    unless the number of nodes is a power of two above two, or zero;
  * `addHost_overlaps`: a host that is added later gets the whole network.
-/
import ServerlessYarn.Resources
import ServerlessYarn.Lib.Run
import ServerlessYarn.Lib.ZeroPad
import Mathlib.Data.Set.BooleanAlgebra
import Mathlib.Order.CompletePartialOrder

namespace ServerlessYarn

/-! ## Networks -/

/-- `ipaddress.ip_network`, of IPv4; the host bits of the address are zero. -/
structure IpNetwork where
  network_address : ℕ
  prefixlen : ℕ
  prefixlen_le : prefixlen ≤ 32
  aligned : 2 ^ (32 - prefixlen) ∣ network_address

namespace IpNetwork

def num_addresses (net : IpNetwork) : ℕ := 2 ^ (32 - net.prefixlen)

def broadcast_address (net : IpNetwork) : ℕ := net.network_address + net.num_addresses - 1

/-- `address in net`. -/
def contains (net : IpNetwork) (address : ℕ) : Prop :=
  net.network_address ≤ address ∧ address ≤ net.broadcast_address

instance (net : IpNetwork) (address : ℕ) : Decidable (net.contains address) :=
  inferInstanceAs (Decidable (_ ∧ _))

/-- `net[n]`, for `n ≥ 0`. -/
def getItem (net : IpNetwork) (n : ℕ) : Py ℕ :=
  if net.broadcast_address < net.network_address + n then .error .indexError
  else .ok (net.network_address + n)

/-- `net[-n]`, for `n > 0`. -/
def getItemBack (net : IpNetwork) (n : ℕ) : Py ℕ :=
  if net.broadcast_address + 1 < net.network_address + n then .error .indexError
  else .ok (net.broadcast_address + 1 - n)

theorem aligned_block (net : IpNetwork) {prefixlen_diff : ℕ} (h : net.prefixlen + prefixlen_diff ≤ 32)
    (i : ℕ) : 2 ^ (32 - (net.prefixlen + prefixlen_diff)) ∣
      net.network_address + i * 2 ^ (32 - (net.prefixlen + prefixlen_diff)) := by
  have hbase : 2 ^ (32 - (net.prefixlen + prefixlen_diff)) ∣ net.network_address :=
    Nat.dvd_trans (Nat.pow_dvd_pow 2 (by omega)) net.aligned
  exact Nat.dvd_add hbase (Nat.dvd_mul_left _ _)

/-- The `i`-th subnet. -/
def block (net : IpNetwork) {prefixlen_diff : ℕ} (h : net.prefixlen + prefixlen_diff ≤ 32) (i : ℕ) :
    IpNetwork where
  network_address := net.network_address + i * 2 ^ (32 - (net.prefixlen + prefixlen_diff))
  prefixlen := net.prefixlen + prefixlen_diff
  prefixlen_le := h
  aligned := net.aligned_block h i

/-- `list(net.subnets(prefixlen_diff))`; a network of one address is its own subnet. -/
def subnets (net : IpNetwork) (prefixlen_diff : ℕ) : Py (List IpNetwork) :=
  if net.prefixlen = 32 then .ok [net]
  else if h : net.prefixlen + prefixlen_diff ≤ 32 then
    .ok ((List.range (2 ^ prefixlen_diff)).map (net.block h))
  else .error .valueError

end IpNetwork

/-- `n.bit_length()`. -/
def bitLength (n : ℤ) : ℕ := if n = 0 then 0 else n.natAbs.log2 + 1

/-- `1<<(number_of_hosts-1).bit_length()`. -/
def numberOfSubnets (number_of_hosts : ℕ) : ℕ := 1 <<< bitLength ((number_of_hosts : ℤ) - 1)

/-- `list(subnet.subnets(prefixlen_diff=int(log(number_of_subnets,2))))`. -/
def splitNetwork (subnet : IpNetwork) (number_of_hosts : ℕ) : Py (List IpNetwork) :=
  subnet.subnets (numberOfSubnets number_of_hosts).log2

/-! ## The scripts -/

/-- An entry of the dictionary that `get_subnets.py` prints. -/
structure HostSubnet where
  iface_ip : String
  subnet : IpNetwork
  rangeStart : ℕ
  rangeEnd : ℕ

/-- `l[i]`. -/
def listItem {α : Type} (l : List α) (i : ℕ) : Py α :=
  match l[i]? with
  | some a => .ok a
  | none => .error .indexError

/-- The body of the loop over the hosts: the host `hosts[i]`. -/
def addHostSubnet (subnets : List IpNetwork) (iface_ip_list : List String)
    (host_dict : Dict String HostSubnet) (host : String × ℕ) : Py (Dict String HostSubnet) := do
  let iface_ip ← listItem iface_ip_list host.2
  let net ← listItem subnets host.2
  let rangeStart ← net.getItem 1
  let rangeEnd ← net.getItemBack 2
  return host_dict.set host.1 ⟨iface_ip, net, rangeStart, rangeEnd⟩

/-- `get_subnets.py`. -/
def getSubnets (subnet : IpNetwork) (hosts iface_ip_list : List String) :
    Py (Dict String HostSubnet) := do
  let subnets ← splitNetwork subnet hosts.length
  hosts.zipIdx.foldlM (addHostSubnet subnets iface_ip_list) .empty

/-- `rack_topology.py` on one address, for the given number of nodes. -/
def rackTopology (subnet : IpNetwork) (number_of_hosts : ℕ) (address : ℕ) : Py String := do
  let subnets ← splitNetwork subnet number_of_hosts
  match subnets.findIdx? fun net => net.contains address with
  | some count => return "/rack-" ++ String.ofList (zeroPad 2 count)
  | none => return "/rack-unknown"

/-! ## The cluster -/

/-- The inventory, and the address range in the network configuration of each host. -/
structure Cluster where
  server : String
  nodes : List String
  ranges : Dict String HostSubnet

namespace Cluster

def hosts (c : Cluster) : List String := c.server :: c.nodes

/-- The addresses that the containers of a host may get. -/
def range (c : Cluster) (host : String) : Set ℕ :=
  {a | ∃ s, c.ranges.get? host = some s ∧ s.rangeStart ≤ a ∧ a ≤ s.rangeEnd}

/-- `Setup network plugin config`: every host of the play takes its own range. -/
def networkSetup (subnet_dict : Dict String HostSubnet) (play_hosts : List String)
    (ranges : Dict String HostSubnet) : Dict String HostSubnet :=
  play_hosts.foldl (fun ranges host =>
    match subnet_dict.get? host with
    | some s => ranges.set host s
    | none => ranges) ranges

/-- `install_playbook.yml` on the groups `platform_management` and `nodes`. -/
def install (subnet : IpNetwork) (iface_ip : String → String) (server : String) (nodes : List String) :
    Py Cluster := do
  let play_hosts := server :: nodes
  let subnet_dict ← getSubnets subnet play_hosts (play_hosts.map iface_ip)
  return ⟨server, nodes, networkSetup subnet_dict play_hosts .empty⟩

/-- `configure_host`, once the host is in the inventory: the playbook is limited to it. -/
def configureHost (subnet : IpNetwork) (iface_ip : String → String) (host_name : String)
    (c : Cluster) : Py Cluster := do
  let subnet_dict ← getSubnets subnet [host_name] [iface_ip host_name]
  return { c with
    nodes := c.nodes ++ [host_name]
    ranges := networkSetup subnet_dict [host_name] c.ranges }

/-- A new host is added. -/
def AddHost (subnet : IpNetwork) (iface_ip : String → String) (c : Cluster) (host_name : String)
    (c' : Cluster) : Prop :=
  host_name ∉ c.hosts ∧ c.configureHost subnet iface_ip host_name = .ok c'

/-- The ranges are disjoint, each lies in one rack, and those of two nodes in two racks. -/
structure WellPlaced (subnet : IpNetwork) (c : Cluster) : Prop where
  disjoint : ∀ host ∈ c.hosts, ∀ host' ∈ c.hosts, host ≠ host' → Disjoint (c.range host) (c.range host')
  one_rack : ∀ host ∈ c.hosts, ∃ rack, ∀ a ∈ c.range host,
    rackTopology subnet c.nodes.length a = .ok rack
  racks_differ : ∀ host ∈ c.nodes, ∀ host' ∈ c.nodes, host ≠ host' →
    ∀ a ∈ c.range host, ∀ a' ∈ c.range host',
      rackTopology subnet c.nodes.length a ≠ rackTopology subnet c.nodes.length a'

end Cluster

/-! ## Powers of two -/

theorem bitLength_le {k d : ℕ} : bitLength k ≤ d ↔ k < 2 ^ d := by
  unfold bitLength
  by_cases hk : k = 0
  · subst hk
    simp [Nat.two_pow_pos d]
  · rw [if_neg (by exact_mod_cast hk), Int.natAbs_natCast, Nat.add_one_le_iff, Nat.log2_lt hk]

theorem numberOfSubnets_succ (k : ℕ) : numberOfSubnets (k + 1) = 2 ^ bitLength k := by
  unfold numberOfSubnets
  rw [Nat.one_shiftLeft, Nat.cast_add, Nat.cast_one, add_sub_cancel_right]

theorem splitNetwork_succ (net : IpNetwork) (k : ℕ) :
    splitNetwork net (k + 1) = net.subnets (bitLength k) := by
  unfold splitNetwork
  rw [numberOfSubnets_succ, Nat.log2_two_pow]

/-- One more host takes one more bit only at a power of two. -/
theorem bitLength_succ (k : ℕ) : bitLength (k + 1 : ℕ) = bitLength k ∨
    (bitLength (k + 1 : ℕ) = bitLength k + 1 ∧ k + 1 = 2 ^ bitLength k) := by
  have hself : k < 2 ^ bitLength k := bitLength_le.1 le_rfl
  have hmono : bitLength k ≤ bitLength (k + 1 : ℕ) :=
    bitLength_le.2 ((Nat.lt_succ_self k).trans (bitLength_le.1 le_rfl))
  rcases Nat.lt_or_ge (k + 1) (2 ^ bitLength k) with hlt | hge
  · exact .inl (le_antisymm (bitLength_le.2 hlt) hmono)
  · have heq : k + 1 = 2 ^ bitLength k := le_antisymm hself hge
    have hnext : bitLength (k + 1 : ℕ) ≤ bitLength k + 1 := by
      rw [bitLength_le, heq]
      exact Nat.pow_lt_pow_right (by decide) (Nat.lt_succ_self _)
    have hmore : ¬ bitLength (k + 1 : ℕ) ≤ bitLength k := by
      rw [bitLength_le]
      omega
    exact .inr ⟨by omega, heq⟩

theorem isPowerOfTwo_succ_iff (k : ℕ) :
    (k + 1).isPowerOfTwo ↔ bitLength (k + 1 : ℕ) = bitLength k + 1 := by
  constructor
  · rintro ⟨m, hm⟩
    have hle : bitLength k ≤ m := bitLength_le.2 (by omega)
    have hgt : ¬ bitLength (k + 1 : ℕ) ≤ m := by rw [bitLength_le, hm]; exact lt_irrefl _
    rcases bitLength_succ k with hsame | ⟨hmore, -⟩
    · omega
    · exact hmore
  · intro hmore
    rcases bitLength_succ k with hsame | ⟨-, hpow⟩
    · omega
    · exact ⟨_, hpow⟩

/-! ## Blocks of a network -/

namespace IpNetwork

variable {net : IpNetwork} {d : ℕ}

/-- The number of addresses of each block. -/
def blockSize (net : IpNetwork) (d : ℕ) : ℕ := 2 ^ (32 - (net.prefixlen + d))

theorem blockSize_pos : 0 < net.blockSize d := Nat.two_pow_pos _

theorem blockSize_mul (h : net.prefixlen + d ≤ 32) : 2 ^ d * net.blockSize d = net.num_addresses := by
  unfold blockSize num_addresses
  rw [← pow_add]
  congr 1
  omega

/-- A network of four addresses for each of `2 ^ d` hosts. -/
theorem prefixlen_add_le (hlarge : 4 * 2 ^ d ≤ net.num_addresses) : net.prefixlen + d + 2 ≤ 32 := by
  unfold num_addresses at hlarge
  have hpow : 2 ^ (d + 2) ≤ 2 ^ (32 - net.prefixlen) := by
    rw [pow_add, mul_comm]
    exact hlarge
  have hle := (Nat.pow_le_pow_iff_right (by decide)).1 hpow
  omega

theorem four_le_blockSize (h : net.prefixlen + d + 2 ≤ 32) : 4 ≤ net.blockSize d := by
  unfold blockSize
  exact Nat.pow_le_pow_right (n := 2) (i := 2) (by decide) (by omega)

theorem subnets_eq (hshort : net.prefixlen < 32) (h : net.prefixlen + d ≤ 32) :
    net.subnets d = .ok ((List.range (2 ^ d)).map (net.block h)) := by
  unfold subnets
  rw [if_neg hshort.ne, dif_pos h]

/-- The block of an address is read off its distance from the start. -/
theorem contains_block (h : net.prefixlen + d ≤ 32) (i a : ℕ) : (net.block h i).contains a ↔
    net.network_address ≤ a ∧ (a - net.network_address) / net.blockSize d = i := by
  have hpos : 0 < net.blockSize d := blockSize_pos
  rw [Nat.div_eq_iff hpos]
  unfold contains broadcast_address num_addresses
  change net.network_address + i * net.blockSize d ≤ a ∧
    a ≤ net.network_address + i * net.blockSize d + net.blockSize d - 1 ↔ _
  omega

end IpNetwork

/-- The rack of an address is the number of its block. -/
theorem rackTopology_eq {net : IpNetwork} {k a : ℕ} (hshort : net.prefixlen < 32)
    (h : net.prefixlen + bitLength k ≤ 32) (hle : net.network_address ≤ a) (hlt : a < net.network_address + net.num_addresses) :
    rackTopology net (k + 1) a = .ok ("/rack-" ++ String.ofList
      (zeroPad 2 ((a - net.network_address) / net.blockSize (bitLength k)))) := by
  have hfind : ((List.range (2 ^ bitLength k)).map (net.block h)).findIdx?
      (fun net => net.contains a) = some ((a - net.network_address) / net.blockSize (bitLength k)) := by
    rw [List.findIdx?_eq_some_iff_getElem]
    have hblock : (a - net.network_address) / net.blockSize (bitLength k) < 2 ^ bitLength k := by
      rw [Nat.div_lt_iff_lt_mul IpNetwork.blockSize_pos, IpNetwork.blockSize_mul h]
      omega
    refine ⟨by simpa using hblock, ?_, ?_⟩
    · simp [IpNetwork.contains_block, hle]
    · intro j hj
      simp only [List.getElem_map, List.getElem_range, IpNetwork.contains_block, decide_eq_true_eq]
      omega
  unfold rackTopology
  rw [splitNetwork_succ, IpNetwork.subnets_eq hshort h]
  simp only [bind, Except.bind, hfind]
  rfl

theorem rack_injective {i j : ℕ} (h : "/rack-" ++ String.ofList (zeroPad 2 i) =
    "/rack-" ++ String.ofList (zeroPad 2 j)) : i = j := by
  rw [String.append_right_inj] at h
  exact zeroPad_injective 2 (String.ofList_injective h)

/-! ## The ranges of the hosts -/

/-- The range that the script gives to the host at position `i`. -/
def hostSubnet {net : IpNetwork} {d : ℕ} (h : net.prefixlen + d ≤ 32) (iface_ip : String) (i : ℕ) :
    HostSubnet where
  iface_ip := iface_ip
  subnet := net.block h i
  rangeStart := net.network_address + i * net.blockSize d + 1
  rangeEnd := net.network_address + i * net.blockSize d + net.blockSize d - 2

/-- The hosts before position `n` have their entries, and keep them. -/
theorem getSubnets_loop {entry : String → ℕ → HostSubnet}
    {body : Dict String HostSubnet → String × ℕ → Py (Dict String HostSubnet)}
    {hosts : List String} {n : ℕ} (host_dict : Dict String HostSubnet) (hnodup : hosts.Nodup)
    (hbody : ∀ host_dict host i, hosts[i]? = some host →
      body host_dict (host, n + i) = .ok (host_dict.set host (entry host (n + i)))) :
    ∃ host_dict', (hosts.zipIdx n).foldlM body host_dict = .ok host_dict' ∧
      (∀ host ∉ hosts, host_dict'.get? host = host_dict.get? host) ∧
      ∀ i host, hosts[i]? = some host → host_dict'.get? host = some (entry host (n + i)) := by
  induction hosts generalizing n host_dict with
  | nil => exact ⟨host_dict, rfl, fun _ _ => rfl, fun i host hi => by simp at hi⟩
  | cons h hs ih =>
    rw [List.nodup_cons] at hnodup
    obtain ⟨host_dict', hrun, hkeep, hget⟩ := ih (n := n + 1) (host_dict.set h (entry h n)) hnodup.2
      fun host_dict host i hi => by
        have := hbody host_dict host (i + 1) (by simpa using hi)
        rwa [← add_assoc, add_right_comm] at this
    refine ⟨host_dict', ?_, ?_, ?_⟩
    · rw [List.zipIdx_cons, List.foldlM_cons]
      have hfirst := hbody host_dict h 0 (by simp)
      rw [add_zero] at hfirst
      rw [hfirst]
      exact hrun
    · intro host hnot
      rw [List.mem_cons, not_or] at hnot
      rw [hkeep host hnot.2, Dict.get?_set_of_ne _ _ hnot.1]
    · intro i host hi
      cases i with
      | zero =>
        obtain rfl : h = host := by simpa using hi
        rw [hkeep h hnodup.1, Dict.get?_set_self, add_zero]
      | succ i =>
        rw [hget i host (by simpa using hi), add_assoc, add_comm 1 i]

theorem addHostSubnet_block {net : IpNetwork} {d : ℕ} (h : net.prefixlen + d + 2 ≤ 32)
    (h' : net.prefixlen + d ≤ 32) {iface_ip_list : List String} {host_dict : Dict String HostSubnet}
    {host iface_ip : String} {i : ℕ} (hi : i < 2 ^ d) (hiface : iface_ip_list[i]? = some iface_ip) :
    addHostSubnet ((List.range (2 ^ d)).map (net.block h')) iface_ip_list host_dict (host, i) =
      .ok (host_dict.set host (hostSubnet h' iface_ip i)) := by
  have hsize : 4 ≤ net.blockSize d := IpNetwork.four_le_blockSize h
  have hnet : ((List.range (2 ^ d)).map (net.block h'))[i]? = some (net.block h' i) := by
    rw [List.getElem?_map, List.getElem?_range hi, Option.map_some]
  have hbroadcast : (net.block h' i).broadcast_address =
      net.network_address + i * net.blockSize d + net.blockSize d - 1 := rfl
  have hfirst : (net.block h' i).getItem 1 = .ok (net.network_address + i * net.blockSize d + 1) := by
    refine if_neg ?_
    change ¬ (net.block h' i).broadcast_address < net.network_address + i * net.blockSize d + 1
    omega
  have hlast : (net.block h' i).getItemBack 2 =
      .ok (net.network_address + i * net.blockSize d + net.blockSize d - 2) := by
    have hin : ¬ (net.block h' i).broadcast_address + 1 <
        net.network_address + i * net.blockSize d + 2 := by omega
    refine (if_neg hin).trans (congrArg Except.ok ?_)
    omega
  unfold addHostSubnet listItem
  rw [hiface, hnet]
  simp only [bind, Except.bind, hfirst, hlast]
  rfl

/-- The hosts get consecutive blocks. -/
theorem getSubnets_spec {net : IpNetwork} {k : ℕ} (h : net.prefixlen + bitLength k + 2 ≤ 32)
    (h' : net.prefixlen + bitLength k ≤ 32) {hosts : List String} (hlen : hosts.length = k + 1)
    (hnodup : hosts.Nodup) (iface_ip : String → String) :
    ∃ subnet_dict, getSubnets net hosts (hosts.map iface_ip) = .ok subnet_dict ∧
      ∀ i host, hosts[i]? = some host →
        subnet_dict.get? host = some (hostSubnet h' (iface_ip host) i) := by
  have hbody : ∀ host_dict host i, hosts[i]? = some host →
      addHostSubnet ((List.range (2 ^ bitLength k)).map (net.block h')) (hosts.map iface_ip) host_dict
        (host, 0 + i) = .ok (host_dict.set host (hostSubnet h' (iface_ip host) (0 + i))) := by
      intro host_dict host i hi
      have hlt : i < hosts.length := (List.getElem?_eq_some_iff.1 hi).1
      have hsmall : k < 2 ^ bitLength k := bitLength_le.1 le_rfl
      rw [zero_add]
      exact addHostSubnet_block h h' (by omega) (by rw [List.getElem?_map, hi, Option.map_some])
  obtain ⟨host_dict, hrun, -, hget⟩ := getSubnets_loop .empty hnodup hbody
  refine ⟨host_dict, ?_, fun i host hi => ?_⟩
  · unfold getSubnets
    rw [hlen, splitNetwork_succ, IpNetwork.subnets_eq (by omega) h']
    exact hrun
  · rw [hget i host hi, zero_add]

namespace Cluster

theorem networkSetup_get? {subnet_dict ranges : Dict String HostSubnet} {play_hosts : List String}
    (host : String) : (networkSetup subnet_dict play_hosts ranges).get? host =
      if host ∈ play_hosts then (subnet_dict.get? host).or (ranges.get? host)
      else ranges.get? host := by
  induction play_hosts generalizing ranges with
  | nil => rfl
  | cons h hs ih =>
    refine Eq.trans ih ?_
    by_cases hh : host = h
    · subst hh
      rcases hget : subnet_dict.get? host with _ | s
      · simp [hget]
      · by_cases hmem : host ∈ hs <;> simp [hget, hmem]
    · have hsame : (match subnet_dict.get? h with
          | some s => ranges.set h s
          | none => ranges).get? host = ranges.get? host := by
        split
        · exact Dict.get?_set_of_ne _ _ hh
        · rfl
      rw [hsame]
      simp [hh]

/-- The hosts have consecutive blocks, each without its first and its last address. -/
def HasBlocks (net : IpNetwork) (d : ℕ) (c : Cluster) : Prop :=
  ∀ i host, c.hosts[i]? = some host → c.range host =
    Set.Icc (net.network_address + i * net.blockSize d + 1)
      (net.network_address + i * net.blockSize d + net.blockSize d - 2)

theorem range_eq {c : Cluster} {host : String} {s : HostSubnet} (h : c.ranges.get? host = some s) :
    c.range host = Set.Icc s.rangeStart s.rangeEnd := by
  ext a
  constructor
  · rintro ⟨s', hs', ha⟩
    obtain rfl : s = s' := Option.some.inj (h.symm.trans hs')
    exact ha
  · intro ha
    exact ⟨s, h, ha⟩

theorem install_spec {net : IpNetwork} {server : String} {nodes : List String}
    (h : net.prefixlen + bitLength nodes.length + 2 ≤ 32) (hdistinct : (server :: nodes).Nodup)
    (iface_ip : String → String) : ∃ c, install net iface_ip server nodes = .ok c ∧
      c.server = server ∧ c.nodes = nodes ∧ HasBlocks net (bitLength nodes.length) c := by
  have h' : net.prefixlen + bitLength nodes.length ≤ 32 := by omega
  obtain ⟨subnet_dict, hsubnets, hget⟩ := getSubnets_spec h h' (List.length_cons) hdistinct iface_ip
  refine ⟨⟨server, nodes, networkSetup subnet_dict (server :: nodes) .empty⟩, ?_, rfl, rfl, ?_⟩
  · unfold install
    simp only [hsubnets, bind, Except.bind]
    rfl
  · intro i host hi
    change (server :: nodes)[i]? = some host at hi
    refine range_eq (s := hostSubnet h' (iface_ip host) i) ?_
    change (networkSetup subnet_dict (server :: nodes) .empty).get? host = _
    rw [networkSetup_get?, if_pos (List.mem_of_getElem? hi), hget i host hi]
    rfl

/-! ## Right after the installation -/

section installed
variable {net : IpNetwork} {c : Cluster} {d : ℕ}

/-- The block of an address of a host is its position. -/
theorem block_of_mem (hblocks : HasBlocks net d c) {i a : ℕ} {host : String}
    (hi : c.hosts[i]? = some host) (ha : a ∈ c.range host) :
    net.network_address ≤ a ∧ (a - net.network_address) / net.blockSize d = i := by
  have hpos : 0 < net.blockSize d := IpNetwork.blockSize_pos
  rw [hblocks i host hi, Set.mem_Icc] at ha
  rw [Nat.div_eq_iff hpos]
  omega

theorem lt_of_mem (hblocks : HasBlocks net d c) (h : net.prefixlen + d ≤ 32)
    (hhosts : c.hosts.length ≤ 2 ^ d) {i a : ℕ} {host : String} (hi : c.hosts[i]? = some host)
    (ha : a ∈ c.range host) : a < net.network_address + net.num_addresses := by
  have hlt : i < 2 ^ d := lt_of_lt_of_le (List.getElem?_eq_some_iff.1 hi).1 hhosts
  obtain ⟨hle, hblock⟩ := block_of_mem hblocks hi ha
  rw [← hblock, Nat.div_lt_iff_lt_mul IpNetwork.blockSize_pos, IpNetwork.blockSize_mul h] at hlt
  omega

theorem disjoint_ranges (hblocks : HasBlocks net d c) {host host' : String} (hmem : host ∈ c.hosts)
    (hmem' : host' ∈ c.hosts) (hne : host ≠ host') : Disjoint (c.range host) (c.range host') := by
  obtain ⟨i, hi⟩ := List.mem_iff_getElem?.1 hmem
  obtain ⟨j, hj⟩ := List.mem_iff_getElem?.1 hmem'
  rw [Set.disjoint_left]
  intro a ha ha'
  have hij : i = j := (block_of_mem hblocks hi ha).2.symm.trans (block_of_mem hblocks hj ha').2
  subst hij
  exact hne (Option.some.inj (hi.symm.trans hj))

theorem first_mem (hblocks : HasBlocks net d c) (hsize : 4 ≤ net.blockSize d) {i : ℕ} {host : String}
    (hi : c.hosts[i]? = some host) :
    net.network_address + i * net.blockSize d + 1 ∈ c.range host := by
  rw [hblocks i host hi, Set.mem_Icc]
  omega

/-- The rack of a host, if a block of the racks is `t` blocks of the hosts. -/
theorem rack_of_mem (hblocks : HasBlocks net d c) (h : net.prefixlen + d + 2 ≤ 32) {k t : ℕ}
    (hk : bitLength k ≤ d) (hsize : net.blockSize (bitLength k) = net.blockSize d * t)
    (hhosts : c.hosts.length ≤ 2 ^ d) {i a : ℕ} {host : String} (hi : c.hosts[i]? = some host)
    (ha : a ∈ c.range host) :
    rackTopology net (k + 1) a = .ok ("/rack-" ++ String.ofList (zeroPad 2 (i / t))) := by
  obtain ⟨hle, hblock⟩ := block_of_mem hblocks hi ha
  have hlt := lt_of_mem hblocks (by omega) hhosts hi ha
  rw [rackTopology_eq (by omega) (by omega) hle hlt, hsize, ← Nat.div_div_eq_div_mul, hblock]

/-- Without nodes the two racks split the range of the server. -/
theorem not_wellPlaced_of_no_nodes (hblocks : HasBlocks net 0 c) (h : net.prefixlen + 2 ≤ 32)
    (hnodes : c.nodes.length = 0) : ¬ WellPlaced net c := by
  intro hplaced
  obtain ⟨rack, hrack⟩ := hplaced.one_rack c.server List.mem_cons_self
  have hsize : net.blockSize 0 = net.blockSize 1 * 2 := by
    unfold IpNetwork.blockSize
    rw [← pow_succ]
    congr 1
    omega
  have hfour : 4 ≤ net.blockSize 0 := IpNetwork.four_le_blockSize h
  have htotal : net.num_addresses = net.blockSize 0 := rfl
  have hrange := hblocks 0 c.server rfl
  rw [zero_mul, add_zero] at hrange
  have hzero : ∀ a, rackTopology net 0 a = rackTopology net 2 a := fun _ => rfl
  have hone : bitLength (1 : ℕ) = 1 := by decide
  -- the first address is in one half, the last one in the other
  have hfirst := hrack (net.network_address + 1) (by rw [hrange, Set.mem_Icc]; omega)
  have hlast := hrack (net.network_address + net.blockSize 0 - 2) (by rw [hrange, Set.mem_Icc]; omega)
  rw [hnodes, hzero, rackTopology_eq (k := 1) (by omega) (by omega) (by omega) (by omega), hone] at hfirst
  rw [hnodes, hzero, rackTopology_eq (k := 1) (by omega) (by omega) (by omega) (by omega), hone] at hlast
  have hsame := rack_injective (Except.ok.inj (hfirst.trans hlast.symm))
  have hlow : (net.network_address + 1 - net.network_address) / net.blockSize 1 = 0 :=
    Nat.div_eq_of_lt (by omega)
  have hhigh : (net.network_address + net.blockSize 0 - 2 - net.network_address) / net.blockSize 1 = 1 := by
    rw [Nat.div_eq_iff IpNetwork.blockSize_pos]
    omega
  omega

/-- The nodes have the positions from one. -/
theorem mem_nodes_iff {host : String} :
    host ∈ c.nodes ↔ ∃ i, c.hosts[i + 1]? = some host := by
  rw [List.mem_iff_getElem?]
  rfl

/-- If a block of the racks is `t` blocks of the hosts, the racks differ if the quotients of
    the positions do. -/
theorem wellPlaced_of_quotients (hblocks : HasBlocks net d c) (h : net.prefixlen + d + 2 ≤ 32)
    {k t : ℕ} (hk : c.nodes.length = k + 1) (hd : bitLength k ≤ d)
    (hsize : net.blockSize (bitLength k) = net.blockSize d * t) (hhosts : c.hosts.length ≤ 2 ^ d)
    (hquot : ∀ i j, i ≤ k → j ≤ k → (i + 1) / t = (j + 1) / t → i = j) : WellPlaced net c := by
  refine ⟨fun host hmem host' hmem' => disjoint_ranges hblocks hmem hmem', ?_, ?_⟩
  · intro host hmem
    obtain ⟨i, hi⟩ := List.mem_iff_getElem?.1 hmem
    refine ⟨"/rack-" ++ String.ofList (zeroPad 2 (i / t)), fun a ha => ?_⟩
    rw [hk]
    exact rack_of_mem hblocks h hd hsize hhosts hi ha
  · intro host hmem host' hmem' hne a ha a' ha' hrack
    obtain ⟨i, hi⟩ := mem_nodes_iff.1 hmem
    obtain ⟨j, hj⟩ := mem_nodes_iff.1 hmem'
    rw [hk, rack_of_mem hblocks h hd hsize hhosts hi ha, rack_of_mem hblocks h hd hsize hhosts hj ha'] at hrack
    have hlen : c.hosts.length = k + 2 := by
      change c.nodes.length + 1 = _
      omega
    have hi' := (List.getElem?_eq_some_iff.1 hi).1
    have hj' := (List.getElem?_eq_some_iff.1 hj).1
    obtain rfl : i = j := hquot i j (by omega) (by omega) (rack_injective (Except.ok.inj hrack))
    exact hne (Option.some.inj (hi.symm.trans hj))

/-- With racks of two blocks, the second and the third node share a rack. -/
theorem not_wellPlaced_of_pairs (hblocks : HasBlocks net d c) (h : net.prefixlen + d + 2 ≤ 32)
    (hdistinct : c.hosts.Nodup) {k : ℕ} (hk : c.nodes.length = k + 1) (hd : bitLength k ≤ d)
    (hsize : net.blockSize (bitLength k) = net.blockSize d * 2) (hhosts : c.hosts.length ≤ 2 ^ d)
    (hthree : 3 ≤ k + 1) : ¬ WellPlaced net c := by
  intro hplaced
  obtain ⟨host, hi⟩ : ∃ host, c.hosts[2]? = some host :=
    ⟨_, List.getElem?_eq_getElem (by change 2 < c.nodes.length + 1; omega)⟩
  obtain ⟨host', hj⟩ : ∃ host', c.hosts[3]? = some host' :=
    ⟨_, List.getElem?_eq_getElem (by change 3 < c.nodes.length + 1; omega)⟩
  have hne : host ≠ host' := by
    rintro rfl
    have := (List.getElem?_inj (by change 2 < c.nodes.length + 1; omega) hdistinct).1 (hi.trans hj.symm)
    omega
  have hfour : 4 ≤ net.blockSize d := IpNetwork.four_le_blockSize h
  refine hplaced.racks_differ host (mem_nodes_iff.2 ⟨1, hi⟩) host' (mem_nodes_iff.2 ⟨2, hj⟩) hne
    _ (first_mem hblocks hfour hi) _ (first_mem hblocks hfour hj) ?_
  rw [hk, rack_of_mem hblocks h hd hsize hhosts hi (first_mem hblocks hfour hi),
    rack_of_mem hblocks h hd hsize hhosts hj (first_mem hblocks hfour hj)]

/-- **Ranges and racks fit together right after the installation**, except for a power of
    two above two, or without nodes. -/
theorem wellPlaced_iff (hblocks : HasBlocks net (bitLength c.nodes.length) c)
    (h : net.prefixlen + bitLength c.nodes.length + 2 ≤ 32) (hdistinct : c.hosts.Nodup) :
    WellPlaced net c ↔ c.nodes ≠ [] ∧ (c.nodes.length ≤ 2 ∨ ¬ c.nodes.length.isPowerOfTwo) := by
  obtain hzero | ⟨k, hk⟩ : c.nodes.length = 0 ∨ ∃ k, c.nodes.length = k + 1 := by
    rcases hn : c.nodes.length with _ | k
    · exact .inl rfl
    · exact .inr ⟨k, rfl⟩
  · -- no nodes
    have hnil : c.nodes = [] := List.length_eq_zero_iff.1 hzero
    rw [hzero] at hblocks h
    exact iff_of_false (not_wellPlaced_of_no_nodes hblocks h hzero) fun hcond => hcond.1 hnil
  have hne : c.nodes ≠ [] := by
    rintro hnil
    rw [hnil] at hk
    cases hk
  rw [hk] at hblocks h ⊢
  have hhosts : c.hosts.length ≤ 2 ^ bitLength (k + 1 : ℕ) := by
    have hlt : k + 1 < 2 ^ bitLength (k + 1 : ℕ) := bitLength_le.1 le_rfl
    change c.nodes.length + 1 ≤ _
    omega
  rw [isPowerOfTwo_succ_iff]
  rcases bitLength_succ k with hsame | ⟨hmore, -⟩
  · -- as many blocks for the racks as for the hosts
    refine iff_of_true ?_ ⟨hne, .inr (by omega)⟩
    refine wellPlaced_of_quotients (t := 1) hblocks h hk hsame.ge (by rw [hsame, mul_one]) hhosts ?_
    intro i j _ _ hij
    rw [Nat.div_one, Nat.div_one] at hij
    omega
  · -- two blocks for each rack
    have hsize : net.blockSize (bitLength k) = net.blockSize (bitLength (k + 1 : ℕ)) * 2 := by
      unfold IpNetwork.blockSize
      rw [← pow_succ]
      congr 1
      omega
    constructor
    · intro hplaced
      refine ⟨hne, .inl ?_⟩
      by_contra hmany
      exact not_wellPlaced_of_pairs hblocks h hdistinct hk (by omega) hsize hhosts (by omega) hplaced
    · rintro ⟨-, hfew⟩
      refine wellPlaced_of_quotients hblocks h hk (by omega) hsize hhosts fun i j hi hj hij => ?_
      omega

end installed

/-! ## Adding hosts -/

/-- **A host that is added gets the whole network**, which overlaps the range of the server. -/
theorem addHost_overlaps {net : IpNetwork} {iface_ip : String → String} {d : ℕ} {c c' : Cluster}
    {host : String} (hblocks : HasBlocks net d c) (h : net.prefixlen + d + 2 ≤ 32)
    (hadd : AddHost net iface_ip c host c') : ¬ WellPlaced net c' := by
  obtain ⟨hnew, hconf⟩ := hadd
  have hzero : bitLength (0 : ℕ) = 0 := by decide
  have hshort : net.prefixlen + bitLength (0 : ℕ) ≤ 32 := by omega
  have hone : [host].length = 0 + 1 := rfl
  obtain ⟨subnet_dict, hsubnets, hget⟩ := getSubnets_spec (by omega) hshort hone
    (List.nodup_singleton host) iface_ip
  obtain rfl : { c with
      nodes := c.nodes ++ [host]
      ranges := networkSetup subnet_dict [host] c.ranges } = c' := by
    unfold configureHost at hconf
    change (getSubnets net [host] ([host].map iface_ip) >>= _) = _ at hconf
    rw [hsubnets] at hconf
    exact Except.ok.inj hconf
  intro hplaced
  have hserver : c.server ≠ host := fun heq => hnew (heq ▸ List.mem_cons_self)
  have hfour : 4 ≤ net.blockSize d := IpNetwork.four_le_blockSize h
  have hfour' : 4 ≤ net.blockSize 0 := IpNetwork.four_le_blockSize (by omega)
  have hdisjoint := hplaced.disjoint c.server List.mem_cons_self host
    (List.mem_cons_of_mem _ (List.mem_append_right _ List.mem_cons_self)) hserver
  rw [Set.disjoint_left] at hdisjoint
  refine hdisjoint (a := net.network_address + 1) ?_ ?_
  · -- the range of the server is kept
    have hfirst : net.network_address + 0 * net.blockSize d + 1 ∈ c.range c.server :=
      first_mem hblocks hfour rfl
    rw [zero_mul, add_zero] at hfirst
    obtain ⟨s, hs, hin⟩ := hfirst
    refine ⟨s, ?_, hin⟩
    rw [networkSetup_get?, if_neg (by simpa using hserver), hs]
  · refine ⟨hostSubnet hshort (iface_ip host) 0, ?_, ?_⟩
    · rw [networkSetup_get?, if_pos List.mem_cons_self, hget 0 host rfl]
      rfl
    · change net.network_address + 0 * net.blockSize (bitLength (0 : ℕ)) + 1 ≤ _ ∧
        _ ≤ net.network_address + 0 * net.blockSize (bitLength (0 : ℕ)) +
          net.blockSize (bitLength (0 : ℕ)) - 2
      rw [hzero, zero_mul, add_zero]
      omega

/-- **Subnets are disjoint and rack-aware at every moment of a history** iff no host is added
    later, and there are one or two nodes, or a number that is not a power of two. -/
theorem subnets_rack_aware_iff {net : IpNetwork} {iface_ip : String → String} {server : String}
    {nodes adds : List String} {c₀ c : Cluster} (hdistinct : (server :: nodes).Nodup)
    (hlarge : 4 * numberOfSubnets (nodes.length + 1) ≤ net.num_addresses)
    (hinstall : install net iface_ip server nodes = .ok c₀)
    (hrun : Run (AddHost net iface_ip) c₀ adds c) :
    (∀ adds₁ c₁, adds₁ <+: adds → Run (AddHost net iface_ip) c₀ adds₁ c₁ → WellPlaced net c₁) ↔
      adds = [] ∧ nodes ≠ [] ∧ (nodes.length ≤ 2 ∨ ¬ nodes.length.isPowerOfTwo) := by
  rw [numberOfSubnets_succ] at hlarge
  have h := IpNetwork.prefixlen_add_le hlarge
  obtain ⟨c₀', hok, hserver, rfl, hblocks⟩ := install_spec h hdistinct iface_ip
  obtain rfl : c₀ = c₀' := Except.ok.inj (hinstall.symm.trans hok)
  rw [← hserver] at hdistinct
  have hstart := wellPlaced_iff hblocks h hdistinct
  constructor
  · intro hall
    rcases adds with _ | ⟨host, rest⟩
    · exact ⟨rfl, hstart.1 (hall [] c₀ List.prefix_rfl .nil)⟩
    · -- the first host that is added
      have hsplit : Run (AddHost net iface_ip) c₀ ([host] ++ rest) c := hrun
      obtain ⟨c₁, hfirst, -⟩ := hsplit.of_append
      have hone : WellPlaced net c₁ := hall [host] c₁ ⟨rest, rfl⟩ hfirst
      have hlast : Run (AddHost net iface_ip) c₀ ([] ++ [host]) c₁ := hfirst
      obtain ⟨c₂, hnil, hadd⟩ := hlast.of_snoc
      rw [hnil.of_nil] at hadd
      exact absurd hone (addHost_overlaps hblocks h hadd)
  · rintro ⟨rfl, hcond⟩ adds₁ c₁ hpre hrun₁
    rw [List.prefix_nil] at hpre
    rw [hpre] at hrun₁
    rw [hrun₁.of_nil]
    exact hstart.2 hcond

/-- `10.22.0.0/16`. -/
def containerNetwork : IpNetwork where
  network_address := 10 * 2 ^ 24 + 22 * 2 ^ 16
  prefixlen := 16
  prefixlen_le := Nat.le_of_ble_eq_true rfl
  aligned := ⟨2582, rfl⟩

/-- A server and two nodes. -/
theorem subnets_rack_aware_iff_two : ∃ c₀,
    install containerNetwork id "server" ["host0", "host1"] = .ok c₀ ∧ WellPlaced containerNetwork c₀ := by
  obtain ⟨c₀, hinstall⟩ : ∃ c₀, install containerNetwork id "server" ["host0", "host1"] = .ok c₀ :=
    ⟨_, rfl⟩
  have hiff := subnets_rack_aware_iff (by decide) (by decide +kernel) hinstall .nil
  refine ⟨c₀, hinstall, hiff.2 ⟨rfl, by simp, .inl le_rfl⟩ [] c₀ List.prefix_rfl .nil⟩

/-- A third node gets the address of another container; and of four nodes, two share a rack. -/
theorem subnets_overlap :
    (∃ c₀ c, install containerNetwork id "server" ["host0", "host1"] = .ok c₀ ∧
      AddHost containerNetwork id c₀ "host2" c ∧ ¬ WellPlaced containerNetwork c) ∧
    ∃ c, install containerNetwork id "server" ["host0", "host1", "host2", "host3"] = .ok c ∧
      ¬ WellPlaced containerNetwork c := by
  constructor
  · obtain ⟨c₀, hinstall⟩ : ∃ c₀, install containerNetwork id "server" ["host0", "host1"] = .ok c₀ :=
      ⟨_, rfl⟩
    obtain ⟨c, hconf⟩ : ∃ c, c₀.configureHost containerNetwork id "host2" = .ok c := by
      cases hinstall
      exact ⟨_, rfl⟩
    refine ⟨c₀, c, hinstall, ⟨?_, hconf⟩, ?_⟩
    · cases hinstall
      decide
    · intro hplaced
      cases hinstall
      cases hconf
      have hdisjoint := hplaced.disjoint "server" (by decide) "host2" (by decide) (by decide)
      rw [Set.disjoint_left] at hdisjoint
      have hserver := hdisjoint (a := containerNetwork.network_address + 1) ⟨_, rfl, by decide, by decide⟩
      exact hserver ⟨_, rfl, by decide, by decide⟩
  · obtain ⟨c, hinstall⟩ : ∃ c, install containerNetwork id "server"
        ["host0", "host1", "host2", "host3"] = .ok c := ⟨_, rfl⟩
    refine ⟨c, hinstall, fun hplaced => ?_⟩
    cases hinstall
    refine hplaced.racks_differ "host1" (by decide) "host2" (by decide) (by decide)
      (containerNetwork.network_address + 2 * 2 ^ 13 + 1) ⟨_, rfl, by decide, by decide⟩
      (containerNetwork.network_address + 3 * 2 ^ 13 + 1) ⟨_, rfl, by decide, by decide⟩ ?_
    decide +kernel

end Cluster

end ServerlessYarn
