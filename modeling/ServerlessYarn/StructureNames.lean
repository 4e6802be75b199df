/-
  ServerlessYARN model — the order of structure names
  (`ui/views/core/utils.py`: `compareStructureNames`, `getHostsNames`).

  Two names that both end in a number are compared by what stands before it and by the
  number, all others as whole texts.

  * `compareStructureNames_ok`: on names whose numbers can be read, the comparison is the
    mixed one of `Comparing`;
  * `structure_names_preordered_iff`: it is a total preorder on the names of a list
    exactly when no name without a number stands between two numbered names that are
    ordered the other way; then the sorted lists do not depend on the order of the
    database.
-/
import ServerlessYarn.HostRemoval
import ServerlessYarn.Lib.Comparing
import ServerlessYarn.Texts
import Mathlib.Data.List.Lex
import Mathlib.Data.List.TakeWhile
import Mathlib.Data.Prod.Lex
import Mathlib.Data.String.Basic

namespace ServerlessYarn

open Comparing

/-! ## The comparison -/

/-- The digits at the end of a text. -/
def trailingDigits (s : List Char) : List Char := (s.reverse.takeWhile Char.isDigit).reverse

/-- `re.sub('.*?([0-9]*)$', r'\1', s)`: `.` stops at a line break, and `$` matches at the
    end and before a line break at the end, so that only the last line is replaced. -/
def numericId (s : List Char) : List Char :=
  let newline := if s.getLast? = some '\n' then ['\n'] else []
  let body := if s.getLast? = some '\n' then s.dropLast else s
  let last_line := (body.reverse.takeWhile (· ≠ '\n')).reverse
  let kept := body.take (body.length - last_line.length)
  kept ++ trailingDigits last_line ++ newline

/-- `cname[:-len(id)]`. -/
def basename (s : List Char) : List Char := s.take (s.length - (numericId s).length)

/-- `compareStructureNames`, on the names of the structures. -/
def compareStructureNames (r : IntReader) (cname1 cname2 : String) : Py ℤ :=
  let id1 := numericId cname1.toList
  let id2 := numericId cname2.toList
  let numbered := id1 ≠ [] ∧ id2 ≠ []
  let basename1 := if numbered then basename cname1.toList else cname1.toList
  let basename2 := if numbered then basename cname2.toList else cname2.toList
  if basename1 < basename2 then .ok (-1)
  else if basename2 < basename1 then .ok 1
  else if numbered then do
    let n1 ← readInt r id1
    let n2 ← readInt r id2
    return if n1 < n2 then -1 else if n2 < n1 then 1 else 0
  else .ok 0

example : compareStructureNames asciiReader "host9" "host10" = .ok (-1) := by decide +kernel

/-! ## What the comparison decides -/

/-- A name with a number is compared by what stands before it and by the number. -/
def nameKey (r : IntReader) (cname : String) : Option (List Char ×ₗ ℤ) :=
  if numericId cname.toList = [] then none
  else some (toLex (basename cname.toList, (readInt r (numericId cname.toList)).toOption.getD 0))

/-- The order of two names, by their keys or by their texts. -/
def NameLE (r : IntReader) (a b : String) : Prop := MixedLE String.toList (nameKey r) a b

instance (r : IntReader) (a b : String) : Decidable (NameLE r a b) :=
  inferInstanceAs (Decidable (MixedLE String.toList (nameKey r) a b))

/-- A name without a number stands, as a text, between two numbered names that are
    ordered the other way. -/
def NameBetween (r : IntReader) (x u y : String) : Prop := Between String.toList (nameKey r) x u y

theorem nameLE_total (r : IntReader) (a b : String) : NameLE r a b ∨ NameLE r b a :=
  mixedLE_total a b

theorem nameLE_trans_iff (r : IntReader) (names : List String) :
    (∀ a b c, a ∈ names → b ∈ names → c ∈ names → NameLE r a b → NameLE r b c → NameLE r a c) ↔
      ∀ x u y, x ∈ names → u ∈ names → y ∈ names → ¬ NameBetween r x u y :=
  mixedLE_trans_iff fun a b h => by rw [String.toList_inj.1 h]

-- the tactics would otherwise compute the keys
attribute [irreducible] NameLE

/-- The number of a name, if it has one, can be read. -/
def Readable (r : IntReader) (cname : String) : Prop :=
  numericId cname.toList ≠ [] → ∃ n, readInt r (numericId cname.toList) = .ok n

theorem compare_numbered {r : IntReader} {a b : String} {m n : ℤ}
    (ha : numericId a.toList ≠ []) (hb : numericId b.toList ≠ [])
    (hm : readInt r (numericId a.toList) = .ok m) (hn : readInt r (numericId b.toList) = .ok n) :
    compareStructureNames r a b =
      .ok (threeWay (toLex (basename a.toList, m)) (toLex (basename b.toList, n))) := by
  unfold compareStructureNames
  rw [threeWay_toLex]
  simp only [if_pos (And.intro ha hb), hm, hn]
  split_ifs <;> rfl

theorem compare_texts {r : IntReader} {a b : String}
    (h : ¬ (numericId a.toList ≠ [] ∧ numericId b.toList ≠ [])) :
    compareStructureNames r a b = .ok (threeWay a.toList b.toList) := by
  unfold compareStructureNames threeWay
  simp only [if_neg h]
  split_ifs <;> rfl

theorem nameKey_eq_some {r : IntReader} {a : String} {m : ℤ} (ha : numericId a.toList ≠ [])
    (hm : readInt r (numericId a.toList) = .ok m) :
    nameKey r a = some (toLex (basename a.toList, m)) := by
  unfold nameKey
  rw [if_neg ha, hm]
  rfl

theorem nameKey_eq_none {r : IntReader} {a : String} : nameKey r a = none ↔ numericId a.toList = [] := by
  unfold nameKey
  split_ifs with h
  · simp [h]
  · simp [h]

theorem numericId_of_plain {s : List Char} (h : '\n' ∉ s) : numericId s = trailingDigits s := by
  have hlast : s.getLast? ≠ some '\n' := fun hl => h (List.mem_of_getLast? hl)
  have hline : s.reverse.takeWhile (· ≠ '\n') = s.reverse := by
    refine List.takeWhile_eq_self_iff.2 fun c hc => ?_
    rw [List.mem_reverse] at hc
    exact decide_eq_true (fun hcn => h (hcn ▸ hc))
  unfold numericId
  simp only [if_neg hlast, hline, List.reverse_reverse, Nat.sub_self, List.take_zero, List.nil_append,
    List.append_nil]

/-- A name on one line that is not too long has a readable number, if it has one. -/
theorem readable_of_plain {r : IntReader} {a : String} (hline : '\n' ∉ a.toList)
    (hdecimal : ∀ c, c.isDigit = true → ∃ d, r.decimal c = some d)
    (hlength : ∀ m ∈ r.max_str_digits, a.toList.length ≤ m) : Readable r a := by
  intro hid
  rw [numericId_of_plain hline] at hid ⊢
  have hsub : (trailingDigits a.toList).length ≤ a.toList.length := by
    have htake := (List.takeWhile_sublist (l := a.toList.reverse) Char.isDigit).length_le
    rw [List.length_reverse] at htake
    rwa [trailingDigits, List.length_reverse]
  refine readInt_digits (fun c hc => ?_) hid hdecimal fun m hm => hsub.trans (hlength m hm)
  exact List.mem_takeWhile_imp (List.mem_reverse.1 hc)

/-- The comparison decides `NameLE`. -/
theorem compareStructureNames_ok {r : IntReader} {a b : String} (ha : Readable r a)
    (hb : Readable r b) :
    ∃ k, compareStructureNames r a b = .ok k ∧ compareStructureNames r b a = .ok (-k) ∧
      (k ≤ 0 ↔ NameLE r a b) := by
  unfold NameLE
  by_cases h : numericId a.toList ≠ [] ∧ numericId b.toList ≠ []
  · obtain ⟨m, hm⟩ := ha h.1
    obtain ⟨n, hn⟩ := hb h.2
    refine ⟨_, compare_numbered h.1 h.2 hm hn, ?_, ?_⟩
    · rw [compare_numbered h.2 h.1 hn hm, threeWay_swap]
    · rw [threeWay_nonpos_iff, mixedLE_some (nameKey_eq_some h.1 hm) (nameKey_eq_some h.2 hn)]
  · refine ⟨_, compare_texts h, ?_, ?_⟩
    · rw [compare_texts (fun h' => h ⟨h'.2, h'.1⟩), threeWay_swap]
    · rw [threeWay_nonpos_iff]
      by_cases hid : numericId a.toList = []
      · rw [mixedLE_none_left (nameKey_eq_none.2 hid)]
      · rw [mixedLE_none_right (nameKey_eq_none.2 (not_not.1 fun hne => h ⟨hid, hne⟩))]

/-- A name that is compared with itself has a readable number. -/
theorem readable_of_compare_self {r : IntReader} {a : String} {k : ℤ}
    (h : compareStructureNames r a a = .ok k) : Readable r a := by
  intro hid
  unfold compareStructureNames at h
  simp only [if_pos (And.intro hid hid), lt_irrefl, if_false] at h
  rw [bind_eq_ok] at h
  obtain ⟨n, hn, -⟩ := h
  exact ⟨n, hn⟩

/-! ## The lists of the views -/

/-- `functools.cmp_to_key(compareStructureNames)`: `<` on the structures. -/
def structureLess (r : IntReader) (a b : DbStructure) : Py Bool := do
  let k ← compareStructureNames r a.name b.name
  return decide (k < 0)

/-- `getHostsNames`, and the list of `getContainers`: the structures of one subtype,
    sorted.  (`sorted` is stable; an insertion sort decides what it does with a comparison
    that is no order.) -/
def sortedStructures (r : IntReader) (subtype : StructureSubtype) (data : List DbStructure) :
    Py (List DbStructure) :=
  sortBy (structureLess r) (data.filter fun item => item.subtype = subtype)

def getHostsNames (r : IntReader) (data : List DbStructure) : Py (List DbStructure) :=
  sortedStructures r .host data

/-- The names of a list are compared by a total preorder. -/
structure ComparedByPreorder (r : IntReader) (names : List String) : Prop where
  antisymm : ∀ a ∈ names, ∀ b ∈ names, ∃ k,
    compareStructureNames r a b = .ok k ∧ compareStructureNames r b a = .ok (-k)
  trans : ∀ a ∈ names, ∀ b ∈ names, ∀ c ∈ names, ∀ j k l : ℤ,
    compareStructureNames r a b = .ok j → compareStructureNames r b c = .ok k →
    compareStructureNames r a c = .ok l → j ≤ 0 → k ≤ 0 → l ≤ 0

theorem compareStructureNames_le {r : IntReader} {a b : String} {k : ℤ} (ha : Readable r a)
    (hb : Readable r b) (h : compareStructureNames r a b = .ok k) :
    k ≤ 0 ↔ NameLE r a b := by
  obtain ⟨j, hj, -, hle⟩ := compareStructureNames_ok ha hb
  rw [h] at hj
  cases hj
  exact hle

/-- **When the names are compared by a total preorder.** -/
theorem comparedByPreorder_iff (r : IntReader) (names : List String) :
    ComparedByPreorder r names ↔ (∀ a ∈ names, Readable r a) ∧
      ∀ x ∈ names, ∀ u ∈ names, ∀ y ∈ names, ¬ NameBetween r x u y := by
  have htrans := nameLE_trans_iff r names
  constructor
  · intro h
    have hread : ∀ a ∈ names, Readable r a := by
      intro a ha
      obtain ⟨k, hk, -⟩ := h.antisymm a ha a ha
      exact readable_of_compare_self hk
    refine ⟨hread, fun x hx u hu y hy => htrans.1 ?_ x u y hx hu hy⟩
    intro a b c ha hb hc hab hbc
    obtain ⟨j, hj, -, hjle⟩ := compareStructureNames_ok (hread a ha) (hread b hb)
    obtain ⟨k, hk, -, hkle⟩ := compareStructureNames_ok (hread b hb) (hread c hc)
    obtain ⟨l, hl, -, hlle⟩ := compareStructureNames_ok (hread a ha) (hread c hc)
    exact hlle.1 (h.trans a ha b hb c hc j k l hj hk hl (hjle.2 hab) (hkle.2 hbc))
  · rintro ⟨hread, hbetween⟩
    refine ⟨fun a ha b hb => ?_, ?_⟩
    · obtain ⟨k, hk, hk', -⟩ := compareStructureNames_ok (hread a ha) (hread b hb)
      exact ⟨k, hk, hk'⟩
    · intro a ha b hb c hc j k l hj hk hl hj0 hk0
      rw [compareStructureNames_le (hread a ha) (hread b hb) hj] at hj0
      rw [compareStructureNames_le (hread b hb) (hread c hc) hk] at hk0
      rw [compareStructureNames_le (hread a ha) (hread c hc) hl]
      exact htrans.2 (fun x u y hx hu hy => hbetween x hx u hu y hy) a b c ha hb hc hj0 hk0

theorem structureLess_eq {r : IntReader} {a b : DbStructure} (ha : Readable r a.name)
    (hb : Readable r b.name) : structureLess r a b = .ok (decide ¬ NameLE r b.name a.name) := by
  obtain ⟨k, hk, hk', -⟩ := compareStructureNames_ok ha hb
  have hle : -k ≤ 0 ↔ NameLE r b.name a.name := compareStructureNames_le hb ha hk'
  unfold structureLess
  rw [hk]
  refine congrArg Except.ok (decide_eq_decide.2 ?_)
  rw [← hle]
  omega

/-- The sorted structures: a sorted permutation, the same up to equivalent names for
    every order of the database. -/
theorem sortedStructures_ok {r : IntReader} {names : List String} (h : ComparedByPreorder r names)
    (subtype : StructureSubtype) {data data' : List DbStructure}
    (hnames : ∀ item ∈ data, item.subtype = subtype → item.name ∈ names) (hperm : data.Perm data') :
    ∃ out out', sortedStructures r subtype data = .ok out ∧
      sortedStructures r subtype data' = .ok out' ∧
      out.Perm (data.filter fun item => item.subtype = subtype) ∧
      out.Pairwise (fun a b => ∃ k ≤ 0, compareStructureNames r a.name b.name = .ok k) ∧
      List.Forall₂ (fun a b => compareStructureNames r a.name b.name = .ok 0) out out' := by
  obtain ⟨hread, hbetween⟩ := (comparedByPreorder_iff r names).1 h
  have hcompare {a b : DbStructure} (ha : a.name ∈ names) (hb : b.name ∈ names)
      (hab : NameLE r a.name b.name) : ∃ k ≤ 0, compareStructureNames r a.name b.name = .ok k := by
    obtain ⟨k, hk, -, hle⟩ := compareStructureNames_ok (hread _ ha) (hread _ hb)
    exact ⟨k, hle.2 hab, hk⟩
  have htotal : ∀ a b : DbStructure, a.name ∈ names → b.name ∈ names →
      NameLE r a.name b.name ∨ NameLE r b.name a.name := fun a b _ _ => nameLE_total r a.name b.name
  have htrans : ∀ a b c : DbStructure, a.name ∈ names → b.name ∈ names → c.name ∈ names →
      NameLE r a.name b.name → NameLE r b.name c.name → NameLE r a.name c.name := by
    intro a b c ha hb hc
    exact (nameLE_trans_iff r names).2 (fun x u y hx hu hy => hbetween x hx u hu y hy)
      a.name b.name c.name ha hb hc
  have hlt : ∀ a b : DbStructure, a.name ∈ names → b.name ∈ names →
      structureLess r a b = .ok (decide ¬ NameLE r b.name a.name) :=
    fun a b ha hb => structureLess_eq (hread _ ha) (hread _ hb)
  have hfilter : ∀ a ∈ data.filter (fun item => item.subtype = subtype), a.name ∈ names := by
    intro a ha
    rw [List.mem_filter] at ha
    exact hnames a ha.1 (of_decide_eq_true ha.2)
  have hperm' := hperm.filter fun item : DbStructure => item.subtype = subtype
  obtain ⟨out, hout, houtperm, hpair⟩ := sortBy_ok htotal htrans hlt hfilter
  obtain ⟨out', hout', houtperm', hpair'⟩ :=
    sortBy_ok htotal htrans hlt fun a ha => hfilter a (hperm'.mem_iff.2 ha)
  have hmem : ∀ a ∈ out, a.name ∈ names := fun a ha => hfilter a (houtperm.mem_iff.1 ha)
  refine ⟨out, out', hout, hout', houtperm, ?_, ?_⟩
  · exact hpair.imp_of_mem fun ha hb hab => hcompare (hmem _ ha) (hmem _ hb) hab
  · have hsame := houtperm.trans (hperm'.trans houtperm'.symm)
    have hequiv := forall₂_of_perm htotal htrans hmem hsame hpair hpair'
    rw [List.forall₂_iff_zip] at hequiv ⊢
    refine ⟨hequiv.1, fun hab => ?_⟩
    obtain ⟨hle, hge⟩ := hequiv.2 hab
    have ha := hread _ (hmem _ (List.of_mem_zip hab).1)
    have hb := hread _ (hmem _ (hsame.mem_iff.2 (List.of_mem_zip hab).2))
    obtain ⟨k, hk, hk', hkle⟩ := compareStructureNames_ok ha hb
    have hk0 := hkle.2 hle
    have hk0' := (compareStructureNames_le hb ha hk').2 hge
    rw [hk, show k = 0 by omega]

/-- **The order of the structure names**: a total preorder on the names of a list exactly
    when their numbers can be read and no name without a number stands between two
    numbered names that their numbers order the other way; and then the views list the
    structures sorted, whatever the order of the database. -/
theorem structure_names_preordered_iff (r : IntReader) (names : List String) :
    (ComparedByPreorder r names ↔ (∀ a ∈ names, Readable r a) ∧
      ∀ x ∈ names, ∀ u ∈ names, ∀ y ∈ names, ¬ NameBetween r x u y) ∧
    (ComparedByPreorder r names → ∀ subtype (data data' : List DbStructure),
      (∀ item ∈ data, item.subtype = subtype → item.name ∈ names) → data.Perm data' →
      ∃ out out', sortedStructures r subtype data = .ok out ∧
        sortedStructures r subtype data' = .ok out' ∧
        out.Perm (data.filter fun item => item.subtype = subtype) ∧
        out.Pairwise (fun a b => ∃ k ≤ 0, compareStructureNames r a.name b.name = .ok k) ∧
        List.Forall₂ (fun a b => compareStructureNames r a.name b.name = .ok 0) out out') :=
  ⟨comparedByPreorder_iff r names, fun h subtype _ _ hnames hperm =>
    sortedStructures_ok h subtype hnames hperm⟩

/-- `host9 < host10` by the numbers, but `host10 < host1a < host9` as texts. -/
theorem structure_names_cycle :
    ¬ ∀ a b c : String, (∃ k, compareStructureNames asciiReader a b = .ok k ∧
        compareStructureNames asciiReader b a = .ok (-k)) ∧
      ∀ j k l : ℤ, compareStructureNames asciiReader a b = .ok j →
        compareStructureNames asciiReader b c = .ok k →
        compareStructureNames asciiReader a c = .ok l → j ≤ 0 → k ≤ 0 → l ≤ 0 := by
  intro h
  have hcycle := (h "host9" "host10" "host1a").2 (-1) (-1) 1 (by decide +kernel) (by decide +kernel)
    (by decide +kernel) (by decide) (by decide)
  exact absurd hcycle (by decide)

end ServerlessYarn
