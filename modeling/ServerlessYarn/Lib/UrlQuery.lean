/-
  The query of a URL: texts in percent-encoding, and the pairs of names and values.

  A text is quoted byte by byte, in UTF-8.  A query is read as `urllib.parse` did it while a `;`
  still separated fields: a `+` is a blank, an escape that is none stays as it is, and what is
  not UTF-8 is repaired in a way that is left open.

  * `unquote_quote`: a quoted text reads as itself;
  * `parseQsl_render`: the pairs that are written into a query are the ones that are read.
-/
import Mathlib.Data.List.Basic

namespace UrlQuery

/-! ## Bytes and characters -/

def encode (s : List Char) : List UInt8 := s.flatMap String.utf8EncodeChar

/-- `repair` is for what is not UTF-8. -/
def decode (repair : List UInt8 → List Char) (bytes : List UInt8) : List Char :=
  match bytes.toByteArray.utf8Decode? with
  | some cs => cs.toList
  | none => repair bytes

theorem decode_encode (repair : List UInt8 → List Char) (s : List Char) : decode repair (encode s) = s := by
  have h : (encode s).toByteArray = s.utf8Encode := by rw [encode, List.utf8Encode]
  rw [decode, h, List.utf8Decode?_utf8Encode]

/-! ## Writing -/

/-- Letters, digits and `_.-~/` stand for themselves. -/
def isSafe (b : UInt8) : Bool :=
  (48 ≤ b.toNat && b.toNat ≤ 57) || (65 ≤ b.toNat && b.toNat ≤ 90) || (97 ≤ b.toNat && b.toNat ≤ 122) ||
    b.toNat = 95 || b.toNat = 46 || b.toNat = 45 || b.toNat = 126 || b.toNat = 47

def hexDigit (n : ℕ) : Char := if n < 10 then Char.ofNat (48 + n) else Char.ofNat (55 + n)

def quoteByte (b : UInt8) : List Char :=
  if isSafe b then [Char.ofNat b.toNat] else ['%', hexDigit (b.toNat / 16), hexDigit (b.toNat % 16)]

/-- `urllib.parse.quote` -/
def quote (s : List Char) : List Char := (encode s).flatMap quoteByte

/-- A query with the pairs in it. -/
def render (pairs : List (List Char × List Char)) : List Char :=
  List.intercalate ['&'] (pairs.map fun p => quote p.1 ++ '=' :: quote p.2)

/-! ## Reading -/

def hexValue (c : Char) : Option ℕ :=
  if '0' ≤ c ∧ c ≤ '9' then some (c.toNat - 48)
  else if 'A' ≤ c ∧ c ≤ 'F' then some (c.toNat - 55)
  else if 'a' ≤ c ∧ c ≤ 'f' then some (c.toNat - 87)
  else none

/-- `unquote_to_bytes`, for ASCII characters -/
def percentDecode : List Char → List UInt8
  | '%' :: a :: b :: rest =>
    match hexValue a, hexValue b with
    | some x, some y => UInt8.ofNat (16 * x + y) :: percentDecode rest
    | _, _ => UInt8.ofNat '%'.toNat :: percentDecode (a :: b :: rest)
  | c :: rest => UInt8.ofNat c.toNat :: percentDecode rest
  | [] => []

def isAscii (c : Char) : Bool := c.toNat < 128

/-- `unquote`, with the ASCII characters that have been read and not yet decoded -/
def unquoteFrom (repair : List UInt8 → List Char) (run : List Char) : List Char → List Char
  | [] => decode repair (percentDecode run)
  | c :: cs =>
    if isAscii c then unquoteFrom repair (run ++ [c]) cs
    else decode repair (percentDecode run) ++ c :: unquoteFrom repair [] cs

/-- `unquote(s.replace('+', ' '))` -/
def unquote (repair : List UInt8 → List Char) (s : List Char) : List Char :=
  unquoteFrom repair [] (s.map fun c => if c = '+' then ' ' else c)

/-- One field of a query. -/
def readField (repair : List UInt8 → List Char) (field : List Char) : List Char × List Char :=
  (unquote repair (field.takeWhile (· ≠ '=')), unquote repair (field.dropWhile (· ≠ '=')).tail)

def isSeparator (c : Char) : Bool := c = '&' || c = ';'

/-- `parse_qsl(qs, keep_blank_values=True, max_num_fields=…)`: `none` when there are too many fields -/
def parseQsl (repair : List UInt8 → List Char) (max_num_fields : ℕ) (qs : List Char) :
    Option (List (List Char × List Char)) :=
  if max_num_fields < 1 + qs.countP isSeparator then none
  else some (((qs.splitOnP isSeparator).filter (· ≠ [])).map (readField repair))

/-- `getlist` of a query: the values of a name. -/
def getlist (pairs : List (List Char × List Char)) (name : List Char) : List (List Char) :=
  (pairs.filter (·.1 = name)).map Prod.snd

/-! ## A quoted text reads as itself -/

theorem hexValue_hexDigit : ∀ n < 16, hexValue (hexDigit n) = some n := by decide

/-- What a quoted text is made of. -/
def IsQuoted (c : Char) : Prop := isAscii c = true ∧ c ≠ '+' ∧ isSeparator c = false ∧ c ≠ '='

theorem isQuoted_hexDigit : ∀ n < 16, isAscii (hexDigit n) = true ∧ hexDigit n ≠ '+' ∧
    isSeparator (hexDigit n) = false ∧ hexDigit n ≠ '=' := by decide

/-- The bytes that stand for themselves are ASCII, and none of the characters that mean something. -/
theorem isSafe_spec {b : UInt8} (hb : isSafe b = true) :
    b.toNat < 128 ∧ b.toNat ≠ 37 ∧ b.toNat ≠ 38 ∧ b.toNat ≠ 59 ∧ b.toNat ≠ 43 ∧ b.toNat ≠ 61 := by
  simp only [isSafe, Bool.or_eq_true, Bool.and_eq_true, decide_eq_true_eq] at hb
  omega

theorem toNat_ofNat_lt {n : ℕ} (hn : n < 128) : (Char.ofNat n).toNat = n := by
  have hvalid : n.isValidChar := Or.inl (by omega)
  rw [Char.ofNat, dif_pos hvalid]
  rfl

theorem ofNat_ne {n : ℕ} (hn : n < 128) {c : Char} (hc : n ≠ c.toNat) : Char.ofNat n ≠ c := by
  rintro rfl
  exact hc (toNat_ofNat_lt hn).symm

theorem isQuoted_of_mem_quoteByte {b : UInt8} {c : Char} (hc : c ∈ quoteByte b) : IsQuoted c := by
  unfold quoteByte at hc
  split_ifs at hc with hb
  · obtain ⟨hascii, -, hamp, hsemicolon, hplus, heq⟩ := isSafe_spec hb
    rw [List.mem_singleton] at hc
    subst hc
    have hne : Char.ofNat b.toNat ≠ '&' ∧ Char.ofNat b.toNat ≠ ';' :=
      ⟨ofNat_ne hascii hamp, ofNat_ne hascii hsemicolon⟩
    refine ⟨?_, ofNat_ne hascii hplus, by simp [isSeparator, hne], ofNat_ne hascii heq⟩
    rw [isAscii, toNat_ofNat_lt hascii]
    exact decide_eq_true hascii
  · have hlt := b.toNat_lt
    simp only [List.mem_cons, List.not_mem_nil, or_false] at hc
    rcases hc with rfl | rfl | rfl
    · exact ⟨rfl, by decide, by decide, by decide⟩
    · exact isQuoted_hexDigit _ (by omega)
    · exact isQuoted_hexDigit _ (by omega)

theorem isQuoted_of_mem_quote {s : List Char} {c : Char} (hc : c ∈ quote s) : IsQuoted c := by
  obtain ⟨b, -, hcb⟩ := List.mem_flatMap.1 hc
  exact isQuoted_of_mem_quoteByte hcb

theorem percentDecode_cons {c : Char} (hc : c ≠ '%') (rest : List Char) :
    percentDecode (c :: rest) = UInt8.ofNat c.toNat :: percentDecode rest := by
  rw [percentDecode]
  rintro a b rest' rfl
  exact absurd rfl hc

theorem percentDecode_quoteByte (b : UInt8) (rest : List Char) :
    percentDecode (quoteByte b ++ rest) = b :: percentDecode rest := by
  unfold quoteByte
  split_ifs with hb
  · obtain ⟨hascii, hpercent, -⟩ := isSafe_spec hb
    rw [List.singleton_append, percentDecode_cons (ofNat_ne hascii hpercent), toNat_ofNat_lt hascii,
      UInt8.ofNat_toNat]
  · have hlt := b.toNat_lt
    have hhigh := hexValue_hexDigit (b.toNat / 16) (by omega)
    have hlow := hexValue_hexDigit (b.toNat % 16) (by omega)
    simp only [List.cons_append, List.nil_append, percentDecode, hhigh, hlow]
    rw [Nat.div_add_mod, UInt8.ofNat_toNat]

theorem percentDecode_flatMap (bytes : List UInt8) : percentDecode (bytes.flatMap quoteByte) = bytes := by
  induction bytes with
  | nil => rfl
  | cons b bytes ih => rw [List.flatMap_cons, percentDecode_quoteByte, ih]

theorem unquoteFrom_ascii (repair : List UInt8 → List Char) {s : List Char} (hs : ∀ c ∈ s, isAscii c = true)
    (run : List Char) : unquoteFrom repair run s = decode repair (percentDecode (run ++ s)) := by
  induction s generalizing run with
  | nil => rw [unquoteFrom, List.append_nil]
  | cons c s ih =>
    rw [unquoteFrom, if_pos (hs c List.mem_cons_self), ih fun d hd => hs d (List.mem_cons_of_mem _ hd),
      List.append_assoc, List.singleton_append]

/-- **A quoted text reads as itself.** -/
theorem unquote_quote (repair : List UInt8 → List Char) (s : List Char) : unquote repair (quote s) = s := by
  have hplus : (quote s).map (fun c => if c = '+' then ' ' else c) = quote s :=
    (List.map_congr_left fun c hc => if_neg (isQuoted_of_mem_quote hc).2.1).trans (List.map_id _)
  rw [unquote, hplus, unquoteFrom_ascii repair fun c hc => (isQuoted_of_mem_quote hc).1, List.nil_append, quote,
    percentDecode_flatMap, decode_encode]

/-! ## What is written into a query is read -/

theorem readField_quote (repair : List UInt8 → List Char) (name value : List Char) :
    readField repair (quote name ++ '=' :: quote value) = (name, value) := by
  have hname : ∀ c ∈ quote name, decide (c ≠ '=') = true :=
    fun c hc => decide_eq_true (isQuoted_of_mem_quote hc).2.2.2
  rw [readField, List.takeWhile_append_of_pos hname, List.dropWhile_append_of_pos hname,
    List.takeWhile_cons_of_neg (by decide), List.dropWhile_cons_of_neg (by decide), List.append_nil, List.tail_cons,
    unquote_quote, unquote_quote]

/-- What is written for a pair. -/
def field (p : List Char × List Char) : List Char := quote p.1 ++ '=' :: quote p.2

theorem separator_not_mem_field (p : List Char × List Char) : ∀ c ∈ field p, isSeparator c = false := by
  intro c hc
  rcases List.mem_append.1 hc with h | h
  · exact (isQuoted_of_mem_quote h).2.2.1
  · rcases List.mem_cons.1 h with rfl | h
    · rfl
    · exact (isQuoted_of_mem_quote h).2.2.1

theorem render_cons_cons (p p' : List Char × List Char) (pairs : List (List Char × List Char)) :
    render (p :: p' :: pairs) = field p ++ '&' :: render (p' :: pairs) := by
  simp [render, field, List.intercalate]

theorem countP_render (pairs : List (List Char × List Char)) :
    (render pairs).countP isSeparator = pairs.length - 1 := by
  have hfield : ∀ p, (field p).countP isSeparator = 0 := fun p =>
    List.countP_eq_zero.2 fun c hc => by simp [separator_not_mem_field p c hc]
  induction pairs with
  | nil => rfl
  | cons p pairs ih =>
    cases pairs with
    | nil => simpa [render, field] using hfield p
    | cons p' pairs =>
      rw [render_cons_cons, List.countP_append, hfield, List.countP_cons_of_pos (by rfl), ih]
      simp

theorem splitOnP_render (p : List Char × List Char) (pairs : List (List Char × List Char)) :
    (render (p :: pairs)).splitOnP isSeparator = (p :: pairs).map field := by
  induction pairs generalizing p with
  | nil =>
    have hone : render [p] = field p := by simp [render, field]
    rw [hone, List.splitOnP_eq_singleton (separator_not_mem_field p), List.map_singleton]
  | cons p' pairs ih =>
    rw [render_cons_cons, List.splitOnP_append_cons_of_forall_mem (separator_not_mem_field p) '&' rfl, ih]
    rfl

/-- **The pairs that are written into a query are the ones that are read**, if they are not too many. -/
theorem parseQsl_render (repair : List UInt8 → List Char) {max_num_fields : ℕ}
    {pairs : List (List Char × List Char)} (hmax : pairs.length ≤ max_num_fields) (hpos : 0 < max_num_fields) :
    parseQsl repair max_num_fields (render pairs) = some pairs := by
  rw [parseQsl, if_neg (by rw [countP_render]; omega)]
  cases pairs with
  | nil => rfl
  | cons p pairs =>
    have hne : ∀ f ∈ (p :: pairs).map field, decide (f ≠ []) = true := by
      intro f hf
      obtain ⟨q, -, rfl⟩ := List.mem_map.1 hf
      simp [field]
    rw [splitOnP_render, List.filter_eq_self.2 hne, List.map_map]
    congr 1
    exact (List.map_congr_left fun q _ => readField_quote repair q.1 q.2).trans (List.map_id _)

/-- More pairs than a query may have are refused. -/
theorem parseQsl_render_of_lt (repair : List UInt8 → List Char) {max_num_fields : ℕ}
    {pairs : List (List Char × List Char)} (hmax : max_num_fields < pairs.length) :
    parseQsl repair max_num_fields (render pairs) = none := by
  rw [parseQsl, if_pos (by rw [countP_render]; omega)]

end UrlQuery
