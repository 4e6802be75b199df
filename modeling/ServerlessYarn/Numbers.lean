/-
  ServerlessYARN model — the numbers of the Python code.

  A number is an `int` or a `float`.  An operation on an `int` and a `float` first
  converts the `int`; comparisons are exact.  The functions are written for any
  arithmetic of `float`s: that of Python, which are doubles, or exact rationals.

  * `Arithmetic`, `doubleArithmetic`, `exactArithmetic`: the operations on `float`s;
  * `Arithmetic.minus`, `Arithmetic.times`, `Arithmetic.dividedBy`: those on numbers;
  * `Floats`: a rounding of results that are in range, `doubles` or `exactFloats`.
-/
import ServerlessYarn.Lib.Binary64
import ServerlessYarn.Resources

namespace ServerlessYarn

open Binary64 Rounding

/-- A number: an `int` or a `float`. -/
inductive Number (F : Type) where
  | int (z : ℤ)
  | float (x : F)
deriving DecidableEq

/-- `isinstance(x, int)`. -/
def Number.isInt {F : Type} : Number F → Bool
  | .int _ => true
  | .float _ => false

/-! ## Floats -/

/-- An arithmetic of `float`s. -/
structure Arithmetic (F : Type) where
  /-- A number that the program writes. -/
  literal : ℚ → F
  /-- `float(z)` -/
  ofInt : ℤ → Py F
  /-- `x / y`, for `int`s -/
  quotient : ℤ → ℤ → Py F
  add : F → F → F
  sub : F → F → F
  mul : F → F → F
  /-- `x / y` -/
  div : F → F → Py F
  /-- `x % m`, for a positive number that the program writes -/
  mod : F → ℕ → F
  /-- `x == 0` -/
  eqZero : F → Bool
  /-- `x < y` -/
  lt : F → F → Bool
  /-- `x <= y` -/
  le : F → F → Bool
  /-- `int(x)` -/
  truncated : F → Py ℤ
  /-- `round(x)` -/
  rounded : F → Py ℤ

/-- `float`s that are exact rationals. -/
def exactArithmetic : Arithmetic ℚ where
  literal q := q
  ofInt z := .ok z
  quotient x y := if y = 0 then .error .zeroDivisionError else .ok (x / y)
  add x y := x + y
  sub x y := x - y
  mul x y := x * y
  div x y := if y = 0 then .error .zeroDivisionError else .ok (x / y)
  mod x m := x - m * ⌊x / m⌋
  eqZero x := x = 0
  lt x y := x < y
  le x y := x ≤ y
  truncated x := .ok (truncate x)
  rounded x := .ok (roundHalfEven x)

/-- The result of an operation that raises when it is out of range. -/
def floatOfResult (q : ℚ) : Py Double :=
  if Converts q then .ok (.finite (nearest q)) else .error .overflowError

/-- The integer that a rule makes of a `float`, if it is finite. -/
def intOfFloat (toInt : ℚ → ℤ) : Double → Py ℤ
  | .finite q => .ok (toInt q)
  | .infinite _ => .error .overflowError
  | .nan => .error .valueError

/-- The `float`s of Python. -/
def doubleArithmetic : Arithmetic Double where
  literal := Double.ofResult
  ofInt z := floatOfResult z
  quotient x y := if y = 0 then .error .zeroDivisionError else floatOfResult (x / y)
  add := Double.add
  sub := Double.sub
  mul := Double.mul
  div x y := if y = .finite 0 then .error .zeroDivisionError else .ok (x.div y)
  mod := Double.mod
  eqZero x := x = .finite 0
  lt := Double.lt
  le := Double.le
  truncated := intOfFloat truncate
  rounded := intOfFloat roundHalfEven

section
variable {x y : ℚ} {z w : ℤ}

theorem doubles_quotient (hw : w ≠ 0) (h : Converts ((z : ℚ) / w)) :
    doubleArithmetic.quotient z w = .ok (.finite (nearest ((z : ℚ) / w))) := (if_neg hw).trans (if_pos h)

theorem doubles_quotient_error (hw : w ≠ 0) (h : ¬ Converts ((z : ℚ) / w)) :
    doubleArithmetic.quotient z w = .error .overflowError := (if_neg hw).trans (if_neg h)

theorem doubles_ofInt (h : Converts z) : doubleArithmetic.ofInt z = .ok (.finite (nearest z)) := if_pos h

theorem doubles_ofInt_error (h : ¬ Converts z) : doubleArithmetic.ofInt z = .error .overflowError :=
  if_neg h

theorem doubles_lt : doubleArithmetic.lt (.finite x) (.finite y) = true ↔ x < y :=
  Double.finite_lt_finite

theorem doubles_le : doubleArithmetic.le (.finite x) (.finite y) = true ↔ x ≤ y :=
  Double.finite_le_finite

theorem doubles_eqZero : doubleArithmetic.eqZero (.finite x) = true ↔ x = 0 := by
  simp [doubleArithmetic]

theorem doubles_mod (hx : 0 ≤ x) (m : ℕ) :
    doubleArithmetic.mod (.finite x) m = .finite (x - m * ⌊x / m⌋) := by
  have hfloor : truncate (x / m) = ⌊x / m⌋ := truncate_of_nonneg (by positivity)
  have hnonneg : 0 ≤ x - m * ⌊x / m⌋ := by
    rcases Nat.eq_zero_or_pos m with rfl | hm
    · simpa using hx
    · have hm' : (0 : ℚ) < m := by exact_mod_cast hm
      have hle := (le_div_iff₀ hm').1 (Int.floor_le (x / m))
      linarith
  change Double.mod (.finite x) m = _
  rw [Double.mod, hfloor, if_neg hnonneg.not_gt]

theorem doubles_literal (hz : |z| ≤ 2 ^ 53) : doubleArithmetic.literal z = .finite z := by
  have hz' : |(z : ℚ)| ≤ 2 ^ 53 := by exact_mod_cast hz
  refine (Double.ofResult_of_le (hz'.trans (pow_le_pow_right₀ one_le_two (by norm_num)))).trans ?_
  rw [nearest_intCast hz]

end

/-! ## Operations on numbers -/

namespace Arithmetic
variable {F : Type} (a : Arithmetic F)

/-- `float(x)` -/
def toFloat : Number F → Py F
  | .int z => a.ofInt z
  | .float x => .ok x

/-- `x - y` -/
def minus : Number F → Number F → Py (Number F)
  | .int x, .int y => .ok (.int (x - y))
  | x, y => do
    let x ← a.toFloat x
    let y ← a.toFloat y
    return .float (a.sub x y)

/-- `x * y` -/
def times : Number F → Number F → Py (Number F)
  | .int x, .int y => .ok (.int (x * y))
  | x, y => do
    let x ← a.toFloat x
    let y ← a.toFloat y
    return .float (a.mul x y)

/-- `x / y` -/
def dividedBy : Number F → Number F → Py F
  | .int x, .int y => a.quotient x y
  | x, y => do
    let x ← a.toFloat x
    let y ← a.toFloat y
    a.div x y

/-- `2 ** k` -/
def powTwo (k : ℤ) : Py (Number F) :=
  if 0 ≤ k then .ok (.int (2 ^ k.toNat))
  else do
    let _ ← a.ofInt k
    return .float (a.literal (2 ^ k))

/-- `round(x)` -/
def round : Number F → Py ℤ
  | .int z => .ok z
  | .float x => a.rounded x

end Arithmetic

namespace Number

/-- The number as it is compared: an `int` is not rounded. -/
def compared : Number Double → Double
  | .int z => .finite z
  | .float d => d

/-- `x <= y` -/
def le (x y : Number Double) : Bool := x.compared.le y.compared

/-- `max(x, y)`: the first one, unless the second one is greater. -/
def max (x y : Number Double) : Number Double := if x.compared.lt y.compared then y else x

end Number

/-! ## Results in range -/

/-- A rounding of results, and the results that are in range. -/
structure Floats where
  round : ℚ → ℚ
  inRange : ℚ → Bool

/-- The `float`s of Python. -/
def doubles : Floats where
  round := nearest
  inRange q := Converts q

/-- `float`s that are exact rationals. -/
def exactFloats : Floats where
  round q := q
  inRange _ := true

namespace Floats
variable (a : Floats)

/-- The result of an operation. -/
def result (q : ℚ) : Py ℚ := if a.inRange q then .ok (a.round q) else .error .overflowError

/-- `x / y` -/
def div (x y : ℚ) : Py ℚ := if y = 0 then .error .zeroDivisionError else a.result (x / y)

end Floats

@[simp] theorem exactFloats_round (q : ℚ) : exactFloats.round q = q := rfl

@[simp] theorem exactFloats_result (q : ℚ) : exactFloats.result q = .ok q := rfl

@[simp] theorem exactFloats_div {x y : ℚ} (h : y ≠ 0) : exactFloats.div x y = .ok (x / y) := if_neg h

@[simp] theorem doubles_round (q : ℚ) : doubles.round q = nearest q := rfl

theorem doubles_result {q : ℚ} (h : Converts q) : doubles.result q = .ok (nearest q) :=
  if_pos (decide_eq_true h)

theorem doubles_result_error {q : ℚ} (h : ¬ Converts q) : doubles.result q = .error .overflowError :=
  if_neg fun hconv => h (of_decide_eq_true hconv)

theorem doubles_div {x y : ℚ} (h : y ≠ 0) (hconv : Converts (x / y)) :
    doubles.div x y = .ok (nearest (x / y)) := (if_neg h).trans (doubles_result hconv)

end ServerlessYarn
