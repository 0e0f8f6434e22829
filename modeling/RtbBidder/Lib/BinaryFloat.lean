import Mathlib.Data.Int.Log
import Mathlib.Tactic

/-! Binary floating point: rounding a natural number or a rational one to the nearest
with a `p`-bit significand, and the values of a format with their arithmetic and their
order, up to the sign of zero. -/

namespace Lib

/-- Round to nearest, ties to even, at a precision of `p` bits. -/
def roundEven (p n : ℕ) : ℕ :=
  let ulp := 2 ^ (n.log2 + 1 - p)
  let m := n / ulp
  let r := n % ulp
  if ulp < 2 * r ∨ 2 * r = ulp ∧ m % 2 = 1 then (m + 1) * ulp else m * ulp

theorem roundEven_le_two_mul (p n : ℕ) : roundEven p n ≤ 2 * n := by
  simp only [roundEven]
  generalize 2 ^ (n.log2 + 1 - p) = ulp
  have hn : n / ulp * ulp + n % ulp = n := Nat.div_add_mod' n ulp
  split_ifs with h
  · rw [Nat.add_mul, Nat.one_mul]
    omega
  · omega

/-- The nearest integer, ties to even. -/
def halfEven (x : ℚ) : ℤ :=
  let m := ⌊x⌋
  let r := x - m
  if 1 / 2 < r ∨ r = 1 / 2 ∧ m % 2 = 1 then m + 1 else m

/-- Round to nearest, ties to even, at a precision of `p` bits: `emin` is the exponent of
the least positive value, and there is no result from `2 ^ (emax + 1)` on. -/
def roundRat (p : ℕ) (emin emax : ℤ) (q : ℚ) : Option ℚ :=
  let ulp : ℚ := 2 ^ max (Int.log 2 |q| + 1 - p) emin
  let r := halfEven (q / ulp) * ulp
  if |r| < 2 ^ (emax + 1) then some r else none

example : roundRat 24 (-149) 127 (1 / 10) = some (13421773 / 134217728) := by decide +kernel

/-- A format: the bits of the significand, the exponent of the least positive value, and
the exponent of the largest values. Small natural numbers are among its values. -/
structure Format where
  precision : ℕ
  emin : ℤ
  emax : ℤ
  precision_pos : 0 < precision
  emin_nonpos : emin ≤ 0
  precision_le : precision ≤ emax + 1

def Format.binary32 : Format := ⟨24, -149, 127, by norm_num, by norm_num, by norm_num⟩

def Format.binary64 : Format := ⟨53, -1074, 1023, by norm_num, by norm_num, by norm_num⟩

/-- A value of a format, up to the sign of zero. -/
inductive Binary (f : Format)
  | nan
  | negInf
  | fin (q : ℚ)
  | posInf
  deriving DecidableEq, Repr

abbrev F32 := Binary .binary32

abbrev F64 := Binary .binary64

namespace Binary

variable {f g : Format}

section Order

def partialCmp : Binary f → Binary f → Option Ordering
  | .nan, _ => none
  | _, .nan => none
  | .negInf, .negInf => some .eq
  | .negInf, _ => some .lt
  | _, .negInf => some .gt
  | .posInf, .posInf => some .eq
  | .posInf, _ => some .gt
  | _, .posInf => some .lt
  | .fin a, .fin b => some (compare a b)

/-- `x > q`, false for a NaN. -/
def gt : Binary f → ℚ → Bool
  | .nan, _ => false
  | .negInf, _ => false
  | .fin x, q => q < x
  | .posInf, _ => true

/-- `x >= y`, false with a NaN. -/
def ge (x y : Binary f) : Bool := (x.partialCmp y).any (· ≠ .lt)

/-- The lesser of two, or the one that is a number. -/
def min (x y : Binary f) : Binary f :=
  if x = .nan then y else if x.partialCmp y = some .gt then y else x

/-- A NaN stays one. -/
def clamp (x lo hi : Binary f) : Binary f :=
  if x.partialCmp lo = some .lt then lo
  else if x.partialCmp hi = some .gt then hi
  else x

/-- The place of a value in the order; a NaN has none. -/
def rank : Binary f → WithBot (WithTop ℚ)
  | .nan => ⊥
  | .negInf => ⊥
  | .fin q => ((q : WithTop ℚ) : WithBot (WithTop ℚ))
  | .posInf => ((⊤ : WithTop ℚ) : WithBot (WithTop ℚ))

theorem partialCmp_eq {a b : Binary f} (ha : a ≠ .nan) (hb : b ≠ .nan) :
    a.partialCmp b = some (compare a.rank b.rank) := by
  have hbot : ∀ q : ℚ, compare ⊥ ((q : WithTop ℚ) : WithBot (WithTop ℚ)) = .lt :=
    fun q => compare_lt_iff_lt.2 (WithBot.bot_lt_coe _)
  have hbot' : ∀ q : ℚ, compare ((q : WithTop ℚ) : WithBot (WithTop ℚ)) ⊥ = .gt :=
    fun q => compare_gt_iff_gt.2 (WithBot.bot_lt_coe _)
  have htop : ∀ q : ℚ, compare ((q : WithTop ℚ) : WithBot (WithTop ℚ)) ⊤ = .lt :=
    fun q => compare_lt_iff_lt.2 (WithBot.coe_lt_coe.2 (WithTop.coe_lt_top q))
  have htop' : ∀ q : ℚ, compare ⊤ ((q : WithTop ℚ) : WithBot (WithTop ℚ)) = .gt :=
    fun q => compare_gt_iff_gt.2 (WithBot.coe_lt_coe.2 (WithTop.coe_lt_top q))
  have hends : compare (⊥ : WithBot (WithTop ℚ)) ⊤ = .lt := compare_lt_iff_lt.2 bot_lt_top
  have hends' : compare (⊤ : WithBot (WithTop ℚ)) ⊥ = .gt := compare_gt_iff_gt.2 bot_lt_top
  have hfin : ∀ q r : ℚ,
      compare ((q : WithTop ℚ) : WithBot (WithTop ℚ)) (r : WithTop ℚ) = compare q r := by
    intro q r
    have hmono := WithBot.coe_strictMono.comp (WithTop.coe_strictMono (α := ℚ))
    rw [← cmp_eq_compare, ← cmp_eq_compare]
    exact hmono.cmp_map_eq q r
  cases a <;> cases b <;> simp_all [partialCmp, rank]

theorem ge_iff {x y : Binary f} (hx : x ≠ .nan) (hy : y ≠ .nan) :
    x.ge y = true ↔ y.rank ≤ x.rank := by
  rw [ge, partialCmp_eq hx hy, Option.any_some, decide_eq_true_eq, ne_eq, compare_lt_iff_lt, not_lt]

theorem ge_fin (a b : ℚ) : (fin a : Binary f).ge (.fin b) = true ↔ b ≤ a := by
  rw [ge, partialCmp, Option.any_some, decide_eq_true_eq, ne_eq, compare_lt_iff_lt, not_lt]

theorem min_fin (a b : ℚ) : (fin a : Binary f).min (.fin b) = .fin (Min.min a b) := by
  rcases lt_or_ge b a with h | h
  · have hcmp : compare a b = .gt := compare_gt_iff_gt.2 h
    simp [Binary.min, partialCmp, hcmp, min_eq_right h.le]
  · have hcmp : compare a b ≠ .gt := compare_gt_iff_gt.not.2 (not_lt.2 h)
    simp [Binary.min, partialCmp, hcmp, min_eq_left h]

/-- A number between 0 and 1. -/
def InUnit : Binary f → Prop
  | .fin q => 0 ≤ q ∧ q ≤ 1
  | _ => False

instance : DecidablePred (InUnit (f := f)) := fun x => by
  cases x <;> unfold InUnit <;> infer_instance

theorem InUnit.exists_fin {x : Binary f} (h : x.InUnit) : ∃ q, x = .fin q ∧ 0 ≤ q ∧ q ≤ 1 := by
  cases x with
  | fin q => exact ⟨q, rfl, h⟩
  | nan | negInf | posInf => exact h.elim

end Order

section Arithmetic

/-- The nearest value of the format. -/
def ofRat (q : ℚ) : Binary f :=
  match roundRat f.precision f.emin f.emax q with
  | some r => .fin r
  | none => if q < 0 then .negInf else .posInf

/-- An infinity with the sign of `q`, where that is not zero. -/
def infOf (q : ℚ) : Binary f := if q = 0 then .nan else if q < 0 then .negInf else .posInf

def add : Binary f → Binary f → Binary f
  | .nan, _ | _, .nan => .nan
  | .posInf, .negInf | .negInf, .posInf => .nan
  | .posInf, _ | _, .posInf => .posInf
  | .negInf, _ | _, .negInf => .negInf
  | .fin a, .fin b => ofRat (a + b)

def neg : Binary f → Binary f
  | .nan => .nan
  | .negInf => .posInf
  | .fin q => .fin (-q)
  | .posInf => .negInf

def sub (x y : Binary f) : Binary f := x.add y.neg

def abs : Binary f → Binary f
  | .nan => .nan
  | .fin q => .fin |q|
  | .negInf | .posInf => .posInf

def mul : Binary f → Binary f → Binary f
  | .nan, _ | _, .nan => .nan
  | .fin a, .fin b => ofRat (a * b)
  | .fin a, .posInf | .posInf, .fin a => infOf a
  | .fin a, .negInf | .negInf, .fin a => infOf (-a)
  | .posInf, .posInf | .negInf, .negInf => .posInf
  | .posInf, .negInf | .negInf, .posInf => .negInf

/-- A zero divisor counts as positive. -/
def div : Binary f → Binary f → Binary f
  | .nan, _ | _, .nan => .nan
  | .fin a, .fin b => if b = 0 then infOf a else ofRat (a / b)
  | .fin _, _ => .fin 0
  | .posInf, .fin b => if b < 0 then .negInf else .posInf
  | .negInf, .fin b => if b < 0 then .posInf else .negInf
  | _, _ => .nan

/-- The nearest value of another format. -/
def convert : Binary f → Binary g
  | .nan => .nan
  | .negInf => .negInf
  | .fin q => .ofRat q
  | .posInf => .posInf

/-- The ceiling as a natural number of 64 bits, which saturates. -/
def ceilU64 : Binary f → ℕ
  | .nan | .negInf => 0
  | .fin q => Min.min ⌈q⌉.toNat (2 ^ 64 - 1)
  | .posInf => 2 ^ 64 - 1

def Finite (x : Binary f) : Prop := x ≠ .nan ∧ x ≠ .posInf ∧ x ≠ .negInf

instance (x : Binary f) : Decidable x.Finite :=
  inferInstanceAs (Decidable (x ≠ .nan ∧ x ≠ .posInf ∧ x ≠ .negInf))

theorem ofRat_ne_nan (q : ℚ) : (ofRat q : Binary f) ≠ .nan := by
  unfold ofRat
  split
  · nofun
  · split_ifs <;> nofun

theorem add_ne_nan {x y : Binary f} (hx : x ≠ .nan) (hy : y.Finite) : x.add y ≠ .nan := by
  obtain ⟨hnan, hpos, hneg⟩ := hy
  cases y with
  | fin b =>
    cases x with
    | fin a => exact ofRat_ne_nan (a + b)
    | nan => exact absurd rfl hx
    | posInf => nofun
    | negInf => nofun
  | nan => exact absurd rfl hnan
  | posInf => exact absurd rfl hpos
  | negInf => exact absurd rfl hneg

/-- A minimum with a number is not NaN, and times a positive factor neither. -/
theorem mul_min_ne_nan {a b : ℚ} (ha : 0 < a) (x : Binary f) :
    (fin a : Binary f).mul (x.min (.fin b)) ≠ .nan := by
  unfold Binary.min
  split_ifs with hnan hgt
  · exact ofRat_ne_nan _
  · exact ofRat_ne_nan _
  · cases x with
    | nan => exact absurd rfl hnan
    | posInf => exact absurd rfl hgt
    | fin q => exact ofRat_ne_nan _
    | negInf =>
      have hneg : -a ≠ 0 ∧ -a < 0 := by constructor <;> linarith
      simp [mul, infOf, hneg]

end Arithmetic

end Binary

end Lib
