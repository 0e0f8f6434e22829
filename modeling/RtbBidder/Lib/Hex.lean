import Mathlib.Tactic

/-! Hexadecimal digits, and a byte as two of them. -/

namespace Lib.Hex

def lower (n : ℕ) : Char := "0123456789abcdef".toList.getD n '0'

def upper (n : ℕ) : Char := "0123456789ABCDEF".toList.getD n '0'

/-- The value of a digit of either case. -/
def value (c : Char) : Option ℕ :=
  if '0' ≤ c ∧ c ≤ '9' then some (c.toNat - '0'.toNat)
  else if 'a' ≤ c ∧ c ≤ 'f' then some (c.toNat - 'a'.toNat + 10)
  else if 'A' ≤ c ∧ c ≤ 'F' then some (c.toNat - 'A'.toNat + 10)
  else none

def byte (hi lo : Char) : Option UInt8 :=
  (value hi).bind fun h => (value lo).map fun l => UInt8.ofNat (16 * h + l)

theorem value_lower : ∀ n < 16, value (lower n) = some n := by decide

theorem value_upper : ∀ n < 16, value (upper n) = some n := by decide

/-- A byte is read back from its two digits, whichever digits are written. -/
theorem byte_digits {digit : ℕ → Char} (hdigit : ∀ n < 16, value (digit n) = some n) (b : UInt8) :
    byte (digit (b.toNat / 16)) (digit (b.toNat % 16)) = some b := by
  have hb := b.toNat_lt
  have hhi : b.toNat / 16 < 16 := by omega
  have hlo : b.toNat % 16 < 16 := by omega
  rw [byte, hdigit _ hhi, hdigit _ hlo, Option.bind_some, Option.map_some, Nat.div_add_mod,
    UInt8.ofNat_toNat]

end Lib.Hex
