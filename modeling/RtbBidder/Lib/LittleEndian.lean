import Mathlib.Tactic

/-! Naturals as little-endian byte strings of a fixed length. -/

namespace Lib

/-- The low `k` bytes of a natural, least significant first. -/
def leBytes : ℕ → ℕ → List UInt8
  | 0, _ => []
  | k + 1, n => UInt8.ofNat n :: leBytes k (n / 256)

def leValue (bytes : List UInt8) : ℕ := bytes.foldr (fun b n => b.toNat + 256 * n) 0

@[simp] theorem leValue_nil : leValue [] = 0 := rfl

@[simp] theorem leValue_cons (b : UInt8) (bytes : List UInt8) :
    leValue (b :: bytes) = b.toNat + 256 * leValue bytes := rfl

theorem leValue_lt (bytes : List UInt8) : leValue bytes < 256 ^ bytes.length := by
  induction bytes with
  | nil => simp
  | cons b bytes ih =>
    have hb := b.toNat_lt
    rw [leValue_cons, List.length_cons, pow_succ]
    omega

theorem leValue_leBytes {k n : ℕ} (h : n < 256 ^ k) : leValue (leBytes k n) = n := by
  induction k generalizing n with
  | zero =>
    rw [pow_zero, Nat.lt_one_iff] at h
    rw [h, leBytes, leValue_nil]
  | succ k ih =>
    rw [pow_succ] at h
    rw [leBytes, leValue_cons, ih (Nat.div_lt_of_lt_mul (by omega)), UInt8.toNat_ofNat']
    omega

theorem leBytes_leValue (bytes : List UInt8) : leBytes bytes.length (leValue bytes) = bytes := by
  induction bytes with
  | nil => rfl
  | cons b bytes ih =>
    have hb := b.toNat_lt
    have hdiv : (b.toNat + 256 * leValue bytes) / 256 = leValue bytes := by omega
    have hlow : UInt8.ofNat (b.toNat + 256 * leValue bytes) = b := by
      apply UInt8.toNat_inj.1
      rw [UInt8.toNat_ofNat']
      omega
    rw [leValue_cons, List.length_cons, leBytes, hdiv, hlow, ih]

end Lib
