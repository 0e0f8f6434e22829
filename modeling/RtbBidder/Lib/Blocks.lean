import Mathlib.Tactic

/-! A list cut into consecutive blocks of `n` elements: one that grows at its end, and
one that is given as a whole. -/

namespace Lib

variable {α : Type*} {n : ℕ}

/-- The elements after the last full block. -/
def pending (n : ℕ) (l : List α) : List α := l.drop (l.length / n * n)

/-- The block of the last element, up to that element. -/
def lastBlock (n : ℕ) (l : List α) : List α := l.drop ((l.length - 1) / n * n)

@[simp] theorem pending_nil : pending n ([] : List α) = [] := by simp [pending]

theorem length_pending (l : List α) : (pending n l).length = l.length % n := by
  have := Nat.div_add_mod' l.length n
  rw [pending, List.length_drop]
  omega

theorem lastBlock_snoc (l : List α) (a : α) : lastBlock n (l ++ [a]) = pending n l ++ [a] := by
  rw [lastBlock, pending, List.length_append, List.length_singleton, Nat.add_sub_cancel,
    List.drop_append_of_le_length (Nat.div_mul_le_self _ _)]

theorem pending_snoc (hn : 0 < n) (l : List α) (a : α) :
    pending n (l ++ [a]) =
      if (pending n l).length + 1 = n then [] else pending n l ++ [a] := by
  have hlen := length_pending (n := n) l
  have hsplit := Nat.div_add_mod' l.length n
  have hlt := Nat.mod_lt l.length hn
  split_ifs with hfull
  · -- the block is full: its end is the end of the list
    have hdiv : (l.length + 1) / n * n = l.length + 1 := by
      apply Nat.div_mul_cancel
      refine ⟨l.length / n + 1, ?_⟩
      rw [Nat.mul_add, Nat.mul_comm n]
      omega
    rw [pending, List.length_append, List.length_singleton, hdiv]
    simp
  · have hdiv : (l.length + 1) / n = l.length / n := by
      apply Nat.div_eq_of_lt_le
      · omega
      · rw [Nat.succ_mul]
        omega
    rw [pending, List.length_append, List.length_singleton, hdiv,
      List.drop_append_of_le_length (Nat.div_mul_le_self _ _), pending]

section Chunks

/-- The blocks of a list of at most `fuel` elements. -/
def chunksFor (n : ℕ) : ℕ → List α → List (List α)
  | 0, _ => []
  | fuel + 1, l => if l.isEmpty then [] else l.take n :: chunksFor n fuel (l.drop n)

/-- All blocks of the list; the last one may be shorter. -/
def chunks (n : ℕ) (l : List α) : List (List α) := chunksFor n l.length l

/-- Fuel beyond the length of the list makes no difference. -/
theorem chunksFor_congr (hn : 0 < n) {fuel fuel' : ℕ} {l : List α} (h : l.length ≤ fuel)
    (h' : l.length ≤ fuel') : chunksFor n fuel l = chunksFor n fuel' l := by
  induction fuel generalizing fuel' l with
  | zero =>
    obtain rfl := List.length_eq_zero_iff.1 (Nat.le_zero.1 h)
    cases fuel' <;> rfl
  | succ fuel ih =>
    cases l with
    | nil => cases fuel' <;> rfl
    | cons a l =>
      obtain ⟨fuel', rfl⟩ := Nat.exists_eq_succ_of_ne_zero (Nat.ne_zero_of_lt h')
      have hdrop : ((a :: l).drop n).length ≤ l.length := by
        rw [List.length_drop, List.length_cons]
        omega
      rw [List.length_cons] at h h'
      exact congrArg (_ :: ·) (ih (by omega) (by omega))

@[simp] theorem chunks_nil : chunks n ([] : List α) = [] := rfl

theorem chunks_of_ne_nil (hn : 0 < n) {l : List α} (hl : l ≠ []) :
    chunks n l = l.take n :: chunks n (l.drop n) := by
  cases l with
  | nil => exact absurd rfl hl
  | cons a l =>
    refine congrArg (_ :: ·) (chunksFor_congr hn ?_ le_rfl)
    rw [List.length_drop, List.length_cons]
    omega

theorem flatten_chunksFor (hn : 0 < n) {fuel : ℕ} {l : List α} (h : l.length ≤ fuel) :
    (chunksFor n fuel l).flatten = l := by
  induction fuel generalizing l with
  | zero =>
    obtain rfl := List.length_eq_zero_iff.1 (Nat.le_zero.1 h)
    rfl
  | succ fuel ih =>
    rw [chunksFor]
    split_ifs with hl
    · exact (List.isEmpty_iff.1 hl).symm
    · rw [List.flatten_cons, ih, List.take_append_drop]
      rw [List.length_drop]
      omega

theorem flatten_chunks (hn : 0 < n) (l : List α) : (chunks n l).flatten = l :=
  flatten_chunksFor hn le_rfl

theorem length_chunks (hn : 0 < n) (l : List α) : (chunks n l).length = (l.length + n - 1) / n := by
  induction hlen : l.length using Nat.strong_induction_on generalizing l with
  | _ len ih =>
    subst hlen
    by_cases hl : l = []
    · subst hl
      exact (Nat.div_eq_of_lt (by simp; omega)).symm
    · have hpos := List.length_pos_of_ne_nil hl
      rw [chunks_of_ne_nil hn hl, List.length_cons, ih _ (by rw [List.length_drop]; omega) _ rfl,
        List.length_drop, ← Nat.add_div_right _ hn]
      -- the last block may be a short one
      rcases Nat.lt_or_ge l.length n with hlt | hge
      · rw [show l.length - n + n - 1 + n = n - 1 + n by omega, Nat.add_div_right _ hn,
          Nat.div_eq_of_lt (by omega : n - 1 < n), show l.length + n - 1 = l.length - 1 + n by omega,
          Nat.add_div_right _ hn, Nat.div_eq_of_lt (by omega)]
      · rw [show l.length - n + n - 1 + n = l.length + n - 1 by omega]

/-- The complete blocks of the list. -/
def chunksExact (n : ℕ) (l : List α) : List (List α) := chunks n (l.take (l.length / n * n))

theorem chunksExact_of_lt {l : List α} (h : l.length < n) : chunksExact n l = [] := by
  rw [chunksExact, Nat.div_eq_of_lt h, Nat.zero_mul, List.take_zero, chunks_nil]

theorem chunksExact_append (hn : 0 < n) {block : List α} (hb : block.length = n) (l : List α) :
    chunksExact n (block ++ l) = block :: chunksExact n l := by
  have hlen : (block ++ l).length / n * n = n + l.length / n * n := by
    rw [List.length_append, hb, Nat.add_div_left _ hn, Nat.succ_mul, Nat.add_comm]
  have htake : (block ++ l).take (n + l.length / n * n) = block ++ l.take (l.length / n * n) := by
    rw [← hb, List.take_length_add_append]
  have hne : block ++ l.take (l.length / n * n) ≠ [] := by
    apply List.append_ne_nil_of_left_ne_nil
    exact List.ne_nil_of_length_pos (hb ▸ hn)
  rw [chunksExact, hlen, htake, chunks_of_ne_nil hn hne, List.take_left' hb, List.drop_left' hb,
    chunksExact]

end Chunks

end Lib
