import Mathlib

/-! Two strings joined with a separator: when the joined string determines its
parts, and how it fails to when the parts may contain the separator. -/

namespace Lib

variable {α : Type}

/-- One joined pair can be read as another one: a separator inside one pair's part is
taken for the joint of the other. -/
def Shifted (sep : α) (a b a' b' : List α) : Prop :=
  ∃ w, (a' = a ++ sep :: w ∧ b = w ++ sep :: b') ∨ (a = a' ++ sep :: w ∧ b' = w ++ sep :: b)

theorem join_eq_iff {sep : α} {a b a' b' : List α} :
    a ++ sep :: b = a' ++ sep :: b' ↔ (a = a' ∧ b = b') ∨ Shifted sep a b a' b' := by
  refine ⟨?_, ?_⟩
  · intro h
    -- one of the left parts extends the other; the extension starts at the joint
    rcases List.append_eq_append_iff.1 h with ⟨w, rfl, hw⟩ | ⟨w, rfl, hw⟩
    · cases w with
      | nil =>
        obtain ⟨-, rfl⟩ := List.cons.inj hw
        exact .inl ⟨by simp, rfl⟩
      | cons x w =>
        obtain ⟨rfl, rfl⟩ := List.cons.inj hw
        exact .inr ⟨w, .inl ⟨rfl, rfl⟩⟩
    · cases w with
      | nil =>
        obtain ⟨-, rfl⟩ := List.cons.inj hw
        exact .inl ⟨by simp, rfl⟩
      | cons x w =>
        obtain ⟨rfl, rfl⟩ := List.cons.inj hw
        exact .inr ⟨w, .inr ⟨rfl, rfl⟩⟩
  · rintro (⟨rfl, rfl⟩ | ⟨w, ⟨rfl, rfl⟩ | ⟨rfl, rfl⟩⟩) <;> simp

theorem Shifted.ne {sep : α} {a b a' b' : List α} (h : Shifted sep a b a' b') : a ≠ a' := by
  rintro rfl
  obtain ⟨w, ⟨h, -⟩ | ⟨h, -⟩⟩ := h <;> simp at h

/-- A right part without the separator can be read off. -/
theorem join_inj_of_notMem {sep : α} {a b a' b' : List α} (hb : sep ∉ b) (hb' : sep ∉ b')
    (h : a ++ sep :: b = a' ++ sep :: b') : a = a' ∧ b = b' := by
  rcases join_eq_iff.1 h with h | ⟨w, ⟨-, rfl⟩ | ⟨-, rfl⟩⟩
  · exact h
  · exact absurd (by simp) hb
  · exact absurd (by simp) hb'

/-- Decimal numerals have digits only. -/
theorem notMem_repr {sep : Char} (h : sep.isDigit = false) (n : ℕ) : sep ∉ n.repr.toList := by
  rw [Nat.toList_repr]
  intro hmem
  rw [Nat.isDigit_of_mem_toDigits (by omega) (by omega) hmem] at h
  cases h

end Lib
