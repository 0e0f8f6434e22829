import Mathlib.Data.Multiset.AddSub
import Mathlib.Tactic

/-! The `k` least elements of a list, by an order that may have ties: which elements are
kept as the list grows, and that without ties they do not depend on its order. -/

namespace Lib

variable {α : Type*} {le : α → α → Prop} {k : ℕ} {l l' kept kept' : List α} {m x : α}

/-- `kept` are `k` elements of the list, or all if it is shorter, and none of them comes
after one that was left out. -/
structure Selects (le : α → α → Prop) (k : ℕ) (l kept : List α) : Prop where
  length : kept.length = min k l.length
  split : ∃ dropped, (kept ++ dropped).Perm l ∧ ∀ x ∈ kept, ∀ y ∈ dropped, le x y

namespace Selects

theorem nil : Selects le k [] [] := ⟨by simp, [], .nil, by simp⟩

theorem length_le (h : Selects le k l kept) : kept.length ≤ k := by
  rw [h.length]
  exact Nat.min_le_left ..

/-- Of a sorted list the first `k` elements. -/
theorem take (h : l.Pairwise le) : Selects le k l (l.take k) := by
  refine ⟨List.length_take, l.drop k, by rw [List.take_append_drop], ?_⟩
  rw [← List.take_append_drop k l, List.pairwise_append] at h
  exact h.2.2

/-- As long as there is room nothing is left out. -/
theorem add (h : Selects le k l kept) (hroom : kept.length < k) (hp : kept'.Perm (x :: kept)) :
    Selects le k (l ++ [x]) kept' := by
  obtain ⟨dropped, hsplit, -⟩ := h.split
  have hlen := h.length
  have hall := hsplit.length_eq
  rw [List.length_append] at hall
  obtain rfl : dropped = [] := List.length_eq_zero_iff.1 (by omega)
  rw [List.append_nil] at hsplit
  refine ⟨?_, [], ?_, by simp⟩
  · rw [hp.length_eq, List.length_cons, List.length_append, List.length_singleton]
    omega
  · rw [List.append_nil]
    exact hp.trans ((hsplit.cons x).trans (List.perm_append_singleton x l).symm)

/-- When there is no room left the greatest element has to go. -/
theorem replace [IsTrans α le] (h : Selects le k l kept) (hfull : kept.length = k)
    (hp : (m :: kept').Perm (x :: kept)) (hm : ∀ y ∈ x :: kept, le y m) :
    Selects le k (l ++ [x]) kept' := by
  obtain ⟨dropped, hsplit, hle⟩ := h.split
  have hlen := h.length
  have hlen' := hp.length_eq
  rw [List.length_cons, List.length_cons] at hlen'
  refine ⟨?_, m :: dropped, ?_, ?_⟩
  · rw [List.length_append, List.length_singleton]
    omega
  · calc (kept' ++ m :: dropped).Perm (m :: kept' ++ dropped) := List.perm_middle
      _ |>.Perm (x :: kept ++ dropped) := hp.append_right dropped
      _ |>.Perm (l ++ [x]) := (hsplit.cons x).trans (List.perm_append_singleton x l).symm
  · intro y hy z hz
    have hy' : y ∈ x :: kept := hp.subset (List.mem_cons_of_mem _ hy)
    rcases List.mem_cons.1 hz with rfl | hz
    · exact hm y hy'
    · -- either the new element itself went, or an old one did, which comes before all dropped
      rcases List.mem_cons.1 (hp.subset List.mem_cons_self) with rfl | hold
      · exact hle y (hp.cons_inv.subset hy) z hz
      · exact trans_of le (hm y hy') (hle m hold z hz)

theorem exists_count_lt [DecidableEq α] (hlen : kept'.length ≤ kept.length)
    (hne : ¬ kept.Perm kept') : ∃ x, kept'.count x < kept.count x := by
  by_contra hno
  push Not at hno
  have hle : (kept : Multiset α) ≤ kept' := Multiset.le_iff_count.2 (by simpa using hno)
  exact hne (Multiset.coe_eq_coe.1 (Multiset.eq_of_le_of_card_le hle (by simpa using hlen)))

/-- Without ties the selection is determined, whatever order the list is in. -/
theorem perm (h : Selects le k l kept) (h' : Selects le k l' kept') (hl : l.Perm l')
    (hanti : ∀ x ∈ l, ∀ y ∈ l, le x y → le y x → x = y) : kept.Perm kept' := by
  classical
  obtain ⟨dropped, hsplit, hle⟩ := h.split
  obtain ⟨dropped', hsplit', hle'⟩ := h'.split
  have hlen : kept.length = kept'.length := by rw [h.length, h'.length, hl.length_eq]
  have hcount (z : α) : (kept ++ dropped).count z = (kept' ++ dropped').count z :=
    (hsplit.trans (hl.trans hsplit'.symm)).count_eq z
  simp only [List.count_append] at hcount
  by_contra hne
  -- each selection has an element that the other one dropped
  obtain ⟨x, hx⟩ := exists_count_lt hlen.ge hne
  obtain ⟨y, hy⟩ := exists_count_lt hlen.le (fun hp => hne hp.symm)
  have hcx := hcount x
  have hcy := hcount y
  have hxk : x ∈ kept := List.count_pos_iff.1 (by omega)
  have hxd : x ∈ dropped' := List.count_pos_iff.1 (by omega)
  have hyk : y ∈ kept' := List.count_pos_iff.1 (by omega)
  have hyd : y ∈ dropped := List.count_pos_iff.1 (by omega)
  have hxl : x ∈ l := hsplit.subset (List.mem_append_left _ hxk)
  have hyl : y ∈ l := hsplit.subset (List.mem_append_right _ hyd)
  obtain rfl := hanti x hxl y hyl (hle x hxk y hyd) (hle' y hyk x hxd)
  omega

end Selects

end Lib
