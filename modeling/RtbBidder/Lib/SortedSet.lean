import Mathlib.Tactic

/-! Finite sets of ordered keys, kept as a strictly increasing list. Iteration
is in increasing order and no key is visited twice. -/

namespace Lib

variable {α : Type*} [LT α] [LE α] [Std.IsLinearOrder α] [Std.LawfulOrderLT α]

structure SortedSet (α : Type*) [LT α] where
  toList : List α
  sorted : toList.Pairwise (· < ·)

section Insert

variable [DecidableLT α]

def insertSorted (a : α) : List α → List α
  | [] => [a]
  | b :: l => if a < b then a :: b :: l else if b < a then b :: insertSorted a l else b :: l

omit [LE α] [Std.IsLinearOrder α] [Std.LawfulOrderLT α] in
theorem mem_of_mem_insertSorted {a x : α} {l : List α} (h : x ∈ insertSorted a l) :
    x = a ∨ x ∈ l := by
  induction l with
  | nil => simpa [insertSorted] using h
  | cons b l ih =>
    unfold insertSorted at h
    split_ifs at h with h1 h2
    · simpa using h
    · rcases List.mem_cons.1 h with rfl | h
      · simp
      · rcases ih h with rfl | h <;> simp_all
    · exact .inr h

theorem mem_insertSorted {a x : α} {l : List α} : x ∈ insertSorted a l ↔ x = a ∨ x ∈ l := by
  refine ⟨mem_of_mem_insertSorted, fun h => ?_⟩
  induction l with
  | nil => simpa [insertSorted] using h
  | cons b l ih =>
    unfold insertSorted
    split_ifs with h1 h2
    · simpa using h
    · rcases h with rfl | h
      · exact List.mem_cons_of_mem _ (ih (.inl rfl))
      · rcases List.mem_cons.1 h with rfl | h
        · exact List.mem_cons_self
        · exact List.mem_cons_of_mem _ (ih (.inr h))
    · rcases h with rfl | h
      · have hab : x = b := Std.le_antisymm (Std.not_lt.1 h2) (Std.not_lt.1 h1)
        rw [hab]
        exact List.mem_cons_self
      · exact h

theorem insertSorted_sorted (a : α) {l : List α} (h : l.Pairwise (· < ·)) :
    (insertSorted a l).Pairwise (· < ·) := by
  induction l with
  | nil => simp [insertSorted]
  | cons b l ih =>
    obtain ⟨hb, hl⟩ := List.pairwise_cons.1 h
    unfold insertSorted
    split_ifs with h1 h2
    · refine List.pairwise_cons.2 ⟨fun x hx => ?_, h⟩
      rcases List.mem_cons.1 hx with rfl | hx
      · exact h1
      · exact Std.lt_trans h1 (hb x hx)
    · refine List.pairwise_cons.2 ⟨fun x hx => ?_, ih hl⟩
      rcases mem_of_mem_insertSorted hx with rfl | hx
      · exact h2
      · exact hb x hx
    · exact h

end Insert

namespace SortedSet

instance : Membership α (SortedSet α) := ⟨fun s a => a ∈ s.toList⟩

instance [DecidableEq α] (a : α) (s : SortedSet α) : Decidable (a ∈ s) :=
  inferInstanceAs (Decidable (a ∈ s.toList))

def empty : SortedSet α := ⟨[], .nil⟩

def isEmpty (s : SortedSet α) : Bool := s.toList.isEmpty

def insert [DecidableLT α] (s : SortedSet α) (a : α) : SortedSet α :=
  ⟨insertSorted a s.toList, insertSorted_sorted a s.sorted⟩

def ofList [DecidableLT α] (l : List α) : SortedSet α := l.foldl insert empty

def union [DecidableLT α] (s t : SortedSet α) : SortedSet α := t.toList.foldl insert s

def inter [DecidableEq α] (s t : SortedSet α) : SortedSet α :=
  ⟨s.toList.filter (· ∈ t), s.sorted.sublist List.filter_sublist⟩

def diff [DecidableEq α] (s t : SortedSet α) : SortedSet α :=
  ⟨s.toList.filter (· ∉ t), s.sorted.sublist List.filter_sublist⟩

section Mem

variable {s t : SortedSet α} {a x : α}

omit [LE α] [Std.IsLinearOrder α] [Std.LawfulOrderLT α] in
@[simp] theorem mem_toList : x ∈ s.toList ↔ x ∈ s := Iff.rfl

omit [LE α] [Std.IsLinearOrder α] [Std.LawfulOrderLT α] in
@[simp] theorem notMem_empty : x ∉ (empty : SortedSet α) := List.not_mem_nil

omit [LE α] [Std.IsLinearOrder α] [Std.LawfulOrderLT α] in
theorem isEmpty_eq_false_of_mem (h : x ∈ s) : s.isEmpty = false :=
  List.isEmpty_eq_false_iff.2 (List.ne_nil_of_mem h)

@[simp] theorem mem_insert [DecidableLT α] : x ∈ s.insert a ↔ x = a ∨ x ∈ s := mem_insertSorted

theorem mem_foldl_insert [DecidableLT α] (l : List α) :
    x ∈ l.foldl insert s ↔ x ∈ s ∨ x ∈ l := by
  induction l generalizing s with
  | nil => simp
  | cons b l ih => rw [List.foldl_cons, ih, mem_insert, List.mem_cons]; tauto

@[simp] theorem mem_ofList [DecidableLT α] {l : List α} : x ∈ ofList l ↔ x ∈ l := by
  simp [ofList, mem_foldl_insert]

@[simp] theorem mem_union [DecidableLT α] : x ∈ s.union t ↔ x ∈ s ∨ x ∈ t := mem_foldl_insert _

omit [LE α] [Std.IsLinearOrder α] [Std.LawfulOrderLT α] in
@[simp] theorem mem_inter [DecidableEq α] : x ∈ s.inter t ↔ x ∈ s ∧ x ∈ t := by
  rw [← mem_toList, inter, List.mem_filter]
  simp

omit [LE α] [Std.IsLinearOrder α] [Std.LawfulOrderLT α] in
@[simp] theorem mem_diff [DecidableEq α] : x ∈ s.diff t ↔ x ∈ s ∧ x ∉ t := by
  rw [← mem_toList, diff, List.mem_filter]
  simp

end Mem

omit [Std.IsLinearOrder α] in
theorem nodup (s : SortedSet α) : s.toList.Nodup := by
  refine s.sorted.imp fun {a b} hab he => ?_
  subst he
  exact Std.lt_irrefl hab

end SortedSet

end Lib
