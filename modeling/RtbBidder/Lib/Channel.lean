import Mathlib.Tactic

/-! A bounded queue with a non-blocking send that drops on overflow. -/

namespace Lib

structure Channel (α : Type) where
  capacity : ℕ
  items : List α
  /-- how many sends were refused -/
  dropped : ℕ
  items_le : items.length ≤ capacity

namespace Channel

variable {α : Type} {ch : Channel α}

def empty (capacity : ℕ) : Channel α := ⟨capacity, [], 0, Nat.zero_le _⟩

def trySend (ch : Channel α) (a : α) : Bool × Channel α :=
  if h : ch.items.length < ch.capacity then
    (true, { ch with items := ch.items ++ [a], items_le := by simpa using h })
  else (false, { ch with dropped := ch.dropped + 1 })

/-- Send one item after the other, whatever became of the ones before. -/
def sendAll (ch : Channel α) (l : List α) : Channel α := l.foldl (fun ch a => (ch.trySend a).2) ch

def recv (ch : Channel α) : Option (α × Channel α) :=
  match h : ch.items with
  | [] => none
  | a :: rest =>
    have hle : (a :: rest).length ≤ ch.capacity := h ▸ ch.items_le
    some (a, { ch with items := rest, items_le := (Nat.le_succ _).trans hle })

theorem trySend_cases (ch : Channel α) (a : α) :
    ((ch.trySend a).1 = true ∧ (ch.trySend a).2.items = ch.items ++ [a] ∧
      (ch.trySend a).2.dropped = ch.dropped) ∨
    ((ch.trySend a).1 = false ∧ (ch.trySend a).2.items = ch.items ∧
      (ch.trySend a).2.dropped = ch.dropped + 1) := by
  unfold trySend
  split
  · exact .inl ⟨rfl, rfl, rfl⟩
  · exact .inr ⟨rfl, rfl, rfl⟩

theorem dropped_le_trySend (ch : Channel α) (a : α) : ch.dropped ≤ (ch.trySend a).2.dropped := by
  rcases trySend_cases ch a with ⟨-, -, h⟩ | ⟨-, -, h⟩ <;> omega

theorem items_trySend {a : α} (h : (ch.trySend a).2.dropped = 0) :
    (ch.trySend a).2.items = ch.items ++ [a] := by
  rcases trySend_cases ch a with ⟨-, hi, -⟩ | ⟨-, -, hd⟩
  · exact hi
  · omega

theorem dropped_le_sendAll (ch : Channel α) (l : List α) : ch.dropped ≤ (ch.sendAll l).dropped := by
  induction l generalizing ch with
  | nil => exact le_rfl
  | cons a l ih => exact (dropped_le_trySend ch a).trans (ih _)

theorem items_sendAll {l : List α} (h : (ch.sendAll l).dropped = 0) :
    (ch.sendAll l).items = ch.items ++ l := by
  induction l generalizing ch with
  | nil => simp [sendAll]
  | cons a l ih =>
    have hd := dropped_le_sendAll (ch.trySend a).2 l
    have hrest : (ch.sendAll (a :: l)).items = (ch.trySend a).2.items ++ l := ih h
    rw [hrest, items_trySend (Nat.le_zero.1 (h ▸ hd)), List.append_assoc, List.singleton_append]

theorem recv_eq_some {a : α} {ch' : Channel α} (h : ch.recv = some (a, ch')) :
    ch.items = a :: ch'.items ∧ ch'.dropped = ch.dropped := by
  unfold recv at h
  split at h
  · cases h
  · rename_i hitems
    obtain ⟨rfl, rfl⟩ := Prod.mk.inj (Option.some.inj h)
    exact ⟨hitems, rfl⟩

theorem trySend_of_lt (a : α) (h : ch.items.length < ch.capacity) :
    (ch.trySend a).2.items = ch.items ++ [a] ∧ (ch.trySend a).2.capacity = ch.capacity := by
  rw [trySend, dif_pos h]
  exact ⟨rfl, rfl⟩

theorem recv_of_items {a : α} {rest : List α} (h : ch.items = a :: rest) :
    ∃ ch', ch.recv = some (a, ch') ∧ ch'.items = rest ∧ ch'.capacity = ch.capacity := by
  unfold recv
  split
  · rename_i hnil
    rw [hnil] at h
    cases h
  · rename_i hcons
    obtain ⟨rfl, rfl⟩ := List.cons.inj (hcons.symm.trans h)
    exact ⟨_, rfl, rfl, rfl⟩

end Channel

end Lib
