import Mathlib.Tactic

/-! A list of tasks of which one moves at a time. -/

namespace Lib

variable {α : Type*} {tasks : List α} {i : ℕ} {x y : α}

/-- The move of one task changes a sum over the tasks by the difference at that task. -/
theorem sum_map_set (f : α → ℕ) (hi : tasks[i]? = some x) :
    ((tasks.set i y).map f).sum + f x = (tasks.map f).sum + f y := by
  induction tasks generalizing i with
  | nil => simp at hi
  | cons t tasks ih =>
    cases i with
    | zero =>
      obtain rfl : t = x := by simpa using hi
      simp only [List.set_cons_zero, List.map_cons, List.sum_cons]
      omega
    | succ i =>
      have := ih (by simpa using hi)
      simp only [List.set_cons_succ, List.map_cons, List.sum_cons]
      omega

theorem countP_eq_sum (p : α → Bool) (tasks : List α) :
    tasks.countP p = (tasks.map fun x => if p x then 1 else 0).sum := by
  induction tasks with
  | nil => rfl
  | cons t tasks ih => rw [List.countP_cons, List.map_cons, List.sum_cons, ih, Nat.add_comm]

theorem countP_set_add (p : α → Bool) (y : α) (hi : tasks[i]? = some x) :
    (tasks.set i y).countP p + (if p x then 1 else 0) =
      tasks.countP p + if p y then 1 else 0 := by
  rw [countP_eq_sum, countP_eq_sum]
  exact sum_map_set _ hi

theorem getElem?_set_moved (hi : tasks[i]? = some x) : (tasks.set i y)[i]? = some y :=
  List.getElem?_set_self (List.getElem?_eq_some_iff.1 hi).1

theorem mem_set_moved (hi : tasks[i]? = some x) : y ∈ tasks.set i y :=
  List.mem_set (List.getElem?_eq_some_iff.1 hi).1 y

theorem mem_set_other {z : α} (hi : tasks[i]? = some x) (hz : z ∈ tasks) (hne : z ≠ x) :
    z ∈ tasks.set i y := by
  obtain ⟨j, hj⟩ := List.mem_iff_getElem?.1 hz
  have hij : i ≠ j := by
    intro h
    subst h
    exact hne (Option.some.inj (hj.symm.trans hi))
  exact List.mem_iff_getElem?.2 ⟨j, by rw [List.getElem?_set_ne hij, hj]⟩

end Lib
