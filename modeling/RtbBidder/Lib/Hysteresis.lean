import Mathlib.Data.List.Infix
import Mathlib.Tactic

/-! A signal with hysteresis: it is on once `d` consecutive inputs said so, and off once `d`
consecutive inputs did not. -/

namespace Lib

variable {d i j : ℕ} {b c : Bool} {l : List Bool}

/-- The last `d` inputs were all `b`. -/
abbrev Ends (d : ℕ) (b : Bool) (l : List Bool) : Prop := List.replicate d b <:+ l

/-- The most recent run of at least `d` equal inputs is one of `true`: there is such a run, and
no run of `false` after it. -/
def LastRunTrue (d : ℕ) (l : List Bool) : Prop :=
  ∃ pre post, l = pre ++ List.replicate d true ++ post ∧ ¬ List.replicate d false <:+: post

theorem ends_succ_concat : Ends (d + 1) b (l ++ [c]) ↔ c = b ∧ Ends d b l := by
  rw [Ends, List.replicate_succ']
  constructor
  · rintro ⟨pre, h⟩
    rw [← List.append_assoc] at h
    obtain ⟨hl, hb⟩ := List.append_inj' h rfl
    exact ⟨(List.singleton_inj.1 hb).symm, pre, hl⟩
  · rintro ⟨rfl, pre, rfl⟩
    exact ⟨pre, by rw [List.append_assoc]⟩

/-- A run does not reach back beyond a different input. -/
theorem ends_of_ends_append {pre post : List Bool} (hc : c ≠ b)
    (h : Ends d b (pre ++ [c] ++ post)) : Ends d b post := by
  induction d generalizing post with
  | zero => exact List.nil_suffix
  | succ d ih =>
    rcases List.eq_nil_or_concat post with rfl | ⟨post, x, rfl⟩
    · rw [List.append_nil, ends_succ_concat] at h
      exact absurd h.1 hc
    · rw [List.concat_eq_append, ← List.append_assoc, ends_succ_concat] at h
      rw [List.concat_eq_append, ends_succ_concat]
      exact ⟨h.1, ih h.2⟩

theorem lastRunTrue_of_ends (hd : 0 < d) (h : Ends d true l) : LastRunTrue d l := by
  obtain ⟨pre, rfl⟩ := h
  refine ⟨pre, [], by rw [List.append_nil], ?_⟩
  rw [List.infix_nil, List.replicate_eq_nil_iff]
  exact hd.ne'

theorem not_lastRunTrue_of_ends (hd : 0 < d) (h : Ends d false l) : ¬ LastRunTrue d l := by
  rintro ⟨pre, post, rfl, hno⟩
  obtain ⟨e, rfl⟩ := Nat.exists_eq_succ_of_ne_zero hd.ne'
  rw [Nat.succ_eq_add_one, List.replicate_succ', ← List.append_assoc] at h
  exact hno (ends_of_ends_append (by decide) h).isInfix

/-- An input that completes no run changes nothing. -/
theorem lastRunTrue_concat (ht : ¬ Ends d true (l ++ [b])) (hf : ¬ Ends d false (l ++ [b])) :
    LastRunTrue d (l ++ [b]) ↔ LastRunTrue d l := by
  constructor
  · rintro ⟨pre, post, h, hno⟩
    rcases List.eq_nil_or_concat post with rfl | ⟨post, x, rfl⟩
    · exact absurd ⟨pre, by rw [h, List.append_nil]⟩ ht
    · rw [List.concat_eq_append, ← List.append_assoc] at h
      refine ⟨pre, post, (List.append_inj' h rfl).1, fun hin => hno ?_⟩
      exact hin.trans (List.prefix_concat x post).isInfix
  · rintro ⟨pre, post, rfl, hno⟩
    refine ⟨pre, post ++ [b], by rw [List.append_assoc], ?_⟩
    rintro ⟨s, t, h⟩
    rcases List.eq_nil_or_concat t with rfl | ⟨t, x, rfl⟩
    · rw [List.append_nil] at h
      refine hf ⟨pre ++ List.replicate d true ++ s, ?_⟩
      simp only [List.append_assoc, h]
    · rw [List.concat_eq_append, ← List.append_assoc] at h
      exact hno ⟨s, t, (List.append_inj' h rfl).1⟩

section Changes

/-- The signal after the first `n` inputs. -/
abbrev Signal (d : ℕ) (l : List Bool) (n : ℕ) : Prop := LastRunTrue d (l.take n)

theorem signal_of_ends (hd : 0 < d) {n : ℕ} (h : Ends d b (l.take n)) :
    Signal d l n ↔ b = true := by
  cases b with
  | true => exact iff_of_true (lastRunTrue_of_ends hd h) rfl
  | false => exact iff_of_false (not_lastRunTrue_of_ends hd h) Bool.false_ne_true

/-- Without a run that ends with it, an input changes nothing. -/
theorem signal_succ (hi : i < l.length) (h : ∀ b, ¬ Ends d b (l.take (i + 1))) :
    Signal d l (i + 1) ↔ Signal d l i := by
  have hsnoc := List.take_succ_eq_append_getElem hi
  rw [hsnoc] at h
  rw [Signal, hsnoc]
  exact lastRunTrue_concat (h true) (h false)

theorem getElem?_of_ends (h : Ends d b (l.take (j + 1))) (hij : i ≤ j) (hjd : j < i + d)
    (hj : j < l.length) : l[i]? = some b := by
  obtain ⟨pre, h⟩ := h
  have hlen := congrArg List.length h
  rw [List.length_append, List.length_replicate, List.length_take] at hlen
  rw [← List.getElem?_take_of_lt (Nat.lt_succ_of_le hij), ← h,
    List.getElem?_append_right (by omega), List.getElem?_replicate, if_pos (by omega)]

/-- After a run the signal keeps its value for `d` inputs. -/
theorem signal_stays (hd : 0 < d) (h : Ends d b (l.take (i + 1))) (hij : i ≤ j) (hjd : j < i + d)
    (hj : j < l.length) : Signal d l (j + 1) ↔ b = true := by
  induction j, hij using Nat.le_induction with
  | base => exact signal_of_ends hd h
  | succ j hij ih =>
    by_cases hrun : ∃ c, Ends d c (l.take (j + 1 + 1))
    · -- the input at `i` is part of both runs
      obtain ⟨c, hc⟩ := hrun
      have hb := getElem?_of_ends h le_rfl (by omega) (by omega)
      rw [getElem?_of_ends hc (by omega) hjd hj] at hb
      obtain rfl := Option.some.inj hb
      exact signal_of_ends hd hc
    · rw [signal_succ hj (not_exists.1 hrun)]
      exact ih (by omega) (by omega)

/-- Two changes of the signal are at least `d` inputs apart. -/
theorem changes_apart (hd : 0 < d) (hij : i < j) (hj : j < l.length)
    (hi : ¬ (Signal d l (i + 1) ↔ Signal d l i)) (hj' : ¬ (Signal d l (j + 1) ↔ Signal d l j)) :
    i + d ≤ j := by
  obtain ⟨b, hb⟩ : ∃ b, Ends d b (l.take (i + 1)) := by
    by_contra hno
    exact hi (signal_succ (hij.trans hj) (not_exists.1 hno))
  by_contra hlt
  obtain ⟨j, rfl⟩ := Nat.exists_eq_succ_of_ne_zero (Nat.ne_zero_of_lt hij)
  apply hj'
  rw [signal_stays hd hb hij.le (not_le.1 hlt) hj,
    signal_stays hd hb (Nat.le_of_lt_succ hij) (by omega) (by omega)]

end Changes

end Lib
