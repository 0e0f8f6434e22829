import Mathlib.Tactic

/-! Runs of a labelled step relation. A run lists the events taken so far and
the state they lead to. Invariants are proved one step at a time and carried
along the run, and a guard on the steps gives the runs that keep to it. -/

namespace Lib

variable {σ ε : Type*}

inductive Run (init : σ → Prop) (step : σ → ε → σ → Prop) : List ε → σ → Prop
  | nil {s : σ} (h : init s) : Run init step [] s
  | snoc {evs : List ε} {s s' : σ} {e : ε} (h : Run init step evs s) (hs : step s e s') :
      Run init step (evs ++ [e]) s'

/-- The steps of `step` that are taken where `ok` allows them. -/
def Guarded (ok : σ → ε → Prop) (step : σ → ε → σ → Prop) : σ → ε → σ → Prop :=
  fun s e s' => ok s e ∧ step s e s'

/-- The step relation of an executable step function. -/
def Steps (step : σ → ε → Option σ) : σ → ε → σ → Prop := fun s e s' => step s e = some s'

variable {init : σ → Prop} {step step' : σ → ε → σ → Prop} {evs : List ε} {s : σ}

theorem Run.inv {I : σ → Prop} (h0 : ∀ s, init s → I s)
    (h1 : ∀ s e s', I s → step s e s' → I s') (h : Run init step evs s) : I s := by
  induction h with
  | nil h => exact h0 _ h
  | snoc _ hs ih => exact h1 _ _ _ ih hs

/-- As `Run.inv`, for a property of the events taken and the state reached. -/
theorem Run.inv_trace {I : List ε → σ → Prop} (h0 : ∀ s, init s → I [] s)
    (h1 : ∀ evs s e s', I evs s → step s e s' → I (evs ++ [e]) s') (h : Run init step evs s) :
    I evs s := by
  induction h with
  | nil h => exact h0 _ h
  | snoc _ hs ih => exact h1 _ _ _ _ ih hs

theorem Run.mono (hle : ∀ s e s', step s e s' → step' s e s') (h : Run init step evs s) :
    Run init step' evs s := by
  induction h with
  | nil h => exact .nil h
  | snoc _ hs ih => exact .snoc ih (hle _ _ _ hs)

/-- A guarded run is a run. -/
theorem Run.of_guarded {ok : σ → ε → Prop} (h : Run init (Guarded ok step) evs s) :
    Run init step evs s :=
  h.mono fun _ _ _ hs => hs.2

theorem run_snoc_iff {e : ε} {s' : σ} :
    Run init step (evs ++ [e]) s' ↔ ∃ s, Run init step evs s ∧ step s e s' := by
  refine ⟨?_, ?_⟩
  · intro h
    generalize hl : evs ++ [e] = l at h
    cases h with
    | nil => simp at hl
    | snoc h hs =>
      obtain ⟨rfl, he⟩ := List.append_inj' hl rfl
      obtain rfl : e = _ := List.singleton_inj.1 he
      exact ⟨_, h, hs⟩
  · rintro ⟨s, h, hs⟩
    exact .snoc h hs

/-- The events of an executable machine determine the state. -/
theorem Run.det {f : σ → ε → Option σ} {s₀ s' : σ} (h : Run (· = s₀) (Steps f) evs s)
    (h' : Run (· = s₀) (Steps f) evs s') : s = s' := by
  induction h generalizing s' with
  | nil h =>
    generalize hl : ([] : List ε) = l at h'
    cases h' with
    | nil h' => exact h.trans h'.symm
    | snoc => simp at hl
  | snoc _ hs ih =>
    obtain ⟨s₁, h₁, hs'⟩ := run_snoc_iff.1 h'
    obtain rfl := ih h₁
    exact Option.some.inj (hs.symm.trans hs')

/-- Execute a list of events, stopping at the first one that is not enabled. -/
def exec (step : σ → ε → Option σ) : σ → List ε → Option σ
  | s, [] => some s
  | s, e :: es => (step s e).bind fun s' => exec step s' es

theorem exec_cons {f : σ → ε → Option σ} {s s' s'' : σ} {e : ε} {es : List ε}
    (hs : f s e = some s') (he : exec f s' es = some s'') : exec f s (e :: es) = some s'' := by
  rw [exec, hs]
  exact he

theorem Run.exec {f : σ → ε → Option σ} {s' : σ} (es : List ε) (h : Run init (Steps f) evs s)
    (he : exec f s es = some s') : Run init (Steps f) (evs ++ es) s' := by
  induction es generalizing evs s with
  | nil =>
    obtain rfl : s = s' := by simpa [Lib.exec] using he
    simpa using h
  | cons e es ih =>
    obtain ⟨t, ht, he⟩ := Option.bind_eq_some_iff.1 he
    have := ih (h.snoc ht) he
    rwa [List.append_assoc, List.singleton_append] at this

/-- An execution from `s` is a run of the step relation that starts there. -/
theorem run_of_exec {f : σ → ε → Option σ} {s s' : σ} (he : Lib.exec f s evs = some s') :
    Run (· = s) (Steps f) evs s' := by
  have hnil : Run (· = s) (Steps f) [] s := .nil rfl
  simpa using hnil.exec evs he

/-- A step function that checks the guard first runs the guarded steps. -/
theorem Run.guarded_of_check {f : σ → ε → Option σ} {ok : σ → ε → Prop}
    [∀ s e, Decidable (ok s e)]
    (h : Run init (Steps fun s e => if ok s e then f s e else none) evs s) :
    Run init (Guarded ok (Steps f)) evs s := by
  refine h.mono fun s e s' hs => ?_
  simp only [Steps] at hs
  split_ifs at hs with hok
  exact ⟨hok, hs⟩

/-- As `run_of_exec`, checking the guard before each step. -/
theorem run_of_exec_guarded {f : σ → ε → Option σ} {ok : σ → ε → Prop}
    [∀ s e, Decidable (ok s e)] {s s' : σ}
    (he : Lib.exec (fun s e => if ok s e then f s e else none) s evs = some s') :
    Run (· = s) (Guarded ok (Steps f)) evs s' := (run_of_exec he).guarded_of_check

/-- A concrete execution ends in a state with a decidable property. -/
theorem run_of_exec_any {f : σ → ε → Option σ} {P : σ → Prop} [DecidablePred P] {s : σ}
    (h : (Lib.exec f s evs).any (fun s => decide (P s)) = true) :
    ∃ s', Run (· = s) (Steps f) evs s' ∧ P s' := by
  obtain ⟨s', hs', hP⟩ := (Option.any_eq_true _ _).1 h
  exact ⟨s', run_of_exec hs', of_decide_eq_true hP⟩

theorem Run.guarded_snoc_iff {f : σ → ε → Option σ} {s₀ s' : σ} {ok : σ → ε → Prop} {e : ε}
    (h : Run (· = s₀) (Steps f) evs s) (hs : f s e = some s') :
    Run (· = s₀) (Guarded ok (Steps f)) (evs ++ [e]) s' ↔
      Run (· = s₀) (Guarded ok (Steps f)) evs s ∧ ok s e := by
  refine ⟨?_, fun hg => .snoc hg.1 ⟨hg.2, hs⟩⟩
  intro hg
  obtain ⟨t, ht, hok, -⟩ := run_snoc_iff.1 hg
  obtain rfl := ht.of_guarded.det h
  exact ⟨ht, hok⟩

/-- A measure that no step raises, and that exactly the steps of the guard keep, has its
first value exactly after the guarded runs. -/
theorem Run.guarded_iff {f : σ → ε → Option σ} {s₀ : σ} {ok : σ → ε → Prop} {m : σ → ℕ}
    (hm : ∀ evs s e s', Run (· = s₀) (Steps f) evs s → f s e = some s' →
      m s' ≤ m s ∧ (m s' = m s ↔ ok s e))
    (h : Run (· = s₀) (Steps f) evs s) :
    m s ≤ m s₀ ∧ (m s = m s₀ ↔ Run (· = s₀) (Guarded ok (Steps f)) evs s) := by
  induction h with
  | nil h =>
    subst h
    exact ⟨le_rfl, fun _ => .nil rfl, fun _ => rfl⟩
  | snoc hrun hs ih =>
    obtain ⟨hle, hiff⟩ := ih
    obtain ⟨hstep, hkeep⟩ := hm _ _ _ _ hrun hs
    refine ⟨hstep.trans hle, ?_⟩
    rw [hrun.guarded_snoc_iff hs, ← hiff, ← hkeep]
    omega

/-- The run through `evs` is in state `s` after its first `k` events. -/
def At (init : σ → Prop) (step : σ → ε → σ → Prop) (evs : List ε) (k : ℕ) (s : σ) : Prop :=
  k ≤ evs.length ∧ Run init step (evs.take k) s

theorem Run.at (h : Run init step evs s) : At init step evs evs.length s :=
  ⟨le_rfl, by rwa [List.take_length]⟩

theorem At.append {k : ℕ} (h : At init step evs k s) (evs' : List ε) :
    At init step (evs ++ evs') k s := by
  refine ⟨h.1.trans (by simp), ?_⟩
  rw [List.take_append_of_le_length h.1]
  exact h.2

/-- Every state after the first was reached by a step from the one before. -/
theorem At.prev {k : ℕ} {s' : σ} (h : At init step evs (k + 1) s') :
    ∃ s e, At init step evs k s ∧ evs[k]? = some e ∧ step s e s' := by
  obtain ⟨hk, hrun⟩ := h
  have hlt : k < evs.length := hk
  rw [List.take_succ_eq_append_getElem hlt] at hrun
  obtain ⟨s, hrun, hs⟩ := run_snoc_iff.1 hrun
  exact ⟨s, evs[k], ⟨hlt.le, hrun⟩, List.getElem?_eq_getElem hlt, hs⟩

theorem At.det {f : σ → ε → Option σ} {s₀ s' : σ} {k : ℕ} (h : At (· = s₀) (Steps f) evs k s)
    (h' : At (· = s₀) (Steps f) evs k s') : s = s' := h.2.det h'.2

/-- What holds at one moment and is kept by every step holds from there on. -/
theorem At.inv_from {f : σ → ε → Option σ} {s₀ s' : σ} {I : σ → Prop} {k k' : ℕ}
    (hI : ∀ s e s', I s → Steps f s e s' → I s') (h : At (· = s₀) (Steps f) evs k s)
    (h' : At (· = s₀) (Steps f) evs k' s') (hk : k ≤ k') (hi : I s) : I s' := by
  induction hk generalizing s' with
  | refl => exact h.det h' ▸ hi
  | step _ ih =>
    obtain ⟨t, e, ht, -, hs⟩ := h'.prev
    exact hI t e s' (ih ht) hs

/-- What exactly the steps of the guard do, every step of a run does exactly if the run is
guarded. -/
theorem Run.every_step_iff {f : σ → ε → Option σ} {s₀ : σ} {ok : σ → ε → Prop} {Q : σ → σ → Prop}
    (hstep : ∀ evs s e s', Run (· = s₀) (Guarded ok (Steps f)) evs s → f s e = some s' →
      (Q s s' ↔ ok s e))
    (h : Run (· = s₀) (Steps f) evs s) :
    (∀ k t t', At (· = s₀) (Steps f) evs k t → At (· = s₀) (Steps f) evs (k + 1) t' → Q t t') ↔
      Run (· = s₀) (Guarded ok (Steps f)) evs s := by
  induction h with
  | nil h =>
    refine ⟨fun _ => .nil h, fun _ k t t' _ ht' => ?_⟩
    exact absurd ht'.1 (by simp)
  | @snoc evs s s' e hrun hs ih =>
    rw [hrun.guarded_snoc_iff hs, ← ih]
    refine ⟨?_, ?_⟩
    · intro hall
      have hbefore : ∀ k t t', At (· = s₀) (Steps f) evs k t →
          At (· = s₀) (Steps f) evs (k + 1) t' → Q t t' :=
        fun k t t' ht ht' => hall k t t' (ht.append _) (ht'.append _)
      have hlast : At (· = s₀) (Steps f) (evs ++ [e]) (evs.length + 1) s' := by
        simpa using (hrun.snoc hs).at
      exact ⟨hbefore, (hstep evs s e s' (ih.1 hbefore) hs).1 (hall _ s s' (hrun.at.append _) hlast)⟩
    · rintro ⟨hbefore, hok⟩ k t t' ht ht'
      rcases Nat.lt_or_ge k evs.length with hk | hk
      · refine hbefore k t t' ⟨hk.le, ?_⟩ ⟨hk, ?_⟩
        · simpa [List.take_append_of_le_length hk.le] using ht.2
        · simpa [List.take_append_of_le_length (show k + 1 ≤ evs.length from hk)] using ht'.2
      · -- the last step of the longer run
        obtain rfl : k = evs.length := by
          have := ht'.1
          simp only [List.length_append, List.length_singleton] at this
          omega
        obtain rfl := ht.det (hrun.at.append _)
        have hlast : At (· = s₀) (Steps f) (evs ++ [e]) (evs.length + 1) s' := by
          simpa using (hrun.snoc hs).at
        obtain rfl := ht'.det hlast
        exact (hstep evs t e t' (ih.1 hbefore) hs).2 hok

/-- The property that the guarded runs have, and that every other step breaks, holds at
every moment of a run exactly if the run is guarded. -/
theorem Run.always_iff {f : σ → ε → Option σ} {s₀ : σ} {ok : σ → ε → Prop} {P : σ → Prop}
    (hgood : ∀ evs s, Run (· = s₀) (Guarded ok (Steps f)) evs s → P s)
    (hbad : ∀ evs s e s', Run (· = s₀) (Guarded ok (Steps f)) evs s → f s e = some s' → ¬ ok s e →
      ¬ P s')
    (h : Run (· = s₀) (Steps f) evs s) :
    (∀ k t, At (· = s₀) (Steps f) evs k t → P t) ↔ Run (· = s₀) (Guarded ok (Steps f)) evs s := by
  have hstep : ∀ evs s e s', Run (· = s₀) (Guarded ok (Steps f)) evs s → f s e = some s' →
      (P s' ↔ ok s e) := by
    intro evs s e s' hrun hs
    refine ⟨?_, fun hok => hgood _ s' (.snoc hrun ⟨hok, hs⟩)⟩
    intro hP
    by_contra hok
    exact hbad evs s e s' hrun hs hok hP
  rw [← h.every_step_iff (Q := fun _ s' => P s') hstep]
  refine ⟨fun hall k _ t' _ ht' => hall (k + 1) t' ht', ?_⟩
  intro hsteps k t ht
  cases k with
  | zero => exact hgood [] t (.nil (by simpa using ht.2.det (.nil rfl)))
  | succ k =>
    obtain ⟨t₀, _, ht₀, -⟩ := ht.prev
    exact hsteps k t₀ t ht₀ ht

end Lib
