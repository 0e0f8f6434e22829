import RtbBidder.Lib.Run

/-! Programs as trees of atomic operations on a shared state. `Prog.run` runs one
without interruption, `Config.step` in any interleaving with an environment that
changes the state between its operations. What a program adds up to whatever
answers it gets, it adds up to in every such interleaving. -/

namespace Lib

/-- A program that asks for operations `ι`, gets answers `ρ` and returns an `α`. -/
inductive Prog (ι ρ α : Type) where
  | pure (a : α)
  | op (i : ι) (k : ρ → Prog ι ρ α)

namespace Prog

variable {ι ρ α β σ ε M : Type}

protected def bind : Prog ι ρ α → (α → Prog ι ρ β) → Prog ι ρ β
  | pure a, f => f a
  | op i k, f => op i fun r => (k r).bind f

instance : Monad (Prog ι ρ) where
  pure := Prog.pure
  bind := Prog.bind

/-- What the program returned, if it is through. -/
def result : Prog ι ρ α → Option α
  | pure a => some a
  | op _ _ => none

theorem result_eq_some {p : Prog ι ρ α} {a : α} (h : p.result = some a) : p = .pure a := by
  cases p with
  | pure b => exact congrArg Prog.pure (Option.some.inj h)
  | op => cases h

/-- Run the program with no other in between. -/
def run (act : ι → σ → ρ × σ) : Prog ι ρ α → σ → α × σ
  | pure a, s => (a, s)
  | op i k, s => (k (act i s).1).run act (act i s).2

@[simp] theorem run_pure (act : ι → σ → ρ × σ) (a : α) (s : σ) :
    run act (Pure.pure a : Prog ι ρ α) s = (a, s) := rfl

@[simp] theorem run_bind (act : ι → σ → ρ × σ) (p : Prog ι ρ α) (f : α → Prog ι ρ β) (s : σ) :
    run act (p >>= f) s = run act (f (run act p s).1) (run act p s).2 := by
  induction p generalizing s with
  | pure a => rfl
  | op i k ih => exact ih _ _

section Ensures

variable [AddMonoid M] {eff : ι → ρ → M} {Q Q' : α → M → Prop}

/-- Whatever the answers, the result and the sum of the effects satisfy `Q`. -/
def Ensures (eff : ι → ρ → M) : Prog ι ρ α → (α → M → Prop) → Prop
  | pure a, Q => Q a 0
  | op i k, Q => ∀ r, (k r).Ensures eff fun a m => Q a (eff i r + m)

theorem Ensures.pure {a : α} (h : Q a 0) : (Pure.pure a : Prog ι ρ α).Ensures eff Q := h

theorem Ensures.mono {p : Prog ι ρ α} (h : p.Ensures eff Q) (hle : ∀ a m, Q a m → Q' a m) :
    p.Ensures eff Q' := by
  induction p generalizing Q Q' with
  | pure a => exact hle _ _ h
  | op i k ih => exact fun r => ih r (h r) fun a m => hle a _

theorem Ensures.bind {p : Prog ι ρ α} {f : α → Prog ι ρ β} {Q : β → M → Prop}
    (h : p.Ensures eff fun a m => (f a).Ensures eff fun b n => Q b (m + n)) :
    (p >>= f).Ensures eff Q := by
  induction p generalizing Q with
  | pure a =>
    have h : (f a).Ensures eff fun b n => Q b (0 + n) := h
    exact h.mono fun b n hb => by rwa [zero_add] at hb
  | op i k ih =>
    intro r
    apply ih r
    exact (h r).mono fun a m ha => ha.mono fun b n hb => by rwa [add_assoc] at hb

end Ensures

end Prog

/-- Whose turn it is: the program's or, with some action, the environment's. -/
inductive Turn (ε : Type)
  | own
  | other (e : ε)
  deriving DecidableEq

structure Config (σ ι ρ α : Type) where
  state : σ
  prog : Prog ι ρ α

namespace Config

variable {ι ρ α σ ε M : Type}

def step (act : ι → σ → ρ × σ) (env : ε → σ → σ) (c : Config σ ι ρ α) :
    Turn ε → Option (Config σ ι ρ α)
  | .own =>
    match c.prog with
    | .pure _ => none
    | .op i k => some ⟨(act i c.state).2, k (act i c.state).1⟩
  | .other e => some { c with state := env e c.state }

theorem step_own {act : ι → σ → ρ × σ} {env : ε → σ → σ} {c c' : Config σ ι ρ α}
    (h : c.step act env .own = some c') :
    ∃ i k, c.prog = .op i k ∧ c' = ⟨(act i c.state).2, k (act i c.state).1⟩ := by
  cases hp : c.prog with
  | pure a => simp [step, hp] at h
  | op i k => exact ⟨i, k, rfl, by simpa [step, hp] using h.symm⟩

/-- In an interleaved run a relation `R` between the turns taken, the program's own
effects so far and the state is kept, and the effects still to come complete `Q`. -/
theorem interleaved [AddMonoid M] {act : ι → σ → ρ × σ} {env : ε → σ → σ} {eff : ι → ρ → M}
    {R : List (Turn ε) → M → σ → Prop} {Q : α → M → Prop} {p : Prog ι ρ α} {s₀ : σ}
    (h0 : R [] 0 s₀)
    (hown : ∀ ts m s i, R ts m s → R (ts ++ [.own]) (m + eff i (act i s).1) (act i s).2)
    (hother : ∀ ts m s e, R ts m s → R (ts ++ [.other e]) m (env e s))
    (hp : p.Ensures eff Q) {ts : List (Turn ε)} {c : Config σ ι ρ α}
    (hrun : Run (· = ⟨s₀, p⟩) (Steps (step act env)) ts c) :
    ∃ m, (c.prog.Ensures eff fun a n => Q a (m + n)) ∧ R ts m c.state := by
  refine hrun.inv_trace (I := fun ts c => ∃ m, (c.prog.Ensures eff fun a n => Q a (m + n)) ∧
    R ts m c.state) ?_ ?_
  · intro c hc
    subst hc
    exact ⟨0, hp.mono fun a n h => by rwa [zero_add], h0⟩
  · intro ts c t c' ⟨m, hens, hR⟩ hs
    cases t with
    | own =>
      obtain ⟨i, k, hprog, rfl⟩ := step_own hs
      rw [hprog] at hens
      refine ⟨m + eff i (act i c.state).1, ?_, hown ts m c.state i hR⟩
      exact (hens (act i c.state).1).mono fun a n h => by rwa [add_assoc]
    | other e =>
      obtain rfl := Option.some.inj hs
      exact ⟨m, hens, hother ts m c.state e hR⟩

end Config

end Lib
