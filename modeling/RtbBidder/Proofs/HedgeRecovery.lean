import RtbBidder.Proofs.HedgeBudget

/-! Nothing ever puts a token back that its call did not: a call dropped with its token
and a clamp below the counter lose tokens for good. The tokens of the counter and of the
calls in flight never grow, and stay as they are in exactly the steps that do neither. -/

namespace RTB

open Lib (F64)

namespace HedgedCall

variable {T : Type*}

def finished : HedgedCall T → Bool
  | .returned _ | .dropped _ => true
  | _ => false

theorem held_of_finished {c : HedgedCall T} (h : c.finished = true) : c.held = 0 := by
  cases c <;> first | rfl | cases h

/-- The call is not dropped with a token, and does not clamp below the counter. -/
def keeps (b : HedgeBudget) : HedgedCall T → HedgeInput T → Bool
  | .hedged, .drop => false
  | .clamp _ cap, .op _ => b.tokens ≤ cap
  | _, _ => true

theorem keeps_of_quiet {b : HedgeBudget} {c : HedgedCall T} {x : HedgeInput T}
    (hc : c.restoring = false) (hx : c = .hedged → x ≠ .drop) : c.keeps b x = true := by
  unfold keeps
  split
  · exact absurd rfl (hx rfl)
  · cases hc
  · rfl

end HedgedCall

/-- The feedback task does not clamp below the counter. -/
def Feedback.keeps (b : HedgeBudget) : Feedback → Bool
  | .clamp e => b.tokens ≤ e
  | _ => true

namespace HedgeSystem

variable {T : Type*} {nominal : UInt64} {s s' : HedgeSystem T} {i : ℕ} {c c' : HedgedCall T}
  {x : HedgeInput T} {b' : HedgeBudget}

/-- The step loses no token. -/
def Keeps (s : HedgeSystem T) : HedgeEvent T → Prop
  | .input i x => ∀ c ∈ s.calls[i]?, c.keeps s.budget x = true
  | .feedback => s.feedback.keeps s.budget = true
  | _ => True

instance (s : HedgeSystem T) : (e : HedgeEvent T) → Decidable (s.Keeps e)
  | .hedgedCall | .setLoadShedRate _ => .isTrue trivial
  | .input i x => inferInstanceAs (Decidable (∀ c ∈ s.calls[i]?, c.keeps s.budget x = true))
  | .feedback => inferInstanceAs (Decidable (s.feedback.keeps s.budget = true))

/-- The tokens of the counter and of the calls in flight. -/
def available (s : HedgeSystem T) : ℕ := s.budget.tokens.toNat + s.inFlight

theorem fetchMin_tokens (b : HedgeBudget) (cap : UInt64) :
    (b.fetchMin cap).tokens.toNat ≤ b.tokens.toNat ∧
      ((b.fetchMin cap).tokens.toNat = b.tokens.toNat ↔ b.tokens ≤ cap) := by
  rw [HedgeBudget.fetchMin, UInt64.toNat_min, UInt64.le_iff_toNat_le]
  exact ⟨min_le_left _ _, min_eq_left_iff⟩

theorem kept {m n : ℕ} {p : Prop} (heq : m = n) (hp : p) : m ≤ n ∧ (m = n ↔ p) :=
  ⟨heq.le, iff_of_true heq hp⟩

theorem available_call (h : Bounded nominal s) (hi : s.calls[i]? = some c)
    (hm : c.Moves s.budget x b' c') :
    (s.moved i b' c').available ≤ s.available ∧
      ((s.moved i b' c').available = s.available ↔ c.keeps s.budget x = true) := by
  have hmoved := inFlight_moved hi b' c'
  have hsum : (s.moved i b' c').available = b'.tokens.toNat + (s.moved i b' c').inFlight := rfl
  have hsum' : s.available = s.budget.tokens.toNat + s.inFlight := rfl
  cases hm with
  | quiet hc _ hh hx =>
    exact kept (by omega) (HedgedCall.keeps_of_quiet hc hx)
  | take hne =>
    have hsub := toNat_sub_one hne
    simp only [HedgedCall.held] at hmoved hsum
    exact kept (by omega) rfl
  | lose =>
    simp only [HedgedCall.held] at hmoved
    exact ⟨by omega, iff_of_false (by omega) Bool.false_ne_true⟩
  | add r o =>
    have hadd := h.add_one hi
    simp only [HedgedCall.held] at hmoved hsum
    exact kept (by omega) rfl
  | keep o hle | load o hlt =>
    simp only [HedgedCall.held] at hmoved
    exact kept (by omega) rfl
  | clamp r cap o =>
    obtain ⟨hle, hiff⟩ := fetchMin_tokens s.budget cap
    simp only [HedgedCall.held] at hmoved
    refine ⟨by omega, ?_⟩
    rw [HedgedCall.keeps, decide_eq_true_eq, ← hiff]
    omega

theorem available_feedback (hs : step s .feedback = some s') :
    s'.available ≤ s.available ∧ (s'.available = s.available ↔ s.Keeps .feedback) := by
  cases hf : s.feedback with
  | idle => simp [step, hf] at hs
  | store e =>
    simp only [step, hf, Option.some.injEq] at hs
    subst hs
    exact kept rfl (by rw [Keeps, hf]; rfl)
  | clamp e =>
    simp only [step, hf, Option.some.injEq] at hs
    subst hs
    obtain ⟨hle, hiff⟩ := fetchMin_tokens s.budget e
    refine ⟨Nat.add_le_add_right hle _, ?_⟩
    rw [Keeps, hf, Feedback.keeps, decide_eq_true_eq, ← hiff]
    exact Nat.add_right_cancel_iff

theorem available_step {e : HedgeEvent T} (h : Bounded nominal s) (hs : step s e = some s') :
    s'.available ≤ s.available ∧ (s'.available = s.available ↔ s.Keeps e) := by
  cases e with
  | hedgedCall =>
    obtain rfl := Option.some.inj hs
    have heq : ({ s with calls := s.calls ++ [.first] } : HedgeSystem T).available = s.available := by
      simp [available, inFlight, HedgedCall.held]
    exact kept heq trivial
  | input i x =>
    obtain ⟨c, b', c', hi, hc, rfl⟩ := step_input_inv hs
    have hkeeps : s.Keeps (.input i x) ↔ c.keeps s.budget x = true := by simp [Keeps, hi]
    rw [hkeeps]
    exact available_call h hi (HedgedCall.step_moves hc)
  | setLoadShedRate rate =>
    simp only [HedgeSystem.step] at hs
    split_ifs at hs with hidle
    obtain rfl := Option.some.inj hs
    exact kept rfl trivial
  | feedback => exact available_feedback hs

/-- Once no call is in progress, the counter is at the nominal capacity exactly if no step
of the history dropped a call with its token or clamped below the counter. -/
theorem budget_recovers_iff {evs : List (HedgeEvent T)} (h : Run nominal evs s)
    (hdone : ∀ c ∈ s.calls, c.finished = true) :
    s.budget.tokens = nominal ↔
      Lib.Run (· = init nominal) (Lib.Guarded Keeps (Lib.Steps step)) evs s := by
  have hzero : s.inFlight = 0 := by
    apply List.sum_eq_zero
    intro n hn
    obtain ⟨c, hc, rfl⟩ := List.mem_map.1 hn
    exact HedgedCall.held_of_finished (hdone c hc)
  have hiff : s.available = (init nominal : HedgeSystem T).available ↔
      Lib.Run (· = init nominal) (Lib.Guarded Keeps (Lib.Steps step)) evs s :=
    (h.guarded_iff fun evs s e s' hrun hs => available_step (Bounded.run hrun) hs).2
  have hinit : (init nominal : HedgeSystem T).available = nominal.toNat := rfl
  have hs : s.available = s.budget.tokens.toNat := by rw [available, hzero, Nat.add_zero]
  rw [← hiff, hinit, hs, UInt64.toNat_inj]

/-- The rate rises over 5% for one tick and is 0 again. -/
def shedEpisode : List (HedgeEvent Unit) :=
  [.setLoadShedRate (.fin (6 / 100)), .feedback, .feedback,
   .setLoadShedRate (.fin 0), .feedback, .feedback]

/-- The timeout around a call elapses while both attempts are in flight. -/
def timedOutHedge : List (HedgeEvent Unit) :=
  [.hedgedCall, .input 0 (.trigger true), .input 0 (.op false), .input 0 (.op false),
   .input 0 .drop, .setLoadShedRate (.fin 0), .feedback, .feedback]

/-- Tokens lost for good, with a full effective capacity and no call in progress. -/
theorem budget_not_recovered :
    (∃ s, Run 100 shedEpisode s ∧ s.calls = [] ∧ s.lastRate = some (.fin 0) ∧
      s.feedback = .idle ∧ s.budget = ⟨0, 100, 100⟩) ∧
    ∃ s, Run 100 timedOutHedge s ∧ s.calls = [.dropped true] ∧ s.lastRate = some (.fin 0) ∧
      s.feedback = .idle ∧ s.budget = ⟨99, 100, 100⟩ := by
  refine ⟨?_, ?_⟩
  · exact Lib.run_of_exec_any (show (Lib.exec step (init 100) shedEpisode).any _ = true by
      decide +kernel)
  · exact Lib.run_of_exec_any (show (Lib.exec step (init 100) timedOutHedge).any _ = true by
      decide +kernel)

/-- The only token is out while the rate is over 1%, and comes back after. -/
def coveredEpisode : List (HedgeEvent Unit) :=
  [.hedgedCall, .input 0 (.trigger true), .input 0 (.op false), .input 0 (.op false),
   .setLoadShedRate (.fin (2 / 100)), .feedback, .feedback,
   .setLoadShedRate (.fin 0), .feedback, .feedback,
   .input 0 (.returns ()), .input 0 (.op false), .input 0 (.op false)]

theorem budget_recovers_covered : ∃ s : HedgeSystem Unit, Run 1 coveredEpisode s ∧
    s.calls = [.returned ()] ∧ s.lastRate = some (.fin 0) ∧ s.budget.tokens = 1 := by
  obtain ⟨s, hrun, hcalls, hrate⟩ := Lib.run_of_exec_any
    (P := fun s : HedgeSystem Unit => s.calls = [.returned ()] ∧ s.lastRate = some (.fin 0))
    (show (Lib.exec (fun s e => if s.Keeps e then step s e else none) (init 1)
      coveredEpisode).any _ = true by decide +kernel)
  have hguarded := hrun.guarded_of_check
  refine ⟨s, hguarded.of_guarded, hcalls, hrate, ?_⟩
  apply (budget_recovers_iff hguarded.of_guarded ?_).2 hguarded
  rw [hcalls]
  decide

end HedgeSystem

end RTB
