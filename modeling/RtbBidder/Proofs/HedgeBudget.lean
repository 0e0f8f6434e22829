import RtbBidder.Spec.Hedge

/-! Tokens are only moved: a call takes one off the counter and adds at most that one
back, and the clamps only lower the counter. A counter above the capacity is always
some task's to clamp: the feedback task's between its store and its `fetch_min`, or
that of a restore whose sum is above the capacity or whose clamp is at most it. -/

namespace RTB

open Lib (F64)

theorem HedgeBudget.fifth_le (b : HedgeBudget) : b.fifth ≤ b.nominal := by
  have hn := Lib.roundEven_le_two_mul 53 b.nominal.toNat
  have hp := Lib.roundEven_le_two_mul 53 (Lib.roundEven 53 b.nominal.toNat * 3602879701896397)
  rw [UInt64.le_iff_toNat_le, fifth, UInt64.toNat_ofNat']
  refine (Nat.mod_le _ _).trans ?_
  omega

theorem HedgeBudget.effective_le (b : HedgeBudget) (rate : F64) : b.effective rate ≤ b.nominal := by
  unfold effective
  split_ifs
  · exact UInt64.zero_le
  · exact b.fifth_le
  · exact UInt64.le_refl _

namespace HedgedCall

variable {T : Type*}

/-- The token a call has taken and not added back, also if it was dropped with it. -/
def taken : HedgedCall T → ℕ
  | .hedged | .restore _ | .dropped true => 1
  | _ => 0

/-- The token of a call in flight. -/
def held : HedgedCall T → ℕ
  | .hedged | .restore _ => 1
  | _ => 0

/-- Part-way through `restore`. -/
def restoring : HedgedCall T → Bool
  | .added _ _ | .clamp _ _ => true
  | _ => false

/-- The rest of the call's `restore` brings the counter down to `cap`. -/
def Clamps (cap : UInt64) : HedgedCall T → Prop
  | .added _ new => cap < new
  | .clamp _ c => c ≤ cap
  | _ => False

theorem held_le_taken (c : HedgedCall T) : c.held ≤ c.taken := by
  rcases c with _ | _ | _ | _ | _ | _ | _ | _ | _ | token <;>
    simp only [held, taken, le_refl, zero_le]

theorem Clamps.restoring {cap : UInt64} {c : HedgedCall T} (h : c.Clamps cap) :
    c.restoring = true := by
  cases c <;> first | rfl | exact h.elim

/-- What a step of a call does to the budget. -/
inductive Moves (b : HedgeBudget) :
    HedgedCall T → HedgeInput T → HedgeBudget → HedgedCall T → Prop
  | quiet {c c' x} (hc : c.restoring = false) (ht : c'.taken = c.taken) (hh : c'.held = c.held)
      (hx : c = .hedged → x ≠ .drop) : Moves b c x b c'
  | take (h : b.tokens ≠ 0) :
      Moves b (.exchange b.tokens h) (.op false) { b with tokens := b.tokens - 1 } .hedged
  | lose : Moves b .hedged .drop b (.dropped true)
  | add (r : T) (o : Bool) :
      Moves b (.restore r) (.op o) { b with tokens := b.tokens + 1 } (.added r (b.tokens + 1))
  | keep {r : T} {new : UInt64} (o : Bool) (h : ¬ b.effectiveCap < new) :
      Moves b (.added r new) (.op o) b (.returned r)
  | load {r : T} {new : UInt64} (o : Bool) (h : b.effectiveCap < new) :
      Moves b (.added r new) (.op o) b (.clamp r b.effectiveCap)
  | clamp (r : T) (cap : UInt64) (o : Bool) :
      Moves b (.clamp r cap) (.op o) (b.fetchMin cap) (.returned r)

theorem attempt_quiet (current : UInt64) :
    (attempt current : HedgedCall T).taken = 0 ∧ (attempt current : HedgedCall T).held = 0 := by
  unfold attempt
  split_ifs <;> exact ⟨rfl, rfl⟩

theorem step_moves {b b' : HedgeBudget} {c c' : HedgedCall T} {x : HedgeInput T}
    (h : c.step b x = some (b', c')) : Moves b c x b' c' := by
  cases c <;> cases x <;> simp only [step, reduceCtorEq, Option.some.injEq, Prod.mk.injEq] at h
  case first.trigger closed =>
    obtain ⟨rfl, rfl⟩ := h
    cases closed <;> exact .quiet rfl rfl rfl (by simp)
  case consume.op o =>
    obtain ⟨rfl, rfl⟩ := h
    obtain ⟨ht, hh⟩ := attempt_quiet (T := T) b.tokens
    exact .quiet rfl ht hh (by simp)
  case exchange.op current hne o =>
    split_ifs at h with hx
    · obtain ⟨rfl, rfl⟩ := hx
      simp only [Option.some.injEq, Prod.mk.injEq] at h
      obtain ⟨rfl, rfl⟩ := h
      exact .take hne
    · simp only [Option.some.injEq, Prod.mk.injEq] at h
      obtain ⟨rfl, rfl⟩ := h
      obtain ⟨ht, hh⟩ := attempt_quiet (T := T) b.tokens
      exact .quiet rfl ht hh (by simp)
  case hedged.drop =>
    obtain ⟨rfl, rfl⟩ := h
    exact .lose
  case restore.op r o =>
    obtain ⟨rfl, rfl⟩ := h
    exact .add r o
  case added.op r new o =>
    obtain ⟨rfl, rfl⟩ := h
    split_ifs with hcap
    · exact .load o hcap
    · exact .keep o hcap
  case clamp.op r cap o =>
    obtain ⟨rfl, rfl⟩ := h
    exact .clamp r cap o
  all_goals
    obtain ⟨rfl, rfl⟩ := h
    exact .quiet rfl rfl rfl (by simp)

end HedgedCall

/-- Between the store and the `fetch_min` of `set_load_shed_rate`. -/
def Feedback.partWay : Feedback → Bool
  | .clamp _ => true
  | _ => false

namespace HedgeSystem

variable {T : Type*} {nominal : UInt64} {s s' : HedgeSystem T} {i : ℕ} {c c' : HedgedCall T}
  {x : HedgeInput T} {b' : HedgeBudget}

/-- The tokens taken and not added back. -/
def taken (s : HedgeSystem T) : ℕ := (s.calls.map HedgedCall.taken).sum

/-- The hedges in flight. -/
def inFlight (s : HedgeSystem T) : ℕ := (s.calls.map HedgedCall.held).sum

/-- Call `i` has moved to `c'` and left the budget at `b'`. -/
def moved (s : HedgeSystem T) (i : ℕ) (b' : HedgeBudget) (c' : HedgedCall T) : HedgeSystem T :=
  { s with budget := b', calls := s.calls.set i c' }

theorem taken_moved (hi : s.calls[i]? = some c) (b' : HedgeBudget) (c' : HedgedCall T) :
    (s.moved i b' c').taken + c.taken = s.taken + c'.taken := Lib.sum_map_set _ hi

theorem inFlight_moved (hi : s.calls[i]? = some c) (b' : HedgeBudget) (c' : HedgedCall T) :
    (s.moved i b' c').inFlight + c.held = s.inFlight + c'.held := Lib.sum_map_set _ hi

theorem inFlight_le_taken (s : HedgeSystem T) : s.inFlight ≤ s.taken :=
  List.sum_le_sum fun c _ => c.held_le_taken

/-- A counter above the capacity is about to be clamped. -/
def Capped (s : HedgeSystem T) : Prop :=
  s.budget.effectiveCap < s.budget.tokens →
    s.feedback.partWay = true ∨ ∃ c ∈ s.calls, c.Clamps s.budget.effectiveCap

/-- The call that moves was not the one to clamp. -/
theorem Capped.moved_other (h : s.Capped) (hi : s.calls[i]? = some c)
    (hcap : b'.effectiveCap = s.budget.effectiveCap)
    (hc : b'.effectiveCap < b'.tokens →
      b'.effectiveCap < s.budget.tokens ∧ ¬ c.Clamps b'.effectiveCap) :
    (s.moved i b' c').Capped := by
  intro hlt
  obtain ⟨hover, hnot⟩ := hc hlt
  rw [hcap] at hover hnot
  rcases h hover with hf | ⟨z, hz, hclamps⟩
  · exact .inl hf
  · have hne : z ≠ c := fun heq => hnot (heq ▸ hclamps)
    refine .inr ⟨z, Lib.mem_set_other hi hz hne, ?_⟩
    rw [moved, hcap]
    exact hclamps

/-- The call that moves is now the one to clamp. -/
theorem capped_moved_self (hi : s.calls[i]? = some c)
    (hc : b'.effectiveCap < b'.tokens → c'.Clamps b'.effectiveCap) : (s.moved i b' c').Capped :=
  fun hlt => .inr ⟨c', Lib.mem_set_moved hi, hc hlt⟩

theorem toNat_sub_one {t : UInt64} (h : t ≠ 0) : (t - 1).toNat + 1 = t.toNat := by
  have hpos : t.toNat ≠ 0 := fun h0 => h (UInt64.toNat_inj.1 h0)
  have hone : (1 : UInt64) ≤ t := by
    rw [UInt64.le_iff_toNat_le, UInt64.toNat_one]
    omega
  rw [UInt64.toNat_sub_of_le _ _ hone, UInt64.toNat_one]
  omega

theorem Capped.call (h : s.Capped) (hi : s.calls[i]? = some c)
    (hm : c.Moves s.budget x b' c') : (s.moved i b' c').Capped := by
  cases hm with
  | quiet hc _ _ _ =>
    refine h.moved_other hi rfl fun hlt => ⟨hlt, fun hclamps => ?_⟩
    rw [hclamps.restoring] at hc
    cases hc
  | take hne =>
    refine h.moved_other hi rfl fun hlt => ⟨?_, id⟩
    have hsub := toNat_sub_one hne
    have hlt : s.budget.effectiveCap.toNat < (s.budget.tokens - 1).toNat :=
      UInt64.lt_iff_toNat_lt.1 hlt
    exact UInt64.lt_iff_toNat_lt.2 (hlt.trans_le (by omega))
  | lose => exact h.moved_other hi rfl fun hlt => ⟨hlt, id⟩
  | add r o => exact capped_moved_self hi id
  | keep o hle => exact h.moved_other hi rfl fun hlt => ⟨hlt, hle⟩
  | load o hlt => exact capped_moved_self hi fun _ => UInt64.le_refl _
  | clamp r cap o =>
    refine h.moved_other hi rfl fun hlt => ?_
    simp only [HedgeBudget.fetchMin, UInt64.lt_iff_toNat_lt, UInt64.toNat_min, lt_min_iff] at hlt
    refine ⟨UInt64.lt_iff_toNat_lt.2 hlt.1, fun hclamps => ?_⟩
    have : cap.toNat ≤ s.budget.effectiveCap.toNat := UInt64.le_iff_toNat_le.1 hclamps
    omega

/-- What holds of the budget in every state. -/
structure Bounded (nominal : UInt64) (s : HedgeSystem T) : Prop where
  nominal_eq : s.budget.nominal = nominal
  tokens : s.budget.tokens.toNat + s.taken ≤ nominal.toNat
  cap : s.budget.effectiveCap ≤ nominal
  stores : ∀ e, s.feedback = .store e → e ≤ nominal
  clamps : ∀ e, s.feedback = .clamp e → s.budget.effectiveCap = e
  capped : s.Capped

theorem Bounded.init : Bounded nominal (init nominal : HedgeSystem T) where
  nominal_eq := rfl
  tokens := le_rfl
  cap := UInt64.le_refl _
  stores := nofun
  clamps := nofun
  capped := fun h => absurd h (UInt64.lt_irrefl _)

/-- A token that is added back fits the counter. -/
theorem Bounded.add_one (h : Bounded nominal s) {r : T} (hi : s.calls[i]? = some (.restore r)) :
    (s.budget.tokens + 1).toNat = s.budget.tokens.toNat + 1 := by
  have hmoved := taken_moved hi s.budget (.returned r)
  have hbound := h.tokens
  have hlt := nominal.toNat_lt
  simp only [HedgedCall.taken] at hmoved
  rw [UInt64.toNat_add, UInt64.toNat_one, Nat.mod_eq_of_lt (by omega)]

theorem Bounded.call_tokens (h : Bounded nominal s) (hi : s.calls[i]? = some c)
    (hm : c.Moves s.budget x b' c') :
    b'.tokens.toNat + (s.moved i b' c').taken ≤ nominal.toNat := by
  have hmoved := taken_moved hi b' c'
  have hbound := h.tokens
  cases hm with
  | quiet _ ht _ _ => omega
  | take hne =>
    have hsub := toNat_sub_one hne
    simp only [HedgedCall.taken] at hmoved ⊢
    omega
  | add r o =>
    have hadd := h.add_one hi
    simp only [HedgedCall.taken] at hmoved ⊢
    omega
  | clamp r cap o =>
    simp only [HedgedCall.taken, HedgeBudget.fetchMin, UInt64.toNat_min] at hmoved ⊢
    omega
  | lose | keep | load =>
    simp only [HedgedCall.taken] at hmoved
    omega

theorem Bounded.call (h : Bounded nominal s) (hi : s.calls[i]? = some c)
    (hm : c.Moves s.budget x b' c') : Bounded nominal (s.moved i b' c') := by
  have hfix : b'.nominal = s.budget.nominal ∧ b'.effectiveCap = s.budget.effectiveCap := by
    cases hm <;> exact ⟨rfl, rfl⟩
  exact
    { nominal_eq := hfix.1.trans h.nominal_eq
      tokens := h.call_tokens hi hm
      cap := hfix.2 ▸ h.cap
      stores := h.stores
      clamps := fun e he => hfix.2.trans (h.clamps e he)
      capped := h.capped.call hi hm }

theorem Bounded.hedgedCall (h : Bounded nominal s) :
    Bounded nominal { s with calls := s.calls ++ [.first] } where
  nominal_eq := h.nominal_eq
  tokens := by simpa [taken, HedgedCall.taken] using h.tokens
  cap := h.cap
  stores := h.stores
  clamps := h.clamps
  capped := by
    intro hlt
    rcases h.capped hlt with hf | ⟨z, hz, hclamps⟩
    · exact .inl hf
    · exact .inr ⟨z, List.mem_append_left _ hz, hclamps⟩

theorem Bounded.setLoadShedRate (h : Bounded nominal s) (rate : F64) (hidle : s.feedback = .idle) :
    Bounded nominal
      { s with feedback := .store (s.budget.effective rate), lastRate := some rate } where
  nominal_eq := h.nominal_eq
  tokens := h.tokens
  cap := h.cap
  stores := by
    intro e he
    obtain rfl := Feedback.store.inj he
    exact h.nominal_eq ▸ s.budget.effective_le rate
  clamps := by simp
  capped := by
    intro hlt
    rcases h.capped hlt with hf | hcall
    · rw [hidle] at hf
      cases hf
    · exact .inr hcall

theorem Bounded.feedback (h : Bounded nominal s) (hs : step s .feedback = some s') :
    Bounded nominal s' := by
  have htokens := h.tokens
  cases hf : s.feedback with
  | idle => simp [step, hf] at hs
  | store e =>
    simp only [step, hf, Option.some.injEq] at hs
    subst hs
    exact
      { nominal_eq := h.nominal_eq
        tokens := htokens
        cap := h.stores e hf
        stores := by simp
        clamps := fun e' he => Feedback.clamp.inj he
        capped := fun _ => .inl rfl }
  | clamp e =>
    simp only [step, hf, Option.some.injEq] at hs
    subst hs
    exact
      { nominal_eq := h.nominal_eq
        tokens := by
          simp only [HedgeBudget.fetchMin, UInt64.toNat_min]
          exact (Nat.add_le_add_right (min_le_left _ _) _).trans htokens
        cap := h.cap
        stores := by simp
        clamps := by simp
        capped := by
          -- the store and the `fetch_min` are of one value
          intro hlt
          have hcap := h.clamps e hf
          simp only [HedgeBudget.fetchMin, UInt64.lt_iff_toNat_lt, UInt64.toNat_min, hcap,
            lt_min_iff, lt_self_iff_false, and_false] at hlt }

theorem Bounded.step {e : HedgeEvent T} (h : Bounded nominal s) (hs : step s e = some s') :
    Bounded nominal s' := by
  cases e with
  | hedgedCall =>
    obtain rfl := Option.some.inj hs
    exact h.hedgedCall
  | input i x =>
    obtain ⟨c, b', c', hi, hc, rfl⟩ := step_input_inv hs
    exact h.call hi (HedgedCall.step_moves hc)
  | setLoadShedRate rate =>
    simp only [HedgeSystem.step] at hs
    split_ifs at hs with hidle
    obtain rfl := Option.some.inj hs
    exact h.setLoadShedRate rate hidle
  | feedback => exact h.feedback hs

theorem Bounded.run {evs : List (HedgeEvent T)} (h : Run nominal evs s) : Bounded nominal s := by
  refine Lib.Run.inv (I := Bounded nominal) ?_ ?_ h
  · intro s h0
    subst h0
    exact .init
  · intro s e s' hi hs
    exact hi.step hs

/-- Tokens and the tokens out never pass the nominal capacity, and the counter is within
the effective capacity whenever no restore and no `set_load_shed_rate` is part-way. -/
theorem budget_never_exceeded {evs : List (HedgeEvent T)} (h : Run nominal evs s) :
    s.budget.tokens.toNat + s.taken ≤ nominal.toNat ∧ s.inFlight ≤ nominal.toNat ∧
      ((∀ c ∈ s.calls, c.restoring = false) → s.feedback.partWay = false →
        s.budget.tokens ≤ s.budget.effectiveCap) := by
  have hb := Bounded.run h
  refine ⟨hb.tokens, ?_, ?_⟩
  · have hle := s.inFlight_le_taken
    have := hb.tokens
    omega
  · intro hcalls hfeedback
    by_contra hover
    rcases hb.capped (UInt64.not_le.1 hover) with hf | ⟨c, hc, hclamps⟩
    · rw [hfeedback] at hf
      cases hf
    · have := hcalls c hc
      rw [hclamps.restoring] at this
      cases this

/-- Two calls hedge, one after a weak exchange that failed for no reason, and the
capacity falls to a fifth. Both tokens are added back before either call clamps. -/
def overlappingRestores : List (HedgeEvent Unit) :=
  [.hedgedCall, .hedgedCall,
   .input 0 (.trigger true), .input 0 (.op false), .input 0 (.op true), .input 0 (.op false),
   .input 1 (.trigger true), .input 1 (.op false), .input 1 (.op false),
   .setLoadShedRate (.fin (2 / 100)), .input 0 (.returns ()), .feedback, .feedback,
   .input 1 (.returns ()), .input 0 (.op false), .input 1 (.op false),
   .input 1 (.op false), .input 0 (.op false), .input 0 (.op false), .input 1 (.op false)]

-- with both tokens back and no clamp yet the counter is above the capacity
example : (Lib.exec step (init 10) (overlappingRestores.take 16)).any
    (fun s => decide (s.budget.tokens = 4 ∧ s.budget.effectiveCap = 2)) = true := by
  decide +kernel

theorem budget_never_exceeded_overlap : ∃ s : HedgeSystem Unit, Run 10 overlappingRestores s ∧
    (s.budget.tokens = 2 ∧ s.calls = [.returned (), .returned ()] ∧ s.feedback = .idle) ∧
    s.budget.tokens.toNat + s.taken ≤ 10 ∧ s.inFlight ≤ 10 ∧
    s.budget.tokens ≤ s.budget.effectiveCap := by
  obtain ⟨s, hrun, hs⟩ := Lib.run_of_exec_any (P := fun s : HedgeSystem Unit =>
      s.budget.tokens = 2 ∧ s.calls = [.returned (), .returned ()] ∧ s.feedback = .idle)
    (show (Lib.exec step (init 10) overlappingRestores).any _ = true by decide +kernel)
  obtain ⟨-, hcalls, hfeedback⟩ := id hs
  obtain ⟨htokens, hflight, hcap⟩ := budget_never_exceeded hrun
  refine ⟨s, hrun, hs, htokens, hflight, hcap ?_ ?_⟩
  · rw [hcalls]
    decide
  · rw [hfeedback]
    rfl

end HedgeSystem

end RTB
