import RtbBidder.Proofs.BreakerProbe
import RtbBidder.Spec.BreakerAutomaton

/-! The breaker refines its automaton. In a closed period the three counters are those
of the block in progress; in the other states they may hold anything, as every way
into a closed period resets them. -/

namespace RTB

/-- The counters of a block. -/
def windowOf (block : List Outcome) : Window :=
  ⟨block.length, block.countP (·.error), block.countP (·.slow)⟩

theorem windowOf_snoc (block : List Outcome) (o : Outcome) :
    (windowOf block).record o.error o.slow = windowOf (block ++ [o]) := by
  obtain ⟨error, slow⟩ := o
  cases error <;> cases slow <;> simp [windowOf, Window.record]

namespace BreakerAutomaton

open CircuitBreaker

/-- The breaker is where the automaton is. -/
def Matches (cfg : BreakerConfig) (now : ℕ) (b : CircuitBreaker) : Phase → Prop
  | .Closed outcomes => b.inner.state = .Closed ∧
      b.window = windowOf (Lib.pending (max 1 cfg.windowSize) outcomes)
  | .Open since => b.inner.state = .Open ∧ b.inner.openedAt = some since ∧ since ≤ now
  | .HalfOpen => b.inner.state = .HalfOpen ∧ b.inner.halfOpenProbeInFlight = true

variable {cfg : BreakerConfig} {now : ℕ} {b : CircuitBreaker} {p : Phase}

theorem Matches.state (h : Matches cfg now b p) : b.inner.state = p.state := by
  cases p with
  | Closed => exact h.1
  | Open => exact h.1
  | HalfOpen => exact h.1

theorem Matches.advance (h : Matches cfg now b p) (d : ℕ) : Matches cfg (now + d) b p := by
  cases p with
  | Closed => exact h
  | Open => exact ⟨h.1, h.2.1, h.2.2.trans (Nat.le_add_right _ _)⟩
  | HalfOpen => exact h

theorem Matches.allowRequest (h : Matches cfg now b p) :
    (b.allowRequest cfg now).1 = (BreakerAutomaton.allowRequest cfg now p).1 ∧
      Matches cfg now (b.allowRequest cfg now).2 (BreakerAutomaton.allowRequest cfg now p).2 := by
  cases p with
  | Closed outcomes =>
    have hb : b.allowRequest cfg now = (true, b) := by
      simp [CircuitBreaker.allowRequest, allowRead, h.1]
    rw [hb]
    exact ⟨rfl, h⟩
  | Open since =>
    obtain ⟨hs, hat, hpast⟩ := h
    have he : b.elapsed now = now - since := by simp [elapsed, hat]
    simp only [CircuitBreaker.allowRequest, allowRead, hs, BreakerAutomaton.allowRequest]
    by_cases hlong : since + cfg.openDuration ≤ now
    · have hnot : ¬ b.elapsed now < cfg.openDuration := by omega
      have hlate : b.Claimable cfg now := .inr ⟨hs, not_lt.1 hnot⟩
      have hclaim := tryEnterHalfOpen_claims hlate
      rw [if_neg hnot, if_pos hlong]
      exact ⟨hclaim.1, by rw [hclaim.2], by rw [hclaim.2]⟩
    · rw [if_pos (by omega), if_neg hlong]
      exact ⟨rfl, hs, hat, hpast⟩
  | HalfOpen =>
    obtain ⟨hs, hp⟩ := h
    have hb : b.allowRequest cfg now = (false, b) := by
      simp only [CircuitBreaker.allowRequest, allowRead, hs]
      apply tryEnterHalfOpen_refuses
      simp [Claimable, hs, hp]
    rw [hb]
    exact ⟨rfl, hs, hp⟩

/-- The thresholds read off the counters of a block with a call in it. -/
theorem rateReaches_iff {n calls : ℕ} (h : calls ≠ 0) (threshold : ℚ) :
    rateReaches n calls threshold = true ↔ threshold ≤ (n : ℚ) / calls := by
  simp [rateReaches, h]

/-- An outcome in a closed period is counted in the block in progress, which is then
judged and, if full, ended. -/
theorem matches_recordLocked_closed {outcomes : List Outcome} (o : Outcome)
    (hs : b.inner.state = .Closed)
    (hw : b.window = windowOf (Lib.lastBlock (max 1 cfg.windowSize) (outcomes ++ [o]))) :
    Matches cfg now (b.recordLocked cfg now o.error o.slow b.window.snapshot)
      (recordOutcome cfg now o (.Closed outcomes)) := by
  have hblock := Lib.lastBlock_snoc (n := max 1 cfg.windowSize) outcomes o
  have hpending := Lib.pending_snoc (n := max 1 cfg.windowSize) (by omega) outcomes o
  have hmod := Lib.length_pending (n := max 1 cfg.windowSize) outcomes
  have hlt := Nat.mod_lt outcomes.length (show 0 < max 1 cfg.windowSize by omega)
  have hlen : (Lib.lastBlock (max 1 cfg.windowSize) (outcomes ++ [o])).length =
      (Lib.pending (max 1 cfg.windowSize) outcomes).length + 1 := by rw [hblock]; simp
  have htrips : (cfg.minCalls ≤ b.window.snapshot.1 ∧
      (rateReaches b.window.snapshot.2.1 b.window.snapshot.1 cfg.errorRateThreshold ∨
        rateReaches b.window.snapshot.2.2 b.window.snapshot.1 cfg.slowCallRatioThreshold)) ↔
      Trips cfg (outcomes ++ [o]) := by
    have hne : (Lib.lastBlock (max 1 cfg.windowSize) (outcomes ++ [o])).length ≠ 0 := by omega
    simp only [Trips, Window.snapshot, hw, windowOf, rateReaches_iff hne]
  simp only [recordLocked, hs, htrips, recordOutcome]
  by_cases ht : Trips cfg (outcomes ++ [o])
  · rw [if_pos ht, if_pos ht]
    split_ifs <;> exact ⟨rfl, rfl, le_rfl⟩
  · rw [if_neg ht, if_neg ht]
    have hfull : cfg.windowSize ≤ b.window.snapshot.1 ↔
        (Lib.pending (max 1 cfg.windowSize) outcomes).length + 1 = max 1 cfg.windowSize := by
      simp only [Window.snapshot, hw, windowOf, hlen]
      omega
    by_cases hend : cfg.windowSize ≤ b.window.snapshot.1
    · rw [if_pos (hfull.1 hend)] at hpending
      rw [if_pos hend]
      exact ⟨hs, by rw [hpending]; rfl⟩
    · rw [if_neg (fun h => hend (hfull.2 h))] at hpending
      rw [if_neg hend]
      exact ⟨hs, by rw [hpending, ← hblock]; exact hw⟩

theorem Matches.recordOutcome (h : Matches cfg now b p) (error : Bool) (duration : ℕ) :
    Matches cfg now (b.recordOutcome cfg now error duration)
      (BreakerAutomaton.recordOutcome cfg now ⟨error, cfg.slowCallDuration ≤ duration⟩ p) := by
  cases p with
  | Closed outcomes =>
    obtain ⟨hs, hw⟩ := h
    refine matches_recordLocked_closed ⟨error, cfg.slowCallDuration ≤ duration⟩ hs ?_
    rw [Lib.lastBlock_snoc, ← windowOf_snoc, ← hw]
    rfl
  | Open since =>
    simp only [CircuitBreaker.recordOutcome, recordLocked, h.1, BreakerAutomaton.recordOutcome]
    exact h
  | HalfOpen =>
    simp only [CircuitBreaker.recordOutcome, recordLocked, h.1, BreakerAutomaton.recordOutcome,
      isSlow]
    split_ifs
    · exact ⟨rfl, rfl, le_rfl⟩
    · exact ⟨rfl, by simp [windowOf, Window.reset]⟩

/-- Along every sequence of operations the breaker is in the automaton's state, opened
when the automaton says it did, and has given the same answers. -/
theorem breaker_refines_automaton (cfg : BreakerConfig) (ops : List BreakerOp) :
    (BreakerUse.run cfg ops).breaker.inner.state = (BreakerAutomaton.run cfg ops).phase.state ∧
    (∀ since, (BreakerAutomaton.run cfg ops).phase = .Open since →
      (BreakerUse.run cfg ops).breaker.inner.openedAt = some since) ∧
    (BreakerUse.run cfg ops).answers = (BreakerAutomaton.run cfg ops).answers := by
  let R : BreakerUse → BreakerAutomaton → Prop := fun s a =>
    s.now = a.now ∧ Matches cfg a.now s.breaker a.phase ∧ s.answers = a.answers
  have hsim : R (BreakerUse.run cfg ops) (BreakerAutomaton.run cfg ops) := by
    refine List.foldl_rel ⟨rfl, ⟨rfl, by simp [BreakerUse.init, CircuitBreaker.new, windowOf,
      Window.new]⟩, rfl⟩ ?_
    intro op _ s a hrel
    obtain ⟨hnow, hm, hans⟩ := hrel
    cases op with
    | allowRequest =>
      obtain ⟨hr, hm'⟩ := hm.allowRequest
      simp only [R, BreakerUse.step, BreakerAutomaton.step, hnow]
      exact ⟨trivial, hm', by rw [hans, hr]⟩
    | recordOutcome error duration =>
      simp only [R, BreakerUse.step, BreakerAutomaton.step, hnow]
      exact ⟨trivial, hm.recordOutcome error duration, hans⟩
    | advance d =>
      simp only [R, BreakerUse.step, BreakerAutomaton.step, hnow]
      exact ⟨trivial, hm.advance d, hans⟩
  obtain ⟨-, hm, hans⟩ := hsim
  refine ⟨hm.state, ?_, hans⟩
  intro since hopen
  rw [hopen] at hm
  exact hm.2.1

/-- Two of four errors end a block of ten calls, the other two begin the next one, which
opens the breaker at its third call. -/
example : (BreakerAutomaton.run ⟨3, 1 / 2, 1 / 2, 100, 50, 10⟩
    (List.replicate 8 (.recordOutcome false 1) ++ List.replicate 4 (.recordOutcome true 1) ++
      [.recordOutcome false 1])).phase.state = .Open := by decide +kernel

end BreakerAutomaton

end RTB
