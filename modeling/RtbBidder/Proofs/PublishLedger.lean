import RtbBidder.Lib.Tasks
import RtbBidder.Spec.PublishSteps

/-! Where the events handed to the Kafka publisher go, for every interleaving of its calls
with the delivery callbacks and the monitor: each is published, dropped or still on its way
exactly once, and of those that come to be sampled one in ten gets through. -/

namespace RTB

/-- The call has yet to come past the sample counter. -/
def PublishCall.early : PublishCall → Bool
  | .load | .sample => true
  | _ => false

namespace PublishSystem

variable {cfg : MonitorConfig} {policy : KafkaDropPolicy} {p : EffectivePolicy}
  {evs : List PublishEvent} {e : PublishEvent} {s s' t : PublishSystem} {c c' : PublishCall}
  {result : SendResult}

/-- The events that the counters or the producer account for. -/
def recorded (s : PublishSystem) : ℕ :=
  s.state.publishedTotal + s.state.droppedTotal + s.inFlight

section Step

/-- What an operation of a call does to the counts, and what it leaves alone. -/
structure Moved (s t : PublishSystem) (c c' : PublishCall) : Prop where
  phase : t.phase = s.phase
  policy : t.state.effective = s.state.effective
  flip : t.state.autoFlip = s.state.autoFlip
  recorded : t.recorded + (if !c'.returned then 1 else 0) =
    s.recorded + if !c.returned then 1 else 0
  sampled : (if c'.sampledOut then 1 else 0) + (t.sampleCounter + 9) / 10 + s.sampleCounter =
    (if c.sampledOut then 1 else 0) + (s.sampleCounter + 9) / 10 + t.sampleCounter
  /-- while all events are to be sampled, none gets past the counter without a number -/
  numbered : s.state.effective = .RandomSample →
    t.sampleCounter + (if c'.early then 1 else 0) = s.sampleCounter + if c.early then 1 else 0
  unsampled : s.state.effective ≠ .RandomSample → c ≠ .sample →
    t.sampleCounter = s.sampleCounter ∧ c' ≠ .sample

theorem callStep_calls (h : s.callStep result c = some (t, c')) : t.calls = s.calls := by
  cases c <;> cases result <;> simp only [callStep, Option.some.injEq, Prod.mk.injEq, reduceCtorEq] at h
  all_goals
    obtain ⟨rfl, -⟩ := h
    rfl

theorem callStep_moved (h : s.callStep result c = some (t, c')) : Moved s t c c' := by
  cases c with
  | load =>
    obtain ⟨rfl, rfl⟩ := Prod.mk.inj (Option.some.inj h)
    by_cases hp : s.state.effective = .RandomSample
    · rw [if_pos hp]
      exact ⟨rfl, rfl, rfl, rfl, rfl, fun _ => rfl, fun hne => absurd hp hne⟩
    · rw [if_neg hp]
      exact ⟨rfl, rfl, rfl, rfl, rfl, fun heq => absurd heq hp, fun _ _ => ⟨rfl, nofun⟩⟩
  | sample =>
    obtain ⟨rfl, rfl⟩ := Prod.mk.inj (Option.some.inj h)
    -- the number taken decides, and the tenth one is where the rounded-up quotient moves
    by_cases hn : s.sampleCounter % RANDOM_SAMPLE_DENOMINATOR ≠ 0
    · rw [if_pos hn]
      refine ⟨rfl, rfl, rfl, rfl, ?_, fun _ => rfl, fun _ hc => absurd rfl hc⟩
      simp only [RANDOM_SAMPLE_DENOMINATOR] at hn
      simp only [PublishCall.sampledOut, if_true, Bool.false_eq_true, if_false]
      omega
    · rw [if_neg hn]
      refine ⟨rfl, rfl, rfl, rfl, ?_, fun _ => rfl, fun _ hc => absurd rfl hc⟩
      simp only [RANDOM_SAMPLE_DENOMINATOR] at hn
      simp only [PublishCall.sampledOut, Bool.false_eq_true, if_false]
      omega
  | skip =>
    obtain ⟨rfl, rfl⟩ := Prod.mk.inj (Option.some.inj h)
    refine ⟨rfl, rfl, rfl, ?_, rfl, fun _ => rfl, fun _ _ => ⟨rfl, nofun⟩⟩
    simp only [PublishSystem.recorded, KafkaIncidentState.recordDropped, PublishCall.returned]
    simp
    omega
  | send =>
    cases result with
    | enqueued =>
      obtain ⟨rfl, rfl⟩ := Prod.mk.inj (Option.some.inj h)
      exact ⟨rfl, rfl, rfl, rfl, rfl, fun _ => rfl, fun _ _ => ⟨rfl, nofun⟩⟩
    | queueFull | enqueueError =>
      obtain ⟨rfl, rfl⟩ := Prod.mk.inj (Option.some.inj h)
      exact ⟨rfl, rfl, rfl, rfl, rfl, fun _ => rfl, fun _ _ => ⟨rfl, nofun⟩⟩
  | refused =>
    obtain ⟨rfl, rfl⟩ := Prod.mk.inj (Option.some.inj h)
    refine ⟨rfl, rfl, rfl, ?_, rfl, fun _ => rfl, fun _ _ => ⟨rfl, nofun⟩⟩
    simp only [PublishSystem.recorded, KafkaIncidentState.recordDropped, PublishCall.returned]
    simp
    omega
  | skipped | failed | enqueued => exact absurd h nofun

/-- A step of the callbacks or the monitor, which leaves the calls alone. -/
structure Quiet (s s' : PublishSystem) : Prop where
  calls : s'.calls = s.calls
  recorded : s'.recorded = s.recorded
  sampleCounter : s'.sampleCounter = s.sampleCounter

theorem step_cases (h : step cfg s e = some s') :
    s' = { s with calls := s.calls ++ [.load] } ∨
    (∃ i c c', s.calls[i]? = some c ∧ s'.calls = s.calls.set i c' ∧ Moved s s' c c') ∨
    (Quiet s s' ∧ s'.phase = s.phase ∧ s'.state.effective = s.state.effective ∧
      s'.state.autoFlip = s.state.autoFlip) ∨
    Quiet s s' ∧ s' = s.monitorStep cfg := by
  cases e with
  | publish => exact .inl (Option.some.inj h).symm
  | op i result =>
    obtain ⟨c, hc, hmap⟩ := Option.bind_eq_some_iff.1 h
    obtain ⟨⟨t, c'⟩, hstep, rfl⟩ := Option.map_eq_some_iff.1 hmap
    have hm := callStep_moved hstep
    refine .inr (.inl ⟨i, c, c', hc, ?_, ?_⟩)
    · rw [callStep_calls hstep]
    · exact ⟨hm.phase, hm.policy, hm.flip, hm.recorded, hm.sampled, hm.numbered, hm.unsampled⟩
  | delivery acked =>
    simp only [step] at h
    split_ifs at h with h0 hacked
    · obtain rfl := Option.some.inj h
      refine .inr (.inr (.inl ⟨⟨rfl, ?_, rfl⟩, rfl, rfl, rfl⟩))
      simp only [PublishSystem.recorded, KafkaIncidentState.recordPublished]
      omega
    · obtain rfl := Option.some.inj h
      refine .inr (.inr (.inl ⟨⟨rfl, ?_, rfl⟩, rfl, rfl, rfl⟩))
      simp only [PublishSystem.recorded, KafkaIncidentState.recordDropped]
      omega
  | monitor =>
    obtain rfl := Option.some.inj h
    refine .inr (.inr (.inr ⟨?_, rfl⟩))
    unfold monitorStep
    split <;> exact ⟨rfl, rfl, rfl⟩

end Step

section Ledger

/-- What holds of the counts whatever the policies were. -/
structure Ledger (s : PublishSystem) : Prop where
  recorded : s.recorded + s.calls.countP (!·.returned) = s.calls.length
  sampled : s.calls.countP PublishCall.sampledOut + (s.sampleCounter + 9) / 10 = s.sampleCounter

theorem Ledger.step (hl : Ledger s) (h : PublishSystem.step cfg s e = some s') : Ledger s' := by
  obtain ⟨hrec, hsam⟩ := hl
  obtain rfl | ⟨i, c, c', hc, hcalls, hm⟩ | ⟨hq, -⟩ | ⟨hq, -⟩ := step_cases h
  · refine ⟨?_, ?_⟩
    · have hload : [PublishCall.load].countP (!·.returned) = 1 := rfl
      rw [List.countP_append, List.length_append, hload, ← hrec]
      rfl
    · simpa [PublishCall.sampledOut] using hsam
  · have hret := Lib.countP_set_add (!PublishCall.returned ·) c' hc
    have hout := Lib.countP_set_add PublishCall.sampledOut c' hc
    have hmrec := hm.recorded
    have hmsam := hm.sampled
    refine ⟨?_, ?_⟩
    · rw [hcalls, List.length_set]
      omega
    · rw [hcalls]
      omega
  · exact ⟨by rw [hq.recorded, hq.calls, hrec], by rw [hq.sampleCounter, hq.calls, hsam]⟩
  · exact ⟨by rw [hq.recorded, hq.calls, hrec], by rw [hq.sampleCounter, hq.calls, hsam]⟩

theorem ledger_run (h : Reached cfg policy evs s) : Ledger s := by
  refine h.inv (I := Ledger) ?_ fun s e s' hs hstep => hs.step hstep
  rintro s rfl
  exact ⟨rfl, by simp [PublishSystem.init]⟩

/-- The policy is one that the monitor leaves alone. -/
structure Fixed (p : EffectivePolicy) (s : PublishSystem) : Prop where
  flip : s.state.autoFlip = false
  policy : s.state.effective = p
  pending : ∀ q, s.phase = .store q → q = p
  numbered : p = .RandomSample →
    s.sampleCounter + s.calls.countP PublishCall.early = s.calls.length
  unsampled : p ≠ .RandomSample → s.sampleCounter = 0 ∧ ∀ c ∈ s.calls, c ≠ .sample

theorem Fixed.monitor (hf : Fixed p s) : Fixed p (s.monitorStep cfg) := by
  obtain ⟨hflip, hpol, hpend, hnum, hun⟩ := hf
  unfold monitorStep
  split
  · exact ⟨hflip, hpol, nofun, hnum, hun⟩
  · refine ⟨hflip, hpol, ?_, hnum, hun⟩
    rintro q hq
    obtain rfl := MonitorPhase.store.inj hq
    rw [Monitor.tick, if_pos hflip]
    exact hpol
  · rename_i q hphase
    exact ⟨hflip, hpend q hphase, nofun, hnum, hun⟩

theorem Fixed.step (hf : Fixed p s) (h : PublishSystem.step cfg s e = some s') : Fixed p s' := by
  obtain ⟨hflip, hpol, hpend, hnum, hun⟩ := hf
  obtain rfl | ⟨i, c, c', hc, hcalls, hm⟩ | ⟨hq, hphase, heff, hkeep⟩ | ⟨-, rfl⟩ := step_cases h
  · refine ⟨hflip, hpol, hpend, ?_, ?_⟩
    · intro hp
      have hnum := hnum hp
      simp only [List.countP_append, List.length_append]
      simp [PublishCall.early]
      omega
    · intro hp
      obtain ⟨h0, hnone⟩ := hun hp
      refine ⟨h0, ?_⟩
      simp only [List.forall_mem_append, List.forall_mem_singleton]
      exact ⟨hnone, nofun⟩
  · refine ⟨hm.flip.trans hflip, hm.policy.trans hpol, ?_, ?_, ?_⟩
    · intro q hq
      exact hpend q (hm.phase.symm.trans hq)
    · intro hp
      have hnum := hnum hp
      have hmove := hm.numbered (hpol.trans hp)
      have hearly := Lib.countP_set_add PublishCall.early c' hc
      rw [hcalls, List.length_set]
      omega
    · intro hp
      obtain ⟨h0, hnone⟩ := hun hp
      obtain ⟨hkeep, hc'⟩ := hm.unsampled (hpol.trans_ne hp) (hnone c (List.mem_of_getElem? hc))
      refine ⟨hkeep.trans h0, ?_⟩
      rw [hcalls]
      intro d hd
      rcases List.mem_or_eq_of_mem_set hd with hd | rfl
      · exact hnone d hd
      · exact hc'
  · refine ⟨hkeep.trans hflip, heff.trans hpol, ?_, ?_, ?_⟩
    · rw [hphase]
      exact hpend
    · rw [hq.sampleCounter, hq.calls]
      exact hnum
    · rw [hq.sampleCounter, hq.calls]
      exact hun
  · exact Fixed.monitor ⟨hflip, hpol, hpend, hnum, hun⟩

theorem fixed_run (hp : policy ≠ .IncidentMode) (h : Reached cfg policy evs s) :
    Fixed (.ofDropPolicy policy) s := by
  refine h.inv (I := Fixed (.ofDropPolicy policy)) ?_ fun s e s' hs hstep => hs.step hstep
  rintro s rfl
  exact ⟨decide_eq_false hp, rfl, nofun, fun _ => rfl, fun _ => ⟨rfl, nofun⟩⟩

end Ledger

/-- Once all calls have returned, those that were not sampled out have asked the producer. -/
theorem countP_asked (hdone : ∀ c ∈ s.calls, c.returned = true) :
    s.calls.countP PublishCall.asked + s.calls.countP PublishCall.sampledOut = s.calls.length := by
  have hasked : s.calls.countP PublishCall.asked = s.calls.countP fun c => ¬ c.sampledOut := by
    apply List.countP_congr
    intro c hc
    have := hdone c hc
    cases c <;> simp_all [PublishCall.asked, PublishCall.sampledOut, PublishCall.returned]
  rw [hasked, List.length_eq_countP_add_countP PublishCall.sampledOut, Nat.add_comm]

/-- Every event handed over is published, dropped, in the producer or in a call under way,
and in one of these only. Of the numbers given out for sampling every tenth, from the first
on, lets its event through. With `random_sample` configured all events are sampled, with
`newest` or `oldest` none. -/
theorem publishes_accounted (h : Reached cfg policy evs s) :
    s.state.publishedTotal + s.state.droppedTotal + s.inFlight +
        s.calls.countP (!·.returned) = s.calls.length ∧
      s.calls.countP PublishCall.sampledOut + (s.sampleCounter + 9) / 10 = s.sampleCounter ∧
      (policy = .RandomSample → (∀ c ∈ s.calls, c.returned = true) →
        s.calls.countP PublishCall.asked = (s.calls.length + 9) / 10) ∧
      (policy = .Newest ∨ policy = .Oldest → s.calls.countP PublishCall.sampledOut = 0) := by
  have hl := ledger_run h
  have hsam := hl.sampled
  refine ⟨hl.recorded, hsam, ?_, ?_⟩
  · rintro rfl hdone
    have hnum := (fixed_run (by decide) h).numbered rfl
    have hearly : s.calls.countP PublishCall.early = 0 := by
      rw [List.countP_eq_zero]
      intro c hc
      have := hdone c hc
      cases c <;> simp_all [PublishCall.early, PublishCall.returned]
    have hasked := countP_asked hdone
    rw [hearly, add_zero] at hnum
    omega
  · intro hp
    have hzero : s.sampleCounter = 0 := by
      rcases hp with rfl | rfl
      · exact ((fixed_run (by decide) h).unsampled nofun).1
      · exact ((fixed_run (by decide) h).unsampled nofun).1
    rw [hzero] at hsam
    omega

/-- The queue refuses an event, the monitor starts to sample, and of two calls that race for
the sample counter the later one gets its event through. -/
def overtakenTrace : List PublishEvent :=
  [.publish, .op 0 .queueFull, .op 0 .queueFull, .op 0 .queueFull, .monitor, .monitor, .monitor,
    .publish, .publish, .op 1 .enqueued, .op 2 .enqueued, .op 2 .enqueued, .op 1 .enqueued,
    .op 2 .enqueued, .op 1 .enqueued, .delivery true]

theorem publishes_accounted_overtaken :
    ∃ s, Reached ⟨1, 1 / 100⟩ .IncidentMode overtakenTrace s ∧
      s.calls = [.failed, .skipped, .enqueued] ∧
      s.state.publishedTotal + s.state.droppedTotal + s.inFlight +
        s.calls.countP (!·.returned) = s.calls.length ∧
      s.calls.countP PublishCall.sampledOut + (s.sampleCounter + 9) / 10 = s.sampleCounter := by
  have hexec : (Lib.exec (PublishSystem.step ⟨1, 1 / 100⟩) (init .IncidentMode) overtakenTrace).any
      (fun s => decide (s.calls = [.failed, .skipped, .enqueued])) = true := by decide +kernel
  obtain ⟨s, hrun, hcalls⟩ := Lib.run_of_exec_any hexec
  obtain ⟨hall, hsampled, -⟩ := publishes_accounted hrun
  exact ⟨s, hrun, hcalls, hall, hsampled⟩

end PublishSystem

end RTB
