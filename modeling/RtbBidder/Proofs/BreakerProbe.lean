import RtbBidder.Lib.Tasks
import RtbBidder.Spec.RedisCalls

/-! The half-open probe slot. A call that claims the slot through
`segments_for` or `RedisFrequencyCapper::check` later runs `record_outcome`,
which frees it, unless its handler is dropped first. `InProcessFrequencyCapper::check`
claims it and records nothing. A slot that is taken while no call is left to free
it stays taken, and the run is otherwise never stuck. -/

namespace RTB

namespace CircuitBreaker

/-- `try_enter_half_open` would claim the probe slot. -/
def Claimable (cfg : BreakerConfig) (now : ℕ) (b : CircuitBreaker) : Prop :=
  (b.inner.state = .HalfOpen ∧ b.inner.halfOpenProbeInFlight = false) ∨
    (b.inner.state = .Open ∧ cfg.openDuration ≤ b.elapsed now)

instance (cfg : BreakerConfig) (now : ℕ) (b : CircuitBreaker) : Decidable (b.Claimable cfg now) :=
  inferInstanceAs (Decidable (_ ∨ _))

theorem tryEnterHalfOpen_claims {cfg : BreakerConfig} {now : ℕ} {b : CircuitBreaker}
    (h : b.Claimable cfg now) :
    (b.tryEnterHalfOpen cfg now).1 = true ∧
      (b.tryEnterHalfOpen cfg now).2.inner = ⟨.HalfOpen, b.inner.openedAt, true⟩ := by
  rcases h with ⟨hs, hp⟩ | ⟨hs, he⟩
  · simp [tryEnterHalfOpen, enterHalfOpen, hs, hp]
  · simp [tryEnterHalfOpen, enterHalfOpen, hs, he]

theorem tryEnterHalfOpen_refuses {cfg : BreakerConfig} {now : ℕ} {b : CircuitBreaker}
    (h : ¬ b.Claimable cfg now) : b.tryEnterHalfOpen cfg now = (false, b) := by
  simp only [Claimable, not_or, not_and] at h
  have he : b.enterHalfOpen cfg now = b := by
    unfold enterHalfOpen
    exact if_neg fun hc => h.2 hc.1 hc.2
  simp only [tryEnterHalfOpen, he]
  exact if_neg fun hc => h.1 hc.1 hc.2

/-- The probe slot is taken in half-open only, and an open breaker knows when it opened. -/
structure WF (b : CircuitBreaker) : Prop where
  probe : b.inner.halfOpenProbeInFlight = true → b.inner.state = .HalfOpen
  opened : b.inner.state = .Open → ∃ t, b.inner.openedAt = some t

theorem WF.new : CircuitBreaker.new.WF := ⟨by simp [CircuitBreaker.new], by simp [CircuitBreaker.new]⟩

theorem WF.of_inner {b b' : CircuitBreaker} (h : b.WF) (he : b'.inner = b.inner) : b'.WF :=
  ⟨by rw [he]; exact h.probe, by rw [he]; exact h.opened⟩

theorem WF.tryEnterHalfOpen {cfg : BreakerConfig} {now : ℕ} {b : CircuitBreaker} (h : b.WF) :
    (b.tryEnterHalfOpen cfg now).2.WF := by
  by_cases hc : b.Claimable cfg now
  · have he := (tryEnterHalfOpen_claims hc).2
    exact ⟨fun _ => by rw [he], fun hs => by rw [he] at hs; cases hs⟩
  · rw [tryEnterHalfOpen_refuses hc]
    exact h

theorem WF.free_of_ne {b : CircuitBreaker} (h : b.WF) (hs : b.inner.state ≠ .HalfOpen) :
    b.inner.halfOpenProbeInFlight = false := by
  cases hp : b.inner.halfOpenProbeInFlight with
  | false => rfl
  | true => exact absurd (h.probe hp) hs

/-- Recording an outcome frees the slot, whatever the window counts say. -/
theorem recordLocked_probe {cfg : BreakerConfig} {now : ℕ} {error slow : Bool} {snap : ℕ × ℕ × ℕ}
    {b : CircuitBreaker} (h : b.WF) :
    (b.recordLocked cfg now error slow snap).inner.halfOpenProbeInFlight = false := by
  unfold recordLocked
  cases hs : b.inner.state with
  | Closed =>
    have hp := h.free_of_ne (by simp [hs])
    dsimp only
    split_ifs <;> simp [tripOpen, hp]
  | HalfOpen => dsimp only; split_ifs <;> rfl
  | Open => exact h.free_of_ne (by simp [hs])

theorem WF.recordLocked {cfg : BreakerConfig} {now : ℕ} {error slow : Bool} {snap : ℕ × ℕ × ℕ}
    {b : CircuitBreaker} (h : b.WF) : (b.recordLocked cfg now error slow snap).WF := by
  refine ⟨fun hp => ?_, fun hs => ?_⟩
  · rw [recordLocked_probe h] at hp
    cases hp
  · unfold CircuitBreaker.recordLocked at hs ⊢
    cases ho : b.inner.state with
    | Closed =>
      simp only [ho] at hs ⊢
      split_ifs at hs ⊢ <;> simp_all [tripOpen]
    | HalfOpen =>
      simp only [ho] at hs ⊢
      split_ifs at hs ⊢
      exact ⟨now, rfl⟩
    | Open => exact h.opened ho

theorem WF.free_of_claimable {cfg : BreakerConfig} {now : ℕ} {b : CircuitBreaker} (h : b.WF)
    (hc : b.Claimable cfg now) : b.inner.halfOpenProbeInFlight = false := by
  rcases hc with ⟨_, hp⟩ | ⟨hs, _⟩
  · exact hp
  · exact h.free_of_ne (by simp [hs])

/-- A breaker whose probe slot is free admits a call once `open_duration` has
passed since it last opened. -/
theorem allowRequest_of_free {cfg : BreakerConfig} {now : ℕ} {b : CircuitBreaker} (h : b.WF)
    (hfree : b.inner.halfOpenProbeInFlight = false)
    (hlong : ∀ t, b.inner.openedAt = some t → t + cfg.openDuration ≤ now) :
    (b.allowRequest cfg now).1 = true := by
  cases hs : b.inner.state with
  | Closed => simp [allowRequest, allowRead, hs]
  | HalfOpen =>
    simp only [allowRequest, allowRead, hs]
    exact (tryEnterHalfOpen_claims (.inl ⟨hs, hfree⟩)).1
  | Open =>
    obtain ⟨t, ht⟩ := h.opened hs
    have hle : cfg.openDuration ≤ b.elapsed now := by
      have := hlong t ht
      simp only [elapsed, ht, Option.map_some, Option.getD_some]
      omega
    simp only [allowRequest, allowRead, hs, if_neg (Nat.not_lt.2 hle)]
    exact (tryEnterHalfOpen_claims (.inr ⟨hs, hle⟩)).1

/-- A taken slot refuses every request, however late. -/
theorem allowRequest_of_taken {b : CircuitBreaker} (h : b.WF)
    (htaken : b.inner.halfOpenProbeInFlight = true) (cfg : BreakerConfig) (now : ℕ) :
    (b.allowRequest cfg now).1 = false := by
  have hs := h.probe htaken
  have hc : ¬ b.Claimable cfg now := by simp [Claimable, hs, htaken]
  simp [allowRequest, allowRead, hs, tryEnterHalfOpen_refuses hc]

end CircuitBreaker

/-- The call has been admitted and `record_outcome` is still ahead of it. -/
def RedisCall.pending : RedisCall → Bool
  | .admission => false
  | .claim => false
  | _ => true

def Task.pending : Task → Bool
  | .segmentsFor c => c.pending
  | .redisCheck c => c.pending
  | .inProcessFallback c => c.pending
  | _ => false

@[simp] theorem Task.pending_done : Task.done.pending = false := rfl

@[simp] theorem Task.pending_inProcessClaim : Task.inProcessClaim.pending = false := rfl

/-- A step leaves the slot taken with its own call not due to record exactly
where that was so before. -/
structure Handover (b b' : CircuitBreaker) (pending pending' : Bool) : Prop where
  wf : b'.WF
  outside : (b'.inner.halfOpenProbeInFlight = true ∧ pending' = false) ↔
    (b.inner.halfOpenProbeInFlight = true ∧ pending = false)

theorem Handover.same {b b' : CircuitBreaker} {p : Bool} (h : b.WF) (he : b'.inner = b.inner) :
    Handover b b' p p := ⟨h.of_inner he, by rw [he]⟩

/-- With the slot free before and either free or the call's own after the step. -/
theorem Handover.of_free {b b' : CircuitBreaker} {p p' : Bool} (h' : b'.WF)
    (hfree : b.inner.halfOpenProbeInFlight = false)
    (hown : b'.inner.halfOpenProbeInFlight = true → p' = true) : Handover b b' p p' :=
  ⟨h', by simpa [hfree] using hown⟩

theorem redisCall_handover (cfg : BreakerConfig) (now : ℕ) {b : CircuitBreaker} (reply : RedisEnd)
    (duration : ℕ) (c : RedisCall) (h : b.WF) :
    Handover b (c.step cfg now b reply duration).1 c.pending
      (((c.step cfg now b reply duration).2.map RedisCall.pending).getD false) := by
  cases c with
  | admission =>
    have hclosed : b.allowRead cfg now = some true → b.inner.halfOpenProbeInFlight = false := by
      intro ha
      refine h.free_of_ne fun hs => ?_
      simp [CircuitBreaker.allowRead, hs] at ha
    simp only [RedisCall.step]
    split
    · next ha => exact .of_free h (hclosed ha) fun _ => rfl
    · exact .same h rfl
    · exact .same h rfl
  | claim =>
    simp only [RedisCall.step]
    by_cases hc : b.Claimable cfg now
    · exact .of_free h.tryEnterHalfOpen (h.free_of_claimable hc) fun _ => by
        simp [CircuitBreaker.tryEnterHalfOpen_claims hc, RedisCall.pending]
    · rw [CircuitBreaker.tryEnterHalfOpen_refuses hc]
      exact .same h rfl
  | running => exact .same h rfl
  | record error duration => exact .same h rfl
  | snapshot error slow => exact .same h rfl
  | settle error slow snap =>
    refine ⟨h.recordLocked, ?_⟩
    simp [RedisCall.step, CircuitBreaker.recordLocked_probe h, RedisCall.pending]

/-- The same for a task that makes the call and returns after it. -/
theorem wrapped_handover {wrap : RedisCall → Task} (hwrap : ∀ c, (wrap c).pending = c.pending)
    (cfg : BreakerConfig) (now : ℕ) {b : CircuitBreaker} (reply : RedisEnd) (duration : ℕ)
    (c : RedisCall) (h : b.WF) :
    Handover b (c.step cfg now b reply duration).1 (wrap c).pending
      (((c.step cfg now b reply duration).2.map wrap).getD .done).pending := by
  have hcall := redisCall_handover cfg now reply duration c h
  cases hn : (c.step cfg now b reply duration).2 with
  | none => simpa [hn, hwrap] using hcall
  | some c' => simpa [hn, hwrap] using hcall

theorem task_handover (cfg : BreakerConfig) (now : ℕ) {b b' : CircuitBreaker} {reply : RedisEnd}
    {duration : ℕ} {cold : Bool} {t t' : Task} (h : b.WF)
    (hclaim : t = .inProcessClaim → ¬ b.Claimable cfg now)
    (hs : t.step cfg now b reply duration cold = some (b', t')) :
    Handover b b' t.pending t'.pending := by
  cases t with
  | segmentsFor c =>
    obtain ⟨rfl, rfl⟩ := by simpa [Task.step] using hs
    exact wrapped_handover (fun _ => rfl) cfg now reply duration c h
  | redisCheck c =>
    obtain ⟨rfl, rfl⟩ := by simpa [Task.step] using hs
    exact wrapped_handover (fun _ => rfl) cfg now reply duration c h
  | inProcessFallback c =>
    obtain ⟨rfl, rfl⟩ := by simpa [Task.step] using hs
    exact wrapped_handover (fun _ => rfl) cfg now reply duration c h
  | inProcessAdmission =>
    simp only [Task.step] at hs
    split at hs <;> (obtain ⟨rfl, rfl⟩ := by simpa using hs) <;> exact .same h rfl
  | inProcessClaim =>
    simp only [Task.step, CircuitBreaker.tryEnterHalfOpen_refuses (hclaim rfl)] at hs
    obtain ⟨rfl, rfl⟩ := by simpa using hs
    exact .same h rfl
  | inProcessLookup =>
    obtain ⟨rfl, rfl⟩ := by simpa [Task.step] using hs
    cases cold <;> exact .same h rfl
  | done => cases hs

theorem inProcess_claim {cfg : BreakerConfig} {now : ℕ} {b b' : CircuitBreaker} {reply : RedisEnd}
    {duration : ℕ} {cold : Bool} {t' : Task} (h : b.WF) (hc : b.Claimable cfg now)
    (hs : Task.inProcessClaim.step cfg now b reply duration cold = some (b', t')) :
    b'.WF ∧ b'.inner.halfOpenProbeInFlight = true ∧ t'.pending = false := by
  have hclaims := CircuitBreaker.tryEnterHalfOpen_claims hc
  simp only [Task.step, hclaims.1, if_true] at hs
  obtain ⟨rfl, rfl⟩ := by simpa using hs
  exact ⟨h.tryEnterHalfOpen, by rw [hclaims.2], rfl⟩

namespace RedisCalls

/-- The calls in progress that are due to free the probe slot. -/
def due (s : RedisCalls) : ℕ := s.tasks.countP Task.pending

/-- The slot is taken and nothing in progress will free it. -/
def Wedged (s : RedisCalls) : Prop := s.breaker.inner.halfOpenProbeInFlight = true ∧ s.due = 0

instance (s : RedisCalls) : Decidable s.Wedged := inferInstanceAs (Decidable (_ ∧ _))

/-- Where an `InProcessFrequencyCapper::check` claims the slot in this step, some
admitted call has its `record_outcome` still ahead, and where the slot is taken
the step does not drop the last such call. -/
def KeepsProbe (cfg : BreakerConfig) (s : RedisCalls) : RedisCallsEvent → Prop
  | .step i _ _ _ =>
    s.tasks[i]? = some .inProcessClaim → s.breaker.Claimable cfg s.now → 0 < s.due
  | .drop i =>
    s.breaker.inner.halfOpenProbeInFlight = true → (s.tasks[i]?).any Task.pending → 1 < s.due
  | _ => True

instance (cfg : BreakerConfig) (s : RedisCalls) (e : RedisCallsEvent) :
    Decidable (s.KeepsProbe cfg e) := by
  cases e <;> unfold KeepsProbe <;> infer_instance

theorem due_spawn (s : RedisCalls) {t : Task} (ht : t.pending = false) :
    due { s with tasks := s.tasks ++ [t] } = s.due := by
  simp [due, ht]

theorem due_set (s : RedisCalls) (b' : CircuitBreaker) {i : ℕ} {t : Task} (t' : Task)
    (ht : s.tasks[i]? = some t) :
    due { s with breaker := b', tasks := s.tasks.set i t' } + (if t.pending then 1 else 0) =
      s.due + if t'.pending then 1 else 0 :=
  Lib.countP_set_add Task.pending t' ht

theorem not_due {s : RedisCalls} {i : ℕ} {t : Task} (h : s.due = 0) (ht : s.tasks[i]? = some t) :
    t.pending = false := by
  simpa using List.countP_eq_zero.1 h t (List.mem_of_getElem? ht)

/-- What one event does to the breaker's invariant and to the slot: it wedges the
slot exactly if it breaks `KeepsProbe`, and a wedged slot is never freed again. -/
structure SlotStep (cfg : BreakerConfig) (s : RedisCalls) (e : RedisCallsEvent) (s' : RedisCalls) :
    Prop where
  wf : s'.breaker.WF
  wedged : s'.Wedged ↔ s.Wedged ∨ ¬ s.KeepsProbe cfg e
  kept : s.Wedged → s.KeepsProbe cfg e

theorem SlotStep.spawn (cfg : BreakerConfig) {s : RedisCalls} {e : RedisCallsEvent} {t : Task}
    (h : s.breaker.WF) (ht : t.pending = false) (hk : s.KeepsProbe cfg e) :
    SlotStep cfg s e { s with tasks := s.tasks ++ [t] } :=
  ⟨h, by simp [Wedged, due_spawn s ht, hk], fun _ => hk⟩

theorem slotStep_drop (cfg : BreakerConfig) {s : RedisCalls} {i : ℕ} {t : Task}
    (h : s.breaker.WF) (ht : s.tasks[i]? = some t) :
    SlotStep cfg s (.drop i) { s with tasks := s.tasks.set i .done } := by
  have hdue := s.due_set s.breaker .done ht
  cases hp : t.pending with
  | false =>
    have hsame : due { s with tasks := s.tasks.set i .done } = s.due := by simpa [hp] using hdue
    have hk : s.KeepsProbe cfg (.drop i) := by simp [KeepsProbe, ht, hp]
    exact ⟨h, by simp [Wedged, hsame, hk], fun _ => hk⟩
  | true =>
    have hless : due { s with tasks := s.tasks.set i .done } + 1 = s.due := by
      simpa [hp] using hdue
    have hne : s.due ≠ 0 := by omega
    have hlast : due { s with tasks := s.tasks.set i .done } = 0 ↔ ¬ 1 < s.due := by omega
    exact ⟨h, by simp [Wedged, KeepsProbe, ht, hp, hlast, hne], fun hw => absurd hw.2 hne⟩

theorem slotStep_step {cfg : BreakerConfig} {s : RedisCalls} {i : ℕ} {reply : RedisEnd}
    {duration : ℕ} {cold : Bool} {t t' : Task} {b' : CircuitBreaker} (h : s.breaker.WF)
    (ht : s.tasks[i]? = some t)
    (hs : t.step cfg s.now s.breaker reply duration cold = some (b', t')) :
    SlotStep cfg s (.step i reply duration cold)
      { s with breaker := b', tasks := s.tasks.set i t' } := by
  have hdue := s.due_set b' t' ht
  by_cases hc : t = .inProcessClaim ∧ s.breaker.Claimable cfg s.now
  · obtain ⟨rfl, hc⟩ := hc
    obtain ⟨hwf, htaken, hp⟩ := inProcess_claim h hc hs
    have hfree := h.free_of_claimable hc
    have hsame : due { s with breaker := b', tasks := s.tasks.set i t' } = s.due := by
      simpa [hp] using hdue
    exact ⟨hwf, by simp [Wedged, KeepsProbe, hsame, htaken, hfree, ht, hc],
      fun hw => by simp [Wedged, hfree] at hw⟩
  · have hh := task_handover cfg s.now h (fun he hcl => hc ⟨he, hcl⟩) hs
    have hk : s.KeepsProbe cfg (.step i reply duration cold) := by
      intro he hcl
      rw [ht, Option.some.injEq] at he
      exact absurd ⟨he, hcl⟩ hc
    refine ⟨hh.wf, ?_, fun _ => hk⟩
    simp only [Wedged, hk, not_true, or_false]
    -- no call is due in a wedged state, the one that steps included
    constructor
    · rintro ⟨hf, h0⟩
      have hp' := not_due h0 (Lib.getElem?_set_moved ht)
      obtain ⟨hf, hp⟩ := hh.outside.1 ⟨hf, hp'⟩
      exact ⟨hf, by simpa [hp, hp', h0] using hdue.symm⟩
    · rintro ⟨hf, h0⟩
      have hp := not_due h0 ht
      obtain ⟨hf, hp'⟩ := hh.outside.2 ⟨hf, hp⟩
      exact ⟨hf, by simpa [hp, hp', h0] using hdue⟩

theorem slotStep {cfg : BreakerConfig} {s s' : RedisCalls} {e : RedisCallsEvent}
    (h : s.breaker.WF) (hs : step cfg s e = some s') : SlotStep cfg s e s' := by
  cases e with
  | advance d =>
    obtain rfl := by simpa [step] using hs
    exact ⟨h, by simp [Wedged, due, KeepsProbe], fun _ => trivial⟩
  | callSegmentsFor =>
    obtain rfl := by simpa [step] using hs
    exact .spawn cfg h rfl trivial
  | callRedisCheck noCandidates =>
    obtain rfl := by simpa [step] using hs
    exact .spawn cfg h (by cases noCandidates <;> rfl) trivial
  | callInProcess =>
    obtain rfl := by simpa [step] using hs
    exact .spawn cfg h rfl trivial
  | step i reply duration cold =>
    obtain ⟨t, ht, hs⟩ := Option.bind_eq_some_iff.1 hs
    obtain ⟨⟨b', t'⟩, hstep, rfl⟩ := Option.map_eq_some_iff.1 hs
    exact slotStep_step h ht hstep
  | drop i =>
    obtain ⟨t, ht, hs⟩ := Option.bind_eq_some_iff.1 hs
    obtain ⟨_, rfl⟩ := by simpa using hs
    exact slotStep_drop cfg h ht

theorem Reached.wf {cfg : BreakerConfig} {evs : List RedisCallsEvent} {s : RedisCalls}
    (h : Reached cfg evs s) : s.breaker.WF := by
  have hinit : ∀ s : RedisCalls, s = init → s.breaker.WF := by
    rintro s rfl
    exact .new
  exact Lib.Run.inv (I := fun s => s.breaker.WF) hinit (fun s e s' hi hs => (slotStep hi hs).wf) h

/-- A run has wedged the slot exactly if some step of it broke `KeepsProbe`. -/
theorem Reached.kept_iff {cfg : BreakerConfig} {evs : List RedisCallsEvent} {s : RedisCalls}
    (h : Reached cfg evs s) :
    Lib.Run (· = init) (Lib.Guarded (KeepsProbe cfg) (Lib.Steps (step cfg))) evs s ↔
      ¬ s.Wedged := by
  let m : RedisCalls → ℕ := fun s => if s.Wedged then 0 else 1
  have hm : ∀ evs s e s', Reached cfg evs s → step cfg s e = some s' →
      m s' ≤ m s ∧ (m s' = m s ↔ s.KeepsProbe cfg e) := by
    intro evs s e s' hrun hs
    have hstep := slotStep (Reached.wf hrun) hs
    have hw := hstep.wedged
    have hk := hstep.kept
    by_cases h : s.Wedged <;> by_cases h' : s'.Wedged <;> simp_all [m]
  have h0 : ¬ init.Wedged := by decide
  rw [← (Lib.Run.guarded_iff hm h).2]
  simp [m, h0]

/-- An idle breaker is stuck in half-open exactly if some step of the run left
the slot taken with no call to free it. If none did, the breaker admits the next
call once `open_duration` has passed since it last opened; otherwise it refuses
every later one. -/
theorem idle_breaker_admits {cfg : BreakerConfig} {evs : List RedisCallsEvent} {s : RedisCalls}
    (h : Reached cfg evs s) (hidle : s.Idle) :
    (Lib.Run (· = init) (Lib.Guarded (KeepsProbe cfg) (Lib.Steps (step cfg))) evs s ↔
      ¬ (s.breaker.inner.state = .HalfOpen ∧ s.breaker.inner.halfOpenProbeInFlight = true)) ∧
    (Lib.Run (· = init) (Lib.Guarded (KeepsProbe cfg) (Lib.Steps (step cfg))) evs s →
      (∀ t, s.breaker.inner.openedAt = some t → t + cfg.openDuration ≤ s.now) →
      (s.breaker.allowRequest cfg s.now).1 = true) ∧
    (¬ Lib.Run (· = init) (Lib.Guarded (KeepsProbe cfg) (Lib.Steps (step cfg))) evs s →
      ∀ d, (s.breaker.allowRequest cfg (s.now + d)).1 = false) := by
  have hwf := Reached.wf h
  have hdue : s.due = 0 := by
    refine List.countP_eq_zero.2 fun t ht => ?_
    simp [hidle t ht, Task.pending]
  have hiff : s.Wedged ↔ s.breaker.inner.halfOpenProbeInFlight = true := by simp [Wedged, hdue]
  rw [Reached.kept_iff h, hiff]
  refine ⟨not_congr ⟨fun hp => ⟨hwf.probe hp, hp⟩, And.right⟩, fun hfree hlong => ?_, fun hp d => ?_⟩
  · exact CircuitBreaker.allowRequest_of_free hwf (by simpa using hfree) hlong
  · exact CircuitBreaker.allowRequest_of_taken hwf (not_not.1 hp) cfg _

/-- Twenty `segments_for` calls one after another, each failing in Redis. -/
def outage : List RedisCallsEvent :=
  (List.range 20).flatMap fun i => .callSegmentsFor :: List.replicate 5 (.step i .failed 1 false)

/-- After the outage one `segments_for` is dropped before it asks the breaker,
another one probes, and its probe fails. -/
theorem idle_breaker_admits_after_failed_probe :
    ∃ evs s, s.Idle ∧ s.breaker.inner = ⟨.Open, some 10000000, false⟩ ∧
      Lib.Run (· = init) (Lib.Guarded (KeepsProbe .redis) (Lib.Steps (step .redis))) evs s ∧
      (s.breaker.allowRequest .redis s.now).1 = true := by
  let evs := outage ++ [.advance 10000000, .callSegmentsFor, .callSegmentsFor, .drop 21] ++
    List.replicate 6 (.step 20 .failed 1 false) ++ [.advance 10000000]
  let s : RedisCalls :=
    ⟨20000000, ⟨⟨0, 0, 0⟩, .Open, some 10000000, false⟩, List.replicate 22 .done⟩
  have hrun : Lib.Run (· = init) (Lib.Guarded (KeepsProbe .redis) (Lib.Steps (step .redis)))
      evs s := Lib.run_of_exec_guarded (by decide +kernel)
  refine ⟨evs, s, by decide, rfl, hrun,
    (idle_breaker_admits hrun.of_guarded (by decide)).2.1 hrun ?_⟩
  intro t ht
  obtain rfl : 10000000 = t := by simpa [s] using ht
  decide

/-- After an outage one warm `InProcessFrequencyCapper::check` claims the probe
and returns. Nothing is in progress and every later request is refused. -/
theorem inProcess_check_wedges_breaker :
    ∃ evs s, Reached .redis evs s ∧ s.Idle ∧
      s.breaker.inner.state = .HalfOpen ∧ s.breaker.inner.halfOpenProbeInFlight = true ∧
      ∀ d, (s.breaker.allowRequest .redis (s.now + d)).1 = false := by
  let evs := outage ++ [.advance 10000000, .callInProcess] ++
    List.replicate 3 (.step 20 .answered 1 false)
  let s : RedisCalls :=
    ⟨10000000, ⟨⟨0, 0, 0⟩, .HalfOpen, some 0, true⟩, List.replicate 21 .done⟩
  have hrun : Reached .redis evs s := Lib.run_of_exec (by decide +kernel)
  exact ⟨evs, s, hrun, by decide, rfl, rfl, fun d => rfl⟩

-- a handler dropped while its probe waits for Redis has the same effect
example : ∃ s, Reached .redis (outage ++ [.advance 10000000, .callSegmentsFor,
      .step 20 .failed 1 false, .step 20 .failed 1 false, .drop 20]) s ∧
    s.Idle ∧ s.Wedged := Lib.run_of_exec_any (by decide +kernel)

end RedisCalls

end RTB
