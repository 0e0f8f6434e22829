import RtbBidder.Spec.KafkaIncident

/-! Whether incident mode ends once Kafka is well again. While it is on, the Kafka
publisher drops nine of ten events before the producer sees them and counts them as
dropped, so the monitor goes on seeing a drop rate of at least one half in every tick with
such an event. The mode ends exactly if the sampler lets every event pass.

The service as `main.rs` starts it never gets that far: the producer's configuration sets
`queue.full.behavior`, a property librdkafka does not have, so no producer is created,
bids are served with the no-op publisher, and the monitor sees no event at all. -/

namespace RTB

/-- The producer takes the event, or the broker acknowledges it. -/
def IncidentEvent.healthy : IncidentEvent → Bool
  | .publish result => result = .enqueued
  | .delivery acked => acked
  | .tick => true

namespace IncidentSystem

variable {cfg : MonitorConfig} {s s₀ s' : IncidentSystem} {e : IncidentEvent}
  {evs evs' : List IncidentEvent} {n : ℕ}

/-- The sampler does not drop the event. -/
def Unsampled (s : IncidentSystem) : IncidentEvent → Prop
  | .publish _ => s.state.effective = .RandomSample → s.sampleCounter % 10 = 0
  | _ => True

/-- What was enqueued is acknowledged before the tick. -/
def Acked (s : IncidentSystem) : IncidentEvent → Prop
  | .tick => s.inFlight = 0
  | _ => True

instance (s : IncidentSystem) : (e : IncidentEvent) → Decidable (s.Unsampled e)
  | .publish _ => inferInstanceAs (Decidable (_ → _))
  | .delivery _ | .tick => .isTrue trivial

instance (s : IncidentSystem) : (e : IncidentEvent) → Decidable (s.Acked e)
  | .tick => inferInstanceAs (Decidable (_ = _))
  | .delivery _ | .publish _ => .isTrue trivial

/-- Events dropped since the last tick. -/
def dropDelta (s : IncidentSystem) : ℕ := s.state.droppedTotal - s.monitor.last.2

/-- Events acknowledged since the last tick. -/
def pubDelta (s : IncidentSystem) : ℕ := s.state.publishedTotal - s.monitor.last.1

/-- The tick sees a drop rate over the threshold. -/
def overThreshold (cfg : MonitorConfig) (s : IncidentSystem) : Bool :=
  cfg.threshold < Monitor.dropRate s.monitor.last s.state.snapshot

/-- The sampler is on exactly in an incident, and a long enough calm ends one. -/
structure Tracked (cfg : MonitorConfig) (s : IncidentSystem) : Prop where
  autoFlip : s.state.autoFlip = true
  base : s.state.basePolicy = .Newest
  policy : s.state.effective = if s.monitor.inIncident then .RandomSample else .Newest
  calm : s.monitor.inIncident = true → s.monitor.underCount < cfg.dwellTicks.toNat
  published : s.monitor.last.1 ≤ s.state.publishedTotal
  dropped : s.monitor.last.2 ≤ s.state.droppedTotal

/-- What a tick does. -/
structure Ticked (cfg : MonitorConfig) (s s' : IncidentSystem) : Prop where
  inFlight : s'.inFlight = s.inFlight
  sampleCounter : s'.sampleCounter = s.sampleCounter
  last : s'.monitor.last = s'.state.snapshot
  underCount : s'.monitor.underCount =
    if s.overThreshold cfg then 0 else Monitor.saturatingSucc s.monitor.underCount
  overCount : s.overThreshold cfg = false → s'.monitor.overCount = 0
  inIncident : s'.monitor.inIncident =
    if s.monitor.inIncident then decide (s'.monitor.underCount < cfg.dwellTicks.toNat)
    else decide (cfg.dwellTicks.toNat ≤ s'.monitor.overCount)
  policy : s'.state.effective = if s'.monitor.inIncident then .RandomSample else .Newest
  autoFlip : s'.state.autoFlip = true
  base : s'.state.basePolicy = .Newest

theorem ticked (ht : s.Tracked cfg) (hs : step cfg s .tick = some s') : Ticked cfg s s' := by
  obtain rfl := Option.some.inj hs
  obtain ⟨hflip, hbase, hpolicy, -, -, -⟩ := ht
  refine ⟨rfl, rfl, ?_, ?_, ?_, ?_, ?_, ?_, ?_⟩
  all_goals grind [Monitor.tick, Monitor.countTick, Monitor.flipPolicy, overThreshold,
    KafkaIncidentState.snapshot]

/-- What a step between two ticks leaves alone. -/
structure Between (s s' : IncidentSystem) : Prop where
  monitor : s'.monitor = s.monitor
  autoFlip : s'.state.autoFlip = s.state.autoFlip
  base : s'.state.basePolicy = s.state.basePolicy
  policy : s'.state.effective = s.state.effective
  published : s.state.publishedTotal ≤ s'.state.publishedTotal
  dropped : s.state.droppedTotal ≤ s'.state.droppedTotal

theorem between_send (s : IncidentSystem) (result : SendResult) : Between s (s.send result) := by
  cases result <;> exact ⟨rfl, rfl, rfl, rfl, le_rfl, by simp [send, KafkaIncidentState.recordDropped]⟩

theorem between_publish (s : IncidentSystem) (result : SendResult) :
    Between s (s.publish result) := by
  unfold publish
  dsimp only
  split_ifs
  · exact ⟨rfl, rfl, rfl, rfl, le_rfl, Nat.le_succ _⟩
  · have := between_send { s with sampleCounter := s.sampleCounter + 1 } result
    exact ⟨this.monitor, this.autoFlip, this.base, this.policy, this.published, this.dropped⟩
  · exact between_send s result

theorem between_of_step (he : e ≠ .tick) (hs : step cfg s e = some s') : Between s s' := by
  cases e with
  | publish result =>
    obtain rfl := Option.some.inj hs
    exact between_publish s result
  | delivery acked =>
    simp only [step] at hs
    split_ifs at hs
    · obtain rfl := Option.some.inj hs
      exact ⟨rfl, rfl, rfl, rfl, Nat.le_succ _, le_rfl⟩
    · obtain rfl := Option.some.inj hs
      exact ⟨rfl, rfl, rfl, rfl, le_rfl, Nat.le_succ _⟩
  | tick => exact absurd rfl he

theorem Tracked.between (ht : s.Tracked cfg) (hb : Between s s') : s'.Tracked cfg := by
  refine ⟨hb.autoFlip.trans ht.autoFlip, hb.base.trans ht.base, ?_, ?_, ?_, ?_⟩
  · rw [hb.policy, hb.monitor]
    exact ht.policy
  · rw [hb.monitor]
    exact ht.calm
  · rw [hb.monitor]
    exact ht.published.trans hb.published
  · rw [hb.monitor]
    exact ht.dropped.trans hb.dropped

theorem Tracked.tick (hd : 1 ≤ cfg.dwellTicks.toNat) (ht : s.Tracked cfg)
    (hs : step cfg s .tick = some s') : s'.Tracked cfg := by
  have htick := ticked ht hs
  refine ⟨htick.autoFlip, htick.base, htick.policy, ?_, ?_, ?_⟩
  · intro hin
    rw [htick.inIncident] at hin
    split_ifs at hin
    · exact of_decide_eq_true hin
    · -- the incident starts at a tick over the threshold
      have hcount := of_decide_eq_true hin
      cases hover : s.overThreshold cfg with
      | true => rw [htick.underCount, hover]; exact hd
      | false => rw [htick.overCount hover] at hcount; omega
  · rw [htick.last]
    exact le_rfl
  · rw [htick.last]
    exact le_rfl

theorem Tracked.step (hd : 1 ≤ cfg.dwellTicks.toNat) (ht : s.Tracked cfg)
    (hs : step cfg s e = some s') : s'.Tracked cfg := by
  by_cases he : e = .tick
  · subst he
    exact ht.tick hd hs
  · exact ht.between (between_of_step he hs)

theorem Tracked.init : (init .IncidentMode).Tracked cfg :=
  ⟨rfl, rfl, rfl, fun h => absurd h Bool.false_ne_true, le_rfl, le_rfl⟩

theorem tracked_run (hd : 1 ≤ cfg.dwellTicks.toNat) (h : Reached cfg .IncidentMode evs s) :
    s.Tracked cfg := by
  refine h.inv (I := Tracked cfg) ?_ fun s e s' hs hstep => hs.step hd hstep
  rintro s rfl
  exact .init

/-- A tick that saw no drop is not over the threshold. -/
theorem overThreshold_of_no_drop (hthr : 0 < cfg.threshold) (h : s.dropDelta = 0) :
    s.overThreshold cfg = false := by
  have hrate : Monitor.dropRate s.monitor.last s.state.snapshot = 0 := by
    unfold dropDelta at h
    simp [Monitor.dropRate, KafkaIncidentState.snapshot, h]
  rw [overThreshold, hrate]
  simpa using hthr.le

/-- A tick that saw at least as many drops as acknowledgements is. -/
theorem overThreshold_of_drops (hthr : cfg.threshold < 1 / 2) (h : 1 ≤ s.dropDelta)
    (hle : s.pubDelta ≤ s.dropDelta) : s.overThreshold cfg = true := by
  apply decide_eq_true
  apply hthr.trans_le
  have hrate : Monitor.dropRate s.monitor.last s.state.snapshot =
      (s.dropDelta : ℚ) / ((s.pubDelta + s.dropDelta : ℕ) : ℚ) :=
    if_neg (show ¬ (s.pubDelta + s.dropDelta = 0) by omega)
  rw [hrate, div_le_div_iff₀ two_pos (by exact_mod_cast (show 0 < s.pubDelta + s.dropDelta by omega))]
  exact_mod_cast (show 1 * (s.pubDelta + s.dropDelta) ≤ s.dropDelta * 2 by omega)

/-- A step on which the sampler drops nothing and the producer fails nothing drops nothing. -/
theorem dropDelta_of_unsampled (he : e ≠ .tick) (hh : e.healthy = true) (hu : s.Unsampled e)
    (hs : step cfg s e = some s') : s'.dropDelta = s.dropDelta := by
  cases e with
  | publish result =>
    obtain rfl : result = .enqueued := of_decide_eq_true hh
    obtain rfl := Option.some.inj hs
    unfold publish
    dsimp only
    split_ifs with hsample hkept
    · exact absurd (hu hsample) hkept
    · rfl
    · rfl
  | delivery acked =>
    obtain rfl : acked = true := hh
    simp only [step] at hs
    split_ifs at hs
    obtain rfl := Option.some.inj hs
    rfl
  | tick => exact absurd rfl he

/-- After `n` ticks without a drop the incident, if it is still on, has been calm for `n`. -/
structure Calm (cfg : MonitorConfig) (n : ℕ) (s : IncidentSystem) : Prop where
  tracked : s.Tracked cfg
  no_drop : s.dropDelta = 0
  calm : s.monitor.inIncident = true → n ≤ s.monitor.underCount

theorem Calm.tick (hd : 1 ≤ cfg.dwellTicks.toNat) (hthr : 0 < cfg.threshold)
    (hn : n < cfg.dwellTicks.toNat) (h : Calm cfg n s) (hs : step cfg s .tick = some s') :
    Calm cfg (n + 1) s' := by
  have htick := ticked h.tracked hs
  have hover := overThreshold_of_no_drop hthr h.no_drop
  refine ⟨h.tracked.tick hd hs, ?_, ?_⟩
  · rw [dropDelta, htick.last]
    exact Nat.sub_self _
  · intro hin
    rw [htick.inIncident] at hin
    split_ifs at hin with hbefore
    · have hcalm := h.calm hbefore
      have hdwell := cfg.dwellTicks.toNat_lt
      rw [htick.underCount, hover, if_neg Bool.false_ne_true, Monitor.saturatingSucc]
      omega
    · -- without drops no incident starts
      have hcount := of_decide_eq_true hin
      rw [htick.overCount hover] at hcount
      omega

theorem calm_run (hd : 1 ≤ cfg.dwellTicks.toNat) (hthr : 0 < cfg.threshold) (h₀ : Calm cfg 0 s₀)
    (hrun : Lib.Run (· = s₀) (Lib.Guarded Unsampled (Lib.Steps (step cfg))) evs s)
    (hh : ∀ e ∈ evs, e.healthy = true) (hn : evs.count .tick ≤ cfg.dwellTicks.toNat) :
    Calm cfg (evs.count .tick) s := by
  induction hrun with
  | nil h =>
    subst h
    exact h₀
  | @snoc evs s s' e hrun hs ih =>
    obtain ⟨hu, hs⟩ := hs
    rw [List.count_append] at hn ⊢
    have hc := ih (fun e he => hh e (List.mem_append_left _ he)) (by omega)
    by_cases he : e = .tick
    · subst he
      rw [List.count_singleton_self] at hn ⊢
      exact hc.tick hd hthr (by omega) hs
    · have hb := between_of_step he hs
      rw [List.count_singleton, if_neg (by simpa using he), Nat.add_zero]
      refine ⟨hc.tracked.between hb, ?_, ?_⟩
      · rw [dropDelta_of_unsampled he (hh e (by simp)) hu hs]
        exact hc.no_drop
      · rw [hb.monitor]
        exact hc.calm

/-- The events of a tick so far, if the sampler is on: `c₀` was its counter at the start. -/
structure Window (c₀ : ℕ) (s : IncidentSystem) : Prop where
  events : s.dropDelta + (s.pubDelta + s.inFlight) + c₀ = s.sampleCounter
  kept : s.pubDelta + s.inFlight + (c₀ + 9) / 10 = (s.sampleCounter + 9) / 10

/-- Of the events of a tick at least half were sampled out, if any was. -/
theorem Window.pubDelta_le {c₀ : ℕ} (h : Window c₀ s) (hd : 1 ≤ s.dropDelta) :
    s.pubDelta ≤ s.dropDelta := by
  have := h.events
  have := h.kept
  omega

/-- The sampler is on, and drops since the `n`-th of the last ticks keep it on. -/
structure Tainted (n : ℕ) (s : IncidentSystem) : Prop where
  inIncident : s.monitor.inIncident = true
  drops : 1 ≤ s.dropDelta ∨ s.monitor.underCount < n

/-- The sampler's accounts of the current tick are in order. -/
def Sampling (s : IncidentSystem) : Prop :=
  s.monitor.inIncident = true → ∃ c₀, Window c₀ s

theorem sampling_of_fresh_tick (hlast : s.monitor.last = s.state.snapshot) (hf : s.inFlight = 0) :
    s.Sampling := by
  intro _
  refine ⟨s.sampleCounter, ?_, ?_⟩ <;>
    simp [dropDelta, pubDelta, hlast, hf, KafkaIncidentState.snapshot]

theorem Sampling.between (hw : s.Sampling) (ht : s.Tracked cfg) (he : e ≠ .tick)
    (hh : e.healthy = true) (hs : step cfg s e = some s') : s'.Sampling := by
  intro hin
  have hb := between_of_step he hs
  rw [hb.monitor] at hin
  obtain ⟨c₀, hevents, hkept⟩ := hw hin
  have hsample : s.state.effective = .RandomSample := by rw [ht.policy, hin, if_pos rfl]
  have hpublished := ht.published
  have hdropped := ht.dropped
  refine ⟨c₀, ?_⟩
  unfold dropDelta at hevents
  unfold pubDelta at hevents hkept
  cases e with
  | publish result =>
    obtain rfl : result = .enqueued := of_decide_eq_true hh
    obtain rfl := Option.some.inj hs
    by_cases hten : s.sampleCounter % 10 = 0
    · have hnext : s.publish .enqueued =
          { s with sampleCounter := s.sampleCounter + 1, inFlight := s.inFlight + 1 } := by
        simp [publish, hsample, hten, send]
      rw [hnext]
      refine ⟨?_, ?_⟩ <;> simp only [dropDelta, pubDelta] <;> omega
    · have hnext : s.publish .enqueued =
          { s with sampleCounter := s.sampleCounter + 1, state := s.state.recordDropped } := by
        simp [publish, hsample, hten]
      rw [hnext]
      refine ⟨?_, ?_⟩ <;> simp only [dropDelta, pubDelta, KafkaIncidentState.recordDropped] <;> omega
  | delivery acked =>
    obtain rfl : acked = true := hh
    simp only [step] at hs
    split_ifs at hs with hflight
    obtain rfl := Option.some.inj hs
    refine ⟨?_, ?_⟩ <;> simp only [dropDelta, pubDelta, KafkaIncidentState.recordPublished] <;> omega
  | tick => exact absurd rfl he

theorem Tainted.between (h : Tainted n s) (hb : Between s s') : Tainted n s' := by
  refine ⟨by rw [hb.monitor]; exact h.inIncident, ?_⟩
  rw [dropDelta, hb.monitor]
  rcases h.drops with hdrops | hunder
  · have := hb.dropped
    unfold dropDelta at hdrops
    exact .inl (by omega)
  · exact .inr hunder

/-- A drop of the sampler's keeps it on beyond the next `dwell_ticks` ticks. -/
theorem Tainted.tick (hthr : cfg.threshold < 1 / 2) (hn : n < cfg.dwellTicks.toNat)
    (ht : s.Tracked cfg) (hw : s.Sampling) (h : Tainted n s) (hs : step cfg s .tick = some s') :
    Tainted (n + 1) s' := by
  have htick := ticked ht hs
  have hunder : s'.monitor.underCount < n + 1 := by
    rw [htick.underCount]
    rcases h.drops with hdrops | hunder
    · obtain ⟨c₀, hwin⟩ := hw h.inIncident
      rw [overThreshold_of_drops hthr hdrops (hwin.pubDelta_le hdrops), if_pos rfl]
      omega
    · split_ifs
      · omega
      · unfold Monitor.saturatingSucc
        omega
  refine ⟨?_, .inr hunder⟩
  rw [htick.inIncident, h.inIncident, if_pos rfl]
  exact decide_eq_true (by omega)

/-- A step on which the sampler drops an event. -/
theorem tainted_of_sampled (ht : s.Tracked cfg) (hu : ¬ s.Unsampled e)
    (hs : step cfg s e = some s') : e ≠ .tick ∧ Tainted n s' := by
  cases e with
  | publish result =>
    simp only [Unsampled, Classical.not_imp] at hu
    obtain ⟨hsample, hten⟩ := hu
    obtain rfl := Option.some.inj hs
    have hdropped := ht.dropped
    refine ⟨by simp, ?_, .inl ?_⟩
    · rw [(between_publish s result).monitor]
      by_contra hin
      have hpolicy := ht.policy
      rw [if_neg hin, hsample] at hpolicy
      cases hpolicy
    · simp only [dropDelta, publish, hsample, hten, if_true, ne_eq, not_false_iff,
        KafkaIncidentState.recordDropped]
      omega
  | delivery acked => exact absurd trivial hu
  | tick => exact absurd trivial hu

/-- In a run without errors, all acknowledged in time, either the sampler lets every event
pass or it stays on. -/
theorem sampled_run (hd : 1 ≤ cfg.dwellTicks.toNat) (hthr : cfg.threshold < 1 / 2)
    (ht₀ : s₀.Tracked cfg) (hw₀ : s₀.Sampling)
    (hrun : Lib.Run (· = s₀) (Lib.Guarded Acked (Lib.Steps (step cfg))) evs s)
    (hh : ∀ e ∈ evs, e.healthy = true) (hn : evs.count .tick ≤ cfg.dwellTicks.toNat) :
    (s.Tracked cfg ∧ s.Sampling) ∧
      (Lib.Run (· = s₀) (Lib.Guarded Unsampled (Lib.Steps (step cfg))) evs s ∨
        Tainted (evs.count .tick) s) := by
  induction hrun with
  | nil h =>
    subst h
    exact ⟨⟨ht₀, hw₀⟩, .inl (.nil rfl)⟩
  | @snoc evs s s' e hrun hs ih =>
    obtain ⟨hacked, hs⟩ := hs
    rw [List.count_append] at hn ⊢
    obtain ⟨⟨ht, hw⟩, hcase⟩ := ih (fun e he => hh e (List.mem_append_left _ he)) (by omega)
    by_cases he : e = .tick
    · subst he
      rw [List.count_singleton_self] at hn ⊢
      have htick := ticked ht hs
      refine ⟨⟨ht.tick hd hs, sampling_of_fresh_tick htick.last (htick.inFlight.trans hacked)⟩, ?_⟩
      rcases hcase with hguarded | htaint
      · exact .inl (.snoc hguarded ⟨trivial, hs⟩)
      · exact .inr (htaint.tick hthr (by omega) ht hw hs)
    · have hb := between_of_step he hs
      rw [List.count_singleton, if_neg (by simpa using he), Nat.add_zero]
      refine ⟨⟨ht.between hb, hw.between ht he (hh e (by simp)) hs⟩, ?_⟩
      rcases hcase with hguarded | htaint
      · by_cases hu : s.Unsampled e
        · exact .inl (.snoc hguarded ⟨hu, hs⟩)
        · exact .inr (tainted_of_sampled ht hu hs).2
      · exact .inr (htaint.between hb)

/-- `dwell_ticks` ticks after Kafka is well again: the policy is the base policy again if
the sampler dropped none of the events published meanwhile; and only then, if nothing was in
flight at the start and every event was acknowledged within its tick. -/
theorem incident_ends_iff (hd : 1 ≤ cfg.dwellTicks.toNat) (hthr : 0 < cfg.threshold)
    (hhalf : cfg.threshold < 1 / 2) (h : Reached cfg .IncidentMode (evs ++ [.tick]) s)
    (hh : ∀ e ∈ evs', e.healthy = true) (hn : evs'.count .tick = cfg.dwellTicks.toNat) :
    (Lib.Run (· = s) (Lib.Guarded Unsampled (Lib.Steps (step cfg))) evs' s' →
      s'.state.effective = s'.state.basePolicy) ∧
    (s.inFlight = 0 → Lib.Run (· = s) (Lib.Guarded Acked (Lib.Steps (step cfg))) evs' s' →
      (s'.state.effective = s'.state.basePolicy ↔
        Lib.Run (· = s) (Lib.Guarded Unsampled (Lib.Steps (step cfg))) evs' s')) := by
  obtain ⟨s₁, hbefore, htick⟩ := Lib.run_snoc_iff.1 h
  have ht₁ := tracked_run hd hbefore
  have hlast := (ticked ht₁ htick).last
  have ht : s.Tracked cfg := ht₁.tick hd htick
  have hends : Lib.Run (· = s) (Lib.Guarded Unsampled (Lib.Steps (step cfg))) evs' s' →
      s'.state.effective = s'.state.basePolicy := by
    intro hguarded
    have h₀ : Calm cfg 0 s := ⟨ht, by rw [dropDelta, hlast]; exact Nat.sub_self _, fun _ => Nat.zero_le _⟩
    have hcalm := calm_run hd hthr h₀ hguarded hh hn.le
    have hoff : s'.monitor.inIncident = false := by
      by_contra hin
      rw [Bool.not_eq_false] at hin
      have := hcalm.calm hin
      have := hcalm.tracked.calm hin
      omega
    rw [hcalm.tracked.policy, hcalm.tracked.base, hoff]
    rfl
  refine ⟨hends, ?_⟩
  intro hflight hacked
  refine ⟨?_, hends⟩
  intro hbase
  obtain ⟨⟨ht', -⟩, hguarded | htaint⟩ :=
    sampled_run hd hhalf ht (sampling_of_fresh_tick hlast hflight) hacked hh hn.le
  · exact hguarded
  · rw [ht'.policy, ht'.base, htaint.inIncident] at hbase
    cases hbase

/-- Ten ticks in which the producer's queue is full. -/
def queueFullTicks : List IncidentEvent :=
  (List.replicate 9 [.publish .queueFull, .tick]).flatten ++ [.publish .queueFull]

/-- The state they lead to. -/
def midIncident : IncidentSystem :=
  ⟨⟨.Newest, .RandomSample, 0, 10, true⟩, ⟨(0, 10), 10, 0, true⟩, 0, 0⟩

theorem midIncident_reached :
    Reached .production .IncidentMode (queueFullTicks ++ [.tick]) midIncident :=
  Lib.run_of_exec (by decide +kernel)

/-- One event in the first of ten ticks, which is the one the sampler lets pass. -/
def quietTicks : List IncidentEvent :=
  [.publish .enqueued, .delivery true] ++ List.replicate 10 .tick

theorem incident_ends_quiet :
    ∃ s', Lib.Run (· = midIncident) (Lib.Guarded Unsampled (Lib.Steps (step .production)))
      quietTicks s' ∧ s'.state.publishedTotal = 1 ∧
      s'.state.effective = s'.state.basePolicy := by
  obtain ⟨s', hrun, hpub⟩ := Lib.run_of_exec_any
    (P := fun s => s.state.publishedTotal = 1)
    (show (Lib.exec (fun s e => if s.Unsampled e then step .production s e else none) midIncident
      quietTicks).any _ = true by decide +kernel)
  have hguarded := hrun.guarded_of_check
  exact ⟨s', hguarded, hpub, (incident_ends_iff (by decide) (by norm_num [MonitorConfig.production])
    (by norm_num [MonitorConfig.production]) midIncident_reached (by decide) (by decide)).1 hguarded⟩

/-- Ten ticks with ten events each, of which the one that is sent is acknowledged. -/
def steadyTicks : List IncidentEvent :=
  (List.replicate 10 (List.replicate 10 (.publish .enqueued) ++ [.delivery true, .tick])).flatten

-- with ten events a tick, none of which the producer or the broker refuses, it stays on
example : ∃ s', Lib.Run (· = midIncident) (Lib.Guarded Acked (Lib.Steps (step .production)))
      steadyTicks s' ∧ s'.state.effective = .RandomSample := by
  obtain ⟨s', hrun, hpolicy⟩ := Lib.run_of_exec_any
    (P := fun s => s.state.effective = .RandomSample)
    (show (Lib.exec (fun s e => if s.Acked e then step .production s e else none) midIncident
      steadyTicks).any _ = true by decide +kernel)
  exact ⟨s', hrun.guarded_of_check, hpolicy⟩

end IncidentSystem

namespace EventWiring

variable {cfg : MonitorConfig} {w w' : EventWiring} {e : IncidentEvent}

/-- The monitor has seen no event. -/
structure Silent (w : EventWiring) : Prop where
  publisher : w.publisher = .noOp
  inFlight : w.system.inFlight = 0
  totals : w.system.state.snapshot = (0, 0)
  last : w.system.monitor.last = (0, 0)
  overCount : w.system.monitor.overCount = 0
  inIncident : w.system.monitor.inIncident = false
  policy : w.system.state.effective = w.system.state.basePolicy

theorem Silent.tick (hd : 1 ≤ cfg.dwellTicks.toNat) (hthr : 0 < cfg.threshold) (h : w.Silent)
    (hs : step cfg w .tick = some w') : w'.Silent := by
  obtain ⟨hpub, hflight, htotals, hlast, hover, hin, hpolicy⟩ := h
  obtain rfl := Option.some.inj hs
  have hrate : Monitor.dropRate w.system.monitor.last w.system.state.snapshot = 0 := by
    rw [hlast, htotals]
    rfl
  have hthr' : ¬ cfg.threshold < 0 := hthr.le.not_gt
  refine ⟨hpub, hflight, ?_, ?_, ?_, ?_, ?_⟩
  all_goals grind [Monitor.tick, Monitor.countTick, Monitor.flipPolicy]

theorem Silent.step (hd : 1 ≤ cfg.dwellTicks.toNat) (hthr : 0 < cfg.threshold) (h : w.Silent)
    (hs : step cfg w e = some w') : w'.Silent := by
  cases e with
  | publish result =>
    obtain rfl := Option.some.inj hs
    rw [publish, h.publisher]
    exact h
  | delivery acked =>
    -- nothing was sent, so there is nothing to report on
    simp [EventWiring.step, IncidentSystem.step, h.inFlight] at hs
  | tick => exact h.tick hd hthr hs

end EventWiring

end RTB
