import RtbBidder.Proofs.CapChecks
import RtbBidder.Spec.CapRounds

/-! What the two caps of a campaign mean in a run of check-and-record rounds within one hour:
the campaign is let through as often as the smaller cap says, so not at all when a cap is 0. -/

namespace RTB

namespace CapRounds

variable {cfg : BreakerConfig} {u : String} {c : CampaignId} {dailyCap hourlyCap : UInt32} {t₀ j : ℕ}
  {redis : Redis} {key : String} {expires : ℕ} {s : State} {r : Round}

/-- The hour, in milliseconds, that starts at `t₀`. -/
def InHour (t₀ t : ℕ) : Prop := t₀ ≤ t ∧ t < t₀ + 3600 * 1000

/-- The counter stands at the number for the rest of the hour; at 0 there is no counter. -/
def Stands (redis : Redis) (t₀ : ℕ) (key : String) : ℕ → Prop
  | 0 => redis.live t₀ key = none
  | j + 1 => ∃ expires, redis.entries key = some (((j + 1 : ℕ) : ℤ), expires) ∧
      t₀ + 3600 * 1000 ≤ expires

theorem Stands.live_succ (h : Stands redis t₀ key (j + 1)) {t : ℕ} (ht : InHour t₀ t) :
    ∃ expires, redis.live t key = some (((j + 1 : ℕ) : ℤ), expires) ∧
      t₀ + 3600 * 1000 ≤ expires := by
  obtain ⟨expires, hentry, hexp⟩ := h
  exact ⟨expires, Lib.Keyspace.live_eq_some.2 ⟨hentry, ht.2.trans_le hexp⟩, hexp⟩

theorem Stands.value (h : Stands redis t₀ key j) {t : ℕ} (ht : InHour t₀ t) :
    (valueAt redis t key).getD 0 = j := by
  cases j with
  | zero =>
    rw [valueAt, Lib.Keyspace.live_none_mono h ht.1]
    rfl
  | succ j =>
    obtain ⟨expires, hlive, -⟩ := h.live_succ ht
    rw [valueAt, hlive]
    rfl

theorem stands_put_of_ne {key' : String} (h : Stands redis t₀ key j) (hne : key ≠ key') (v : ℤ)
    (expires : ℕ) : Stands (redis.put key' v expires) t₀ key j := by
  cases j with
  | zero =>
    rw [Stands, Lib.Keyspace.live_put, if_neg hne]
    exact h
  | succ j =>
    obtain ⟨e, hentry, hexp⟩ := h
    exact ⟨e, (Function.update_of_ne hne _ _).trans hentry, hexp⟩

theorem stands_put (hexp : t₀ + 3600 * 1000 ≤ expires) :
    Stands (redis.put key ((j + 1 : ℕ) : ℤ) expires) t₀ key (j + 1) :=
  ⟨expires, Function.update_self .., hexp⟩

/-- The script counts one and touches no other counter. -/
theorem evalScriptAt_stands (h : Stands redis t₀ key j) {now : ℕ} (hnow : InHour t₀ now) {ttl : ℕ}
    (httl : 3600 ≤ ttl) (hj : j < 2 ^ 63 - 1) : ∃ expires, t₀ + 3600 * 1000 ≤ expires ∧
      evalScriptAt redis now key ttl = some (redis.put key ((j + 1 : ℕ) : ℤ) expires) := by
  have hfresh : t₀ + 3600 * 1000 ≤ now + ttl * 1000 := by
    have := hnow.1
    omega
  unfold evalScriptAt
  cases j with
  | zero =>
    rw [Lib.Keyspace.live_none_mono h hnow.1]
    exact ⟨_, hfresh, rfl⟩
  | succ j =>
    obtain ⟨expires, hlive, hexp⟩ := h.live_succ hnow
    have hmax : ((j + 1 : ℕ) : ℤ) ≠ 2 ^ 63 - 1 := by omega
    have hone : ((j + 1 : ℕ) : ℤ) + 1 ≠ 1 := by omega
    refine ⟨expires, hexp, ?_⟩
    simp only [hlive, hmax, hone, if_false]
    push_cast
    rfl

/-- Both counters of the user and campaign stand at the number. -/
structure Recorded (redis : Redis) (t₀ : ℕ) (u : String) (c : CampaignId) (j : ℕ) : Prop where
  day : Stands redis t₀ (fcKey u "c" c .Day) j
  hour : Stands redis t₀ (fcKey u "c" c .Hour) j

theorem writeImpressionCountersAt_recorded (event : ImpressionEvent) {hourAt dayAt : ℕ}
    (h : Recorded redis t₀ event.userId event.campaignId j) (hhour : InHour t₀ hourAt)
    (hday : InHour t₀ dayAt) (hj : j < 2 ^ 63 - 1) :
    Recorded (writeImpressionCountersAt event [hourAt, dayAt] redis) t₀ event.userId
      event.campaignId (j + 1) := by
  have hkeys : fcKey event.userId "c" event.campaignId .Day ≠
      fcKey event.userId "c" event.campaignId .Hour := by
    intro hkey
    cases (fcKey_inj hkey).2.2
  -- the hour's script runs first
  obtain ⟨e, he, hscript⟩ := evalScriptAt_stands h.hour hhour le_rfl hj
  have hday' := stands_put_of_ne h.day hkeys ((j + 1 : ℕ) : ℤ) e
  obtain ⟨e', he', hscript'⟩ := evalScriptAt_stands hday' hday (show 3600 ≤ 86400 by decide) hj
  have hwrite : writeImpressionCountersAt event [hourAt, dayAt] redis =
      (redis.put (fcKey event.userId "c" event.campaignId .Hour) ((j + 1 : ℕ) : ℤ) e).put
        (fcKey event.userId "c" event.campaignId .Day) ((j + 1 : ℕ) : ℤ) e' := by
    simp only [writeImpressionCountersAt, writeWindows, List.zip_cons_cons, List.zip_nil_left,
      List.foldl_cons, List.foldl_nil]
    rw [show writeKey event "h" = _ from writeKey_eq event .Hour,
      show writeKey event "d" = _ from writeKey_eq event .Day, hscript, Option.getD_some, hscript',
      Option.getD_some]
  rw [hwrite]
  exact ⟨stands_put he', stands_put_of_ne (stands_put he) hkeys.symm _ _⟩

/-- The round falls in the hour, and its candidates have the campaign with these caps. -/
structure Fits (t₀ : ℕ) (c : CampaignId) (dailyCap hourlyCap : UInt32) (r : Round) : Prop where
  mget : InHour t₀ r.mgetAt
  hour : InHour t₀ r.hourAt
  day : InHour t₀ r.dayAt
  present : ∃ cand ∈ r.candidates, cand.campaignId = c
  caps : ∀ cand ∈ r.candidates, cand.campaignId = c →
    cand.dailyCapImps = dailyCap ∧ cand.hourlyCapImps = hourlyCap

/-- The verdict of a round is the comparison with the smaller cap. -/
theorem any_capped (hr : Fits t₀ c dailyCap hourlyCap r) (hs : Recorded redis t₀ u c j) :
    ((r.candidates.map (RedisFrequencyCapper.verdict (valueAt redis r.mgetAt) u)).any fun result =>
      result.campaignId = c && result.capped) = !decide (j < min dailyCap.toNat hourlyCap.toNat) := by
  have hverdict (cand : AdCandidate) (hmem : cand ∈ r.candidates) (hid : cand.campaignId = c) :
      (RedisFrequencyCapper.verdict (valueAt redis r.mgetAt) u cand).capped =
        !decide (j < min dailyCap.toNat hourlyCap.toNat) := by
    obtain ⟨hdaily, hhourly⟩ := hr.caps cand hmem hid
    simp only [RedisFrequencyCapper.verdict, RedisFrequencyCapper.count, capVerdict, hid, hdaily,
      hhourly, hs.day.value hr.mget, hs.hour.value hr.mget, Nat.cast_le]
    rw [← Bool.decide_or, ← decide_not, decide_eq_decide, lt_min_iff, not_and_or, not_lt, not_lt]
  obtain ⟨cand, hmem, hid⟩ := hr.present
  rw [List.any_map]
  cases hlt : decide (j < min dailyCap.toNat hourlyCap.toNat) with
  | true =>
    rw [Bool.not_true, List.any_eq_false]
    rintro x hx hand
    obtain ⟨hx', hcap⟩ := Bool.and_eq_true_iff.1 hand
    rw [hverdict x hx (of_decide_eq_true hx'), hlt] at hcap
    cases hcap
  | false =>
    rw [Bool.not_false, List.any_eq_true]
    refine ⟨cand, hmem, Bool.and_eq_true_iff.2 ⟨decide_eq_true hid, ?_⟩⟩
    rw [hverdict cand hmem hid, hlt]
    rfl

theorem round_recorded (hr : Fits t₀ c dailyCap hourlyCap r) (hs : Recorded s.redis t₀ u c j)
    {through : Bool} {s' : State} (h : s.round cfg u c r = some (through, s')) :
    through = decide (j < min dailyCap.toNat hourlyCap.toNat) ∧
      Recorded s'.redis t₀ u c (if through then j + 1 else j) := by
  unfold State.round at h
  dsimp only at h
  split at h
  case h_2 => cases h
  case h_1 results hchecked =>
    obtain rfl := RedisFrequencyCapper.guardedCheck_checked hchecked
    rw [any_capped hr hs] at h
    by_cases hlt : j < min dailyCap.toNat hourlyCap.toNat
    · have hj : j < 2 ^ 63 - 1 := by
        have := dailyCap.toNat_lt
        omega
      simp only [hlt, decide_true, Bool.not_true, Bool.false_eq_true, if_false, Option.some.injEq,
        Prod.mk.injEq] at h ⊢
      obtain ⟨rfl, rfl⟩ := h
      exact ⟨rfl, writeImpressionCountersAt_recorded ⟨u, c, _, _, _⟩ hs hr.hour hr.day hj⟩
    · simp only [hlt, decide_false, Bool.not_false, if_true, Option.some.injEq,
        Prod.mk.injEq] at h ⊢
      obtain ⟨rfl, rfl⟩ := h
      exact ⟨rfl, hs⟩

theorem rounds_eq {rs : List Round} (hrs : ∀ r ∈ rs, Fits t₀ c dailyCap hourlyCap r)
    (hs : Recorded s.redis t₀ u c j) {flags : List Bool}
    (h : s.rounds cfg u c rs = some flags) :
    flags = (List.range rs.length).map fun i =>
      decide (j + i < min dailyCap.toNat hourlyCap.toNat) := by
  induction rs generalizing s j flags with
  | nil =>
    obtain rfl := Option.some.inj h
    rfl
  | cons r rs ih =>
    obtain ⟨⟨through, s'⟩, hround, hrest⟩ := Option.bind_eq_some_iff.1 h
    obtain ⟨flags, hflags, rfl⟩ := Option.map_eq_some_iff.1 hrest
    obtain ⟨hr, hrs⟩ := List.forall_mem_cons.1 hrs
    obtain ⟨hthrough, hs'⟩ := round_recorded hr hs hround
    rw [ih hrs hs' hflags, List.length_cons, List.range_succ_eq_map, List.map_cons, List.map_map,
      hthrough]
    refine congrArg₂ _ rfl (List.map_congr_left fun i _ => ?_)
    -- once the smaller cap is reached the count stays where it is
    rw [Function.comp_apply, decide_eq_decide]
    split_ifs with hlt
    · rw [Nat.add_right_comm, Nat.add_assoc]
    · have hcapped := not_lt.1 fun h => hlt (decide_eq_true h)
      exact ⟨fun h => absurd h (by omega), fun h => absurd h (by omega)⟩

/-- From no recorded impressions on, the campaign is let through as often as documented, a
cap of 0 counting as 1, exactly if no cap is 0. -/
theorem let_through_as_documented_iff {rs : List Round} {flags : List Bool}
    (hday : s.redis.live t₀ (fcKey u "c" c .Day) = none)
    (hhour : s.redis.live t₀ (fcKey u "c" c .Hour) = none)
    (hrs : ∀ r ∈ rs, Fits t₀ c dailyCap hourlyCap r) (h : s.rounds cfg u c rs = some flags) :
    flags = (List.range rs.length).map (fun i =>
      decide (i < min (max dailyCap.toNat 1) (max hourlyCap.toNat 1))) ↔
    rs = [] ∨ dailyCap ≠ 0 ∧ hourlyCap ≠ 0 := by
  have hstart : Recorded s.redis t₀ u c 0 := ⟨hday, hhour⟩
  rw [rounds_eq hrs hstart h]
  simp only [Nat.zero_add, ne_eq, ← UInt32.toNat_inj, UInt32.toNat_zero]
  constructor
  · intro heq
    rcases rs with _ | ⟨r, rs⟩
    · exact .inl rfl
    · have hfirst := congrArg List.head? heq
      rw [List.length_cons, List.range_succ_eq_map, List.map_cons, List.map_cons, List.head?_cons,
        List.head?_cons, Option.some.injEq, decide_eq_decide] at hfirst
      omega
  · rintro (rfl | hcaps)
    · rfl
    · apply List.map_congr_left
      intro i _
      rw [decide_eq_decide]
      omega

/-- A check at `t` of a campaign with these caps, alone on the list. -/
def sampleRound (t : ℕ) (dailyCap hourlyCap : UInt32) : Round where
  candidates := [⟨7, 1, 100, .fin 0, dailyCap, hourlyCap⟩]
  now := 0
  reply := .answered
  duration := 0
  mgetAt := t
  hourAt := t + 1
  dayAt := t + 2
  creativeId := 1
  deviceType := 0
  hourOfDay := 0

def sampleState : State := ⟨.empty, .new⟩

theorem sampleRound_fits {t : ℕ} (dailyCap hourlyCap : UInt32) (ht : t + 2 < 3600 * 1000) :
    Fits 0 7 dailyCap hourlyCap (sampleRound t dailyCap hourlyCap) where
  mget := ⟨Nat.zero_le _, by simp only [sampleRound]; omega⟩
  hour := ⟨Nat.zero_le _, by simp only [sampleRound]; omega⟩
  day := ⟨Nat.zero_le _, by simp only [sampleRound]; omega⟩
  present := ⟨_, List.mem_singleton_self _, rfl⟩
  caps := by
    intro cand hmem _
    rw [List.mem_singleton.1 hmem]
    exact ⟨rfl, rfl⟩

theorem let_through_as_documented_twice_an_hour :
    sampleState.rounds .redis "u" 7
      [sampleRound 0 5 2, sampleRound 10 5 2, sampleRound 20 5 2, sampleRound 3599000 5 2] =
        some [true, true, false, false] ∧
    [true, true, false, false] = (List.range 4).map fun i =>
      decide (i < min (max (5 : UInt32).toNat 1) (max (2 : UInt32).toNat 1)) := by
  have hrun : sampleState.rounds .redis "u" 7
      [sampleRound 0 5 2, sampleRound 10 5 2, sampleRound 20 5 2, sampleRound 3599000 5 2] =
        some [true, true, false, false] := by decide +kernel
  have hday : sampleState.redis.live 0 (fcKey "u" "c" 7 .Day) = none := rfl
  refine ⟨hrun, (let_through_as_documented_iff hday rfl ?_ hrun).2 (.inr (by decide))⟩
  simp only [List.forall_mem_cons, List.not_mem_nil, false_imp_iff, implies_true, and_true]
  exact ⟨sampleRound_fits 5 2 (by decide), sampleRound_fits 5 2 (by decide),
    sampleRound_fits 5 2 (by decide), sampleRound_fits 5 2 (by decide)⟩

/-- With a daily cap of 0 the campaign is blocked before its first impression. -/
theorem zero_cap_blocks_first_impression :
    Fits 0 7 0 5 (sampleRound 0 0 5) ∧
    sampleState.rounds .redis "u" 7 [sampleRound 0 0 5] = some [false] ∧
    (List.range 1).map (fun i =>
      decide (i < min (max (0 : UInt32).toNat 1) (max (5 : UInt32).toNat 1))) = [true] :=
  ⟨sampleRound_fits 0 5 (by decide), by decide +kernel, by decide⟩

end CapRounds

end RTB
