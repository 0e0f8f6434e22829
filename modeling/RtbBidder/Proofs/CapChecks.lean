import RtbBidder.Proofs.UnderCap
import RtbBidder.Spec.CapChecks

/-! The counters that the impression writer leaves are what the Redis capper reads, user
by user and campaign by campaign; and the in-process capper over a cache that agrees with
Redis answers as the Redis capper does. -/

namespace RTB

open RedisFrequencyCapper (count verdict)

section Writer

variable {event : ImpressionEvent} {events : List ImpressionEvent} {r : RedisCounters × Bool}
  {u : String} {c : CampaignId} {w : CapWindow}

/-- The event counts for this user and campaign. -/
def countsFor (u : String) (c : CampaignId) (event : ImpressionEvent) : Bool :=
  event.userId = u && event.campaignId = c

/-- Writer and reader format the same key. -/
theorem writeKey_eq (event : ImpressionEvent) (w : CapWindow) :
    writeKey event w.suffix = fcKey event.userId "c" event.campaignId w := by
  have hdim : "\x7d:c:" = "\x7d:" ++ "c" ++ ":" := by decide
  delta writeKey fcKey
  rw [hdim]
  simp only [String.append_assoc]

theorem evalScript_value {rs rs' : RedisCounters} {key : String} {ttl : ℕ}
    (hs : rs.evalScript key ttl = some rs') :
    rs'.value = Function.update rs.value key (some ((rs.value key).getD 0 + 1)) := by
  simp only [RedisCounters.evalScript] at hs
  split_ifs at hs
  · obtain rfl := Option.some.inj hs
    rfl
  · obtain rfl := Option.some.inj hs
    rfl

/-- A script that succeeds counts one for its key. -/
theorem count_evalScript {rs rs' : RedisCounters} {ttl : ℕ}
    (hs : rs.evalScript (writeKey event w.suffix) ttl = some rs') (w' : CapWindow) :
    count rs'.value u c w' =
      count rs.value u c w' + if countsFor u c event ∧ w' = w then 1 else 0 := by
  rw [count, evalScript_value hs, writeKey_eq]
  by_cases hkey : fcKey u "c" c w' = fcKey event.userId "c" event.campaignId w
  · obtain ⟨rfl, rfl, rfl⟩ := fcKey_inj hkey
    simp [count, countsFor]
  · have hne : ¬ (countsFor u c event ∧ w' = w) := by
      rintro ⟨hev, rfl⟩
      simp only [countsFor, Bool.and_eq_true, decide_eq_true_eq] at hev
      exact hkey (by rw [hev.1, hev.2])
    simp [count, Function.update_of_ne hkey, hne]

theorem writeWindow_ok (window : ℕ × String) (hok : (writeWindow event r window).2 = true) :
    r.2 = true ∧ r.1.evalScript (writeKey event window.2) window.1 =
      some (writeWindow event r window).1 := by
  unfold writeWindow at hok ⊢
  split at hok
  · rename_i r' hr'
    simp only [hr'] at hok ⊢
    exact ⟨hok, trivial⟩
  · cases hok

/-- An event all of whose scripts succeed counts one in both windows. -/
theorem count_write (hok : (writeImpressionCounters r event).2 = true) (hw : w ≠ .Week) :
    r.2 = true ∧ count (writeImpressionCounters r event).1.value u c w =
      count r.1.value u c w + if countsFor u c event then 1 else 0 := by
  obtain ⟨hok₁, hday⟩ := writeWindow_ok (86400, "d") hok
  obtain ⟨hok₀, hhour⟩ := writeWindow_ok (3600, "h") hok₁
  refine ⟨hok₀, ?_⟩
  have hcount := count_evalScript (w := .Day) (u := u) (c := c) hday w
  rw [count_evalScript (w := .Hour) (u := u) (c := c) hhour w] at hcount
  refine hcount.trans ?_
  cases w with
  | Hour => simp
  | Day => simp
  | Week => exact absurd rfl hw

theorem count_writeAll (hok : (writeAll events).2 = true) (hw : w ≠ .Week) :
    count (writeAll events).1.value u c w = events.countP (countsFor u c) := by
  induction events using List.reverseRecOn with
  | nil => rfl
  | append_singleton events event ih =>
    rw [writeAll, List.foldl_append, List.foldl_cons, List.foldl_nil, ← writeAll] at hok ⊢
    obtain ⟨hok', hcount⟩ := count_write (u := u) (c := c) hok hw
    rw [hcount, ih hok', List.countP_append, List.countP_singleton]
    push_cast
    rfl

end Writer

namespace RedisFrequencyCapper

variable {cfg : BreakerConfig} {now duration : ℕ} {reply : RedisEnd} {redis : String → Option ℤ}
  {u : String} {cands : List AdCandidate} {b : CircuitBreaker} {rs : List CapResult}

/-- Whenever the guarded check answers, it answers from the counters. -/
theorem guardedCheck_checked
    (h : (guardedCheck cfg now reply duration redis u cands b).1 = .Checked rs) :
    rs = cands.map (verdict redis u) := by
  unfold guardedCheck at h
  split_ifs at h with hempty
  · obtain rfl : [] = rs := FreqCapOutcome.Checked.inj h
    rw [List.isEmpty_iff.1 hempty, List.map_nil]
  · dsimp only at h
    split_ifs at h
    cases reply with
    | answered =>
      obtain rfl := FreqCapOutcome.Checked.inj h
      exact results_eq redis u cands
    | elapsed => cases h
    | failed => cases h

end RedisFrequencyCapper

/-- What a later check reads of the impressions written so far: result by result the
candidate's campaign, the number of its events in both windows, and the verdict on them. -/
theorem counts_exact {cfg : BreakerConfig} {now duration : ℕ} {reply : RedisEnd}
    {b : CircuitBreaker} {u : String} {cands : List AdCandidate} {rs : List CapResult}
    (events : List ImpressionEvent) (hok : (writeAll events).2 = true)
    (h : (RedisFrequencyCapper.guardedCheck cfg now reply duration (writeAll events).1.value u
      cands b).1 = .Checked rs) :
    rs.length = cands.length ∧ ∀ (i : ℕ) (cand : AdCandidate), cands[i]? = some cand →
      ∃ (r : CapResult) (n : ℕ), rs[i]? = some r ∧
        n = events.countP (countsFor u cand.campaignId) ∧ r.campaignId = cand.campaignId ∧
        r.dayCount = some (n : ℤ) ∧ r.hourCount = some (n : ℤ) ∧
        (r.capped = true ↔ cand.dailyCapImps.toNat ≤ n ∨ cand.hourlyCapImps.toNat ≤ n) := by
  obtain rfl := RedisFrequencyCapper.guardedCheck_checked h
  refine ⟨List.length_map _, ?_⟩
  intro i cand hi
  refine ⟨_, _, by rw [List.getElem?_map, hi]; rfl, rfl, rfl, ?_, ?_, ?_⟩
  · rw [← count_writeAll hok (show CapWindow.Day ≠ .Week by decide)]
    rfl
  · rw [← count_writeAll hok (show CapWindow.Hour ≠ .Week by decide)]
    rfl
  · simp only [verdict, capVerdict, count_writeAll hok (show CapWindow.Day ≠ .Week by decide),
      count_writeAll hok (show CapWindow.Hour ≠ .Week by decide), Bool.or_eq_true,
      decide_eq_true_eq, Nat.cast_le]

/-- Two impressions of one user and one of another, whose id looks like a key's tail. -/
def sampleImpressions : List ImpressionEvent :=
  [⟨"a", 7, 1, 0, 0⟩, ⟨"a\x7d:c:7:h", 7, 1, 0, 0⟩, ⟨"a", 7, 1, 0, 0⟩]

def cappedCandidate : AdCandidate := ⟨7, 1, 100, .fin 0, 2, 5⟩

theorem counts_exact_similar_users :
    ∃ rs : List CapResult, (RedisFrequencyCapper.guardedCheck .redis 0 .answered 0
      (writeAll sampleImpressions).1.value "a" [cappedCandidate] .new).1 = .Checked rs ∧
      ∃ r, rs[0]? = some r ∧ r.dayCount = some 2 ∧ r.capped = true := by
  obtain ⟨rs, hrs⟩ : ∃ rs, (RedisFrequencyCapper.guardedCheck .redis 0 .answered 0
    (writeAll sampleImpressions).1.value "a" [cappedCandidate] .new).1 = .Checked rs := ⟨_, rfl⟩
  obtain ⟨r, n, hr, hn, -, hday, -, hcapped⟩ :=
    (counts_exact sampleImpressions (by decide +kernel) hrs).2 0 cappedCandidate rfl
  obtain rfl : n = 2 := hn.trans (by decide)
  exact ⟨rs, hrs, r, hr, hday, hcapped.2 (.inl (by decide))⟩

namespace InProcessFrequencyCapper

variable {cfg : BreakerConfig} {now : ℕ} {redis : String → Option ℤ} {u : String}
  {cands cold : List AdCandidate} {s : State} {c c' : CampaignId}
  {fallback : String → List AdCandidate → CircuitBreaker → FreqCapOutcome × CircuitBreaker}

/-- The counters that Redis has for a user and campaign. -/
def redisCounts (redis : String → Option ℤ) (u : String) (c : CampaignId) : ℤ × ℤ :=
  (count redis u c .Day, count redis u c .Hour)

/-- Every cached pair of the user is the one in Redis. -/
def Coherent (redis : String → Option ℤ) (u : String) (s : State) : Prop :=
  ∀ c v, s.lookup u c = some v → v = redisCounts redis u c

theorem lookup_warmCache (s : State) (u : String) (c c' : CampaignId) (day hour : ℤ) :
    (s.warmCache u c day hour).lookup u c' =
      if c' = c then some ((s.lookup u c).elim (day, hour) fun v => (max v.1 day, max v.2 hour))
      else s.lookup u c' := by
  have hmap : ∀ x, (s.counters u).bind (·.lookup x) = ((s.counters u).getD ∅).lookup x := by
    intro x
    cases s.counters u <;> simp
  simp only [State.lookup, State.warmCache, Function.update_self, Option.bind_some, UserCapMap.warm,
    hmap]
  by_cases hc : c' = c
  · subst hc
    rw [AList.lookup_insert, if_pos rfl]
    cases ((s.counters u).getD ∅).lookup c' <;> rfl
  · rw [AList.lookup_insert_ne hc, if_neg hc]

/-- Warming a coherent cache with the counters of a campaign. -/
theorem Coherent.warmCache (h : Coherent redis u s) (c : CampaignId) :
    let s' := s.warmCache u c (count redis u c .Day) (count redis u c .Hour)
    (∀ c', s'.lookup u c' = if c' = c then some (redisCounts redis u c) else s.lookup u c') ∧
      Coherent redis u s' := by
  intro s'
  have hlookup : ∀ c', s'.lookup u c' =
      if c' = c then some (redisCounts redis u c) else s.lookup u c' := by
    intro c'
    rw [lookup_warmCache]
    cases hv : s.lookup u c with
    | none => rfl
    | some v => rw [h c v hv]; simp [redisCounts]
  refine ⟨hlookup, ?_⟩
  intro c' v hv
  rw [hlookup] at hv
  split_ifs at hv with hc
  · subst hc
    exact (Option.some.inj hv).symm
  · exact h c' v hv

/-- What writing the fallback's verdicts back leaves in the cache. -/
theorem lookup_foldl_writeBack (h : Coherent redis u s) (rs : List CapResult) (c : CampaignId) :
    ((cold.map (verdict redis u)).foldl (writeBack u) (rs, s)).2.lookup u c =
      if c ∈ cold.map (·.campaignId) then some (redisCounts redis u c) else s.lookup u c := by
  induction cold generalizing s rs with
  | nil => simp
  | cons cand cold ih =>
    obtain ⟨hlookup, hcoh⟩ := h.warmCache cand.campaignId
    rw [List.map_cons, List.foldl_cons]
    have hback : writeBack u (rs, s) (verdict redis u cand) = (patch (verdict redis u cand) rs,
      s.warmCache u cand.campaignId (count redis u cand.campaignId .Day)
        (count redis u cand.campaignId .Hour)) := rfl
    rw [hback, ih hcoh, hlookup]
    by_cases hc : c = cand.campaignId
    · subst hc
      simp
    · simp [hc]

theorem foldl_writeBack_fst (fbs : List CapResult) (r : List CapResult × State) :
    (fbs.foldl (writeBack u) r).1 = fbs.foldl (fun rs fb => patch fb rs) r.1 := by
  induction fbs generalizing r with
  | nil => rfl
  | cons fb fbs ih =>
    rw [List.foldl_cons, List.foldl_cons, ih]
    rfl

/-- An admitted check returns what a check that nothing interrupts returns. -/
theorem guardedCheck_outcome (hallowed : (s.breaker.allowRequest cfg now).1 = true) :
    (guardedCheck cfg now fallback u cands s).1 = check (s.lookup u)
      (fun cold => (fallback u cold (s.breaker.allowRequest cfg now).2).1) cands := by
  have hlookup : ∀ b, ({ s with breaker := b } : State).lookup u = s.lookup u := fun _ => rfl
  simp only [guardedCheck, hallowed, Bool.true_eq_false, if_false, check, hlookup]
  split_ifs
  · rfl
  · cases (fallback u (cands.filter fun c => (s.lookup u c.campaignId).isNone)
        (s.breaker.allowRequest cfg now).2).1 with
    | Checked fbs =>
      dsimp only
      rw [foldl_writeBack_fst]
    | SkippedTimeout | SkippedNoUser => rfl

/-- The candidates that a check finds cold. -/
def coldOf (u : String) (cands : List AdCandidate) (s : State) : List AdCandidate :=
  cands.filter fun c => (s.lookup u c.campaignId).isNone

theorem mem_coldOf {cand : AdCandidate} (hmem : cand ∈ cands) :
    cand.campaignId ∈ (coldOf u cands s).map (·.campaignId) ↔ s.lookup u cand.campaignId = none := by
  refine ⟨?_, ?_⟩
  · intro h
    obtain ⟨cand', hcand', hid⟩ := List.mem_map.1 h
    rw [← hid]
    simpa using (List.mem_filter.1 hcand').2
  · intro h
    exact List.mem_map_of_mem (List.mem_filter.2 ⟨hmem, by simp [h]⟩)

/-- A check that finds every candidate warm does not call the fallback. -/
theorem guardedCheck_warm (hallowed : (s.breaker.allowRequest cfg now).1 = true)
    (hwarm : ∀ cand ∈ cands,
      s.lookup u cand.campaignId = some (redisCounts redis u cand.campaignId)) :
    (guardedCheck cfg now fallback u cands s).1 = RedisFrequencyCapper.check redis u cands ∧
      (guardedCheck cfg now fallback u cands s).2.2 = none := by
  have hlookup : ∀ b, ({ s with breaker := b } : State).lookup u = s.lookup u := fun _ => rfl
  have hcold : coldOf u cands s = [] := by
    apply List.filter_eq_nil_iff.2
    intro cand hcand
    simp [hwarm cand hcand]
  have hresults : cands.map (fun c => lookupResult (s.lookup u c.campaignId) c) =
      cands.map (verdict redis u) := by
    apply List.map_congr_left
    intro cand hcand
    rw [hwarm cand hcand]
    rfl
  rw [coldOf] at hcold
  rw [RedisFrequencyCapper.check_eq]
  simp only [guardedCheck, hallowed, Bool.true_eq_false, if_false, hlookup, hcold, List.isEmpty_nil,
    if_true, hresults, and_self]

/-- What an admitted check leaves in the cache when the fallback answers. -/
theorem lookup_guardedCheck (hcoh : Coherent redis u s)
    (hallowed : (s.breaker.allowRequest cfg now).1 = true) {b : CircuitBreaker}
    (hfb : fallback u (coldOf u cands s) (s.breaker.allowRequest cfg now).2 =
      (.Checked ((coldOf u cands s).map (verdict redis u)), b)) (c : CampaignId) :
    (guardedCheck cfg now fallback u cands s).2.1.lookup u c =
      if c ∈ (coldOf u cands s).map (·.campaignId) then some (redisCounts redis u c)
      else s.lookup u c := by
  have hlookup : ∀ b, ({ s with breaker := b } : State).lookup u = s.lookup u := fun _ => rfl
  have hcold : coldOf u cands s = cands.filter fun c => (s.lookup u c.campaignId).isNone := rfl
  have hcoh' : Coherent redis u { s with breaker := b } := hcoh
  simp only [guardedCheck, hallowed, Bool.true_eq_false, if_false, hlookup, ← hcold, hfb]
  split_ifs with hempty hmem hmem
  · rw [List.isEmpty_iff.1 hempty] at hmem
    cases hmem
  · rfl
  · rw [lookup_foldl_writeBack hcoh', if_pos hmem]
  · rw [lookup_foldl_writeBack hcoh', if_neg hmem]
    rfl

/-- A fallback that answers for the cold candidates as Redis does makes the whole check
answer so. -/
theorem guardedCheck_agrees (hd : Distinct cands) (hcoh : Coherent redis u s)
    (hallowed : (s.breaker.allowRequest cfg now).1 = true)
    (hfb : (fallback u (coldOf u cands s) (s.breaker.allowRequest cfg now).2).1 =
      .Checked ((coldOf u cands s).map (verdict redis u))) :
    (guardedCheck cfg now fallback u cands s).1 = RedisFrequencyCapper.check redis u cands := by
  have hcheck : (guardedCheck cfg now fallback u cands s).1 =
      check (s.lookup u) (RedisFrequencyCapper.check redis u) cands := by
    rw [guardedCheck_outcome hallowed]
    unfold check
    rw [← RedisFrequencyCapper.check_eq, coldOf] at hfb
    simp only [hfb]
  rw [hcheck, check_eq _ _ _ hd, RedisFrequencyCapper.check_eq]
  congr 1
  apply List.map_congr_left
  intro cand _
  cases hv : s.lookup u cand.campaignId with
  | none => rfl
  | some v => rw [hcoh _ v hv]; rfl

/-- Such a check leaves every candidate cached with its Redis counters. -/
theorem cached_guardedCheck (hcoh : Coherent redis u s)
    (hallowed : (s.breaker.allowRequest cfg now).1 = true)
    (hfb : (fallback u (coldOf u cands s) (s.breaker.allowRequest cfg now).2).1 =
      .Checked ((coldOf u cands s).map (verdict redis u))) :
    ∀ cand ∈ cands, (guardedCheck cfg now fallback u cands s).2.1.lookup u cand.campaignId =
      some (redisCounts redis u cand.campaignId) := by
  intro cand hcand
  rw [lookup_guardedCheck hcoh hallowed (Prod.ext hfb rfl)]
  split_ifs with hmem
  · rfl
  · rw [mem_coldOf hcand] at hmem
    obtain ⟨v, hv⟩ := Option.ne_none_iff_exists'.1 hmem
    rw [hv, hcoh _ v hv]

/-- Over a coherent cache, whichever candidates it holds, the check answers as the Redis
capper does on the whole list. It leaves every candidate cached with the Redis counters, so
that a second check does not call the fallback and answers the same. -/
theorem cached_check_agrees {t duration : ℕ} {reply : RedisEnd} (hd : Distinct cands)
    (hcoh : Coherent redis u s) (hallowed : (s.breaker.allowRequest cfg now).1 = true)
    {fbs : List CapResult} (hfb : (RedisFrequencyCapper.guardedCheck cfg t reply duration redis u
      (coldOf u cands s) (s.breaker.allowRequest cfg now).2).1 = .Checked fbs) :
    let r := guardedCheck cfg now (RedisFrequencyCapper.guardedCheck cfg t reply duration redis) u
      cands s
    r.1 = RedisFrequencyCapper.check redis u cands ∧
    (∀ cand ∈ cands, r.2.1.lookup u cand.campaignId = some (redisCounts redis u cand.campaignId)) ∧
    ∀ (now' : ℕ) (fallback' : String → List AdCandidate → CircuitBreaker →
        FreqCapOutcome × CircuitBreaker) (s' : State), s'.counters = r.2.1.counters →
      (s'.breaker.allowRequest cfg now').1 = true →
      (guardedCheck cfg now' fallback' u cands s').1 = r.1 ∧
        (guardedCheck cfg now' fallback' u cands s').2.2 = none := by
  intro r
  -- the fallback's answer on the cold candidates
  have hverdicts := hfb
  rw [RedisFrequencyCapper.guardedCheck_checked hfb] at hverdicts
  have houtcome : r.1 = RedisFrequencyCapper.check redis u cands :=
    guardedCheck_agrees hd hcoh hallowed hverdicts
  have hcached : ∀ cand ∈ cands,
      r.2.1.lookup u cand.campaignId = some (redisCounts redis u cand.campaignId) :=
    cached_guardedCheck hcoh hallowed hverdicts
  refine ⟨houtcome, hcached, ?_⟩
  intro now' fallback' s' hs' hallowed'
  have hwarm : ∀ cand ∈ cands,
      s'.lookup u cand.campaignId = some (redisCounts redis u cand.campaignId) := by
    intro cand hcand
    rw [← hcached cand hcand, State.lookup, hs']
    rfl
  have hagain : (guardedCheck cfg now' fallback' u cands s').1 =
      RedisFrequencyCapper.check redis u cands ∧
      (guardedCheck cfg now' fallback' u cands s').2.2 = none := guardedCheck_warm hallowed' hwarm
  exact ⟨hagain.1.trans houtcome.symm, hagain.2⟩

/-- Campaign 1 is cached with its Redis counters, campaign 2 is cold. -/
def halfWarm : State := ⟨.new, fun _ => some ((∅ : UserCapMap).insert 1 (3, 1))⟩

def halfWarmRedis : String → Option ℤ :=
  Function.update (Function.update (Function.update (fun _ => none) (fcKey "u" "c" 1 .Day) (some 3))
    (fcKey "u" "c" 1 .Hour) (some 1)) (fcKey "u" "c" 2 .Day) (some 5)

def halfWarmCandidates : List AdCandidate := [⟨1, 1, 100, .fin 0, 5, 5⟩, ⟨2, 1, 100, .fin 0, 5, 5⟩]

theorem cached_check_agrees_half_warm :
    let r := guardedCheck .redis 0
      (RedisFrequencyCapper.guardedCheck .redis 0 .answered 0 halfWarmRedis) "u" halfWarmCandidates
      halfWarm
    halfWarm.lookup "u" 1 = some (3, 1) ∧ halfWarm.lookup "u" 2 = none ∧
      r.1 = RedisFrequencyCapper.check halfWarmRedis "u" halfWarmCandidates ∧
      r.2.1.lookup "u" 2 = some (5, 0) := by
  intro r
  have hcoh : Coherent halfWarmRedis "u" halfWarm := by
    intro c v hv
    by_cases hc : c = 1
    · subst hc
      have hval : halfWarm.lookup "u" 1 = some (redisCounts halfWarmRedis "u" 1) := by decide +kernel
      exact Option.some.inj (hv.symm.trans hval)
    · have hnone : halfWarm.lookup "u" c = none :=
        (AList.lookup_insert_ne hc).trans (AList.lookup_empty c)
      rw [hnone] at hv
      cases hv
  have hfb : (RedisFrequencyCapper.guardedCheck .redis 0 .answered 0 halfWarmRedis "u"
      (coldOf "u" halfWarmCandidates halfWarm) (halfWarm.breaker.allowRequest .redis 0).2).1 =
      .Checked [⟨2, true, some 5, some 0⟩] := by decide +kernel
  obtain ⟨houtcome, hcached, -⟩ := cached_check_agrees
    (show (halfWarmCandidates.map (·.campaignId)).Nodup by decide) hcoh
    (show (halfWarm.breaker.allowRequest .redis 0).1 = true by decide) hfb
  refine ⟨by decide +kernel, by decide +kernel, houtcome, ?_⟩
  refine (hcached ⟨2, 1, 100, .fin 0, 5, 5⟩ (by decide)).trans ?_
  decide +kernel

end InProcessFrequencyCapper

end RTB
