import RtbBidder.Spec.CapChecks
import RtbBidder.Spec.Scoring
import RtbBidder.Spec.SegmentCache

/-! The dependencies of the production pipeline, with the state that is kept per user set
apart: the segment cache, the Redis segment and frequency-cap keys, the counters of the
in-process capper and the breaker in front of Redis. -/

namespace RTB

section Unscored

/-! Scorers change scores only. -/

variable {cfg : MLScorerConfig} {ln : Ln} {ctx : ScoringContext} {cs scored : List AdCandidate}

theorem map_unscored_zipWith {data : List F32} (h : cs.length ≤ data.length) :
    (cs.zipWith (fun c score => { c with score := score }) data).map (·.unscored) =
      cs.map (·.unscored) := by
  induction cs generalizing data with
  | nil => simp
  | cons c cs ih =>
    cases data with
    | nil => simp at h
    | cons score data =>
      simp only [List.zipWith_cons_cons, List.map_cons, ih (Nat.le_of_succ_le_succ h)]
      rfl

theorem scoreBatch_unscored {run : Inference} (h : cfg.scoreBatch ln ctx run cs = .ok scored) :
    scored.map (·.unscored) = cs.map (·.unscored) := by
  unfold MLScorerConfig.scoreBatch at h
  split at h
  · cases h
  · split_ifs at h with hlen
    cases h
    exact map_unscored_zipWith (not_lt.1 hlen)

theorem scoreChunks_unscored {infer : ℕ → Inference} {chunks : List (List AdCandidate)} {k : ℕ}
    (h : (cfg.scoreChunks ln infer ctx chunks k).1 = .ok scored) :
    scored.map (·.unscored) = chunks.flatten.map (·.unscored) := by
  induction chunks generalizing k scored with
  | nil =>
    cases h
    rfl
  | cons chunk chunks ih =>
    unfold MLScorerConfig.scoreChunks at h
    cases hbatch : cfg.scoreBatch ln ctx (infer k) chunk with
    | error e => simp [hbatch] at h
    | ok first =>
      simp only [hbatch] at h
      cases hrest : (cfg.scoreChunks ln infer ctx chunks (k + 1)).1 with
      | error e => simp [hrest, Except.map] at h
      | ok rest =>
        simp only [hrest, Except.map, Except.ok.injEq] at h
        subst h
        rw [List.map_append, List.flatten_cons, List.map_append, scoreBatch_unscored hbatch,
          ih hrest]

theorem scoreModel_unscored {infer : ℕ → Inference} {k : ℕ}
    (h : (cfg.scoreModel ln infer cs ctx k).1 = .ok scored) :
    scored.map (·.unscored) = cs.map (·.unscored) := by
  rw [scoreChunks_unscored h, Lib.flatten_chunks cfg.maxBatch_pos]

theorem resetScores_unscored (cs : List AdCandidate) :
    (resetScores cs).map (·.unscored) = cs.map (·.unscored) := by
  simp only [resetScores, List.map_map]
  rfl

theorem writeBackScores_unscored (batch cs : List AdCandidate) :
    (writeBackScores batch cs).map (·.unscored) = cs.map (·.unscored) := by
  rw [writeBackScores, List.map_map]
  apply List.map_congr_left
  intro c _
  simp only [Function.comp]
  split <;> rfl

theorem Scorer.scoreAll_unscored (scorer : Scorer) (ln : Ln) (infer : ℕ → Inference)
    (cs : List AdCandidate) (ctx : ScoringContext) (k : ℕ) :
    (scorer.scoreAll ln infer cs ctx k).1.map (·.unscored) = cs.map (·.unscored) := by
  induction scorer generalizing cs k with
  | featureWeighted s =>
    simp only [Scorer.scoreAll, FeatureWeightedScorer.scoreAll, List.map_map]
    rfl
  | ml cfg =>
    simp only [Scorer.scoreAll]
    cases hr : (cfg.scoreModel ln infer cs ctx k).1 with
    | ok scored => exact scoreModel_unscored hr
    | error e => exact resetScores_unscored cs
  | mlWithFallback cfg fallback ih =>
    simp only [Scorer.scoreAll]
    cases hr : (cfg.scoreModel ln infer cs ctx k).1 with
    | ok scored => exact scoreModel_unscored hr
    | error e => exact (ih _ _).trans (resetScores_unscored cs)
  | cascade stage1 stage2 topK threshold ih1 ih2 =>
    simp only [Scorer.scoreAll]
    split_ifs
    · rfl
    · exact ih1 cs k
    · exact (writeBackScores_unscored _ _).trans (ih1 cs k)
  | abTest control treatment share seed ihc iht =>
    simp only [Scorer.scoreAll]
    cases pickArm share seed ctx.userId with
    | Control => exact ihc cs k
    | Treatment => exact iht cs k

end Unscored

/-- The readings that the stages take of `bidder-core/src/clock.rs`. -/
structure Clock where
  hourOfDay : UInt8
  isWeekend : Bool

/-- What the stages read and change besides the pacer. -/
structure ProductionEnv (υ : Type) where
  /-- everything that is kept per user, and the breaker -/
  user : υ
  /-- the inferences that the scorer has made -/
  inferences : ℕ
  clock : Clock

/-- The dependencies as `main.rs` wires them. The segment source and the capper work on the
state kept per user, the scorer is one of those shipped. -/
structure Production (υ : Type) where
  catalog : CampaignCatalog
  /-- `segment_cache.get_or_fetch` -/
  segments : String → υ → Except String (List SegmentId) × υ
  /-- `FrequencyCapper::check` of the capper in use -/
  check : String → List AdCandidate → UInt8 → UInt8 → υ → FreqCapOutcome × υ
  scorer : Scorer
  ln : Ln
  infer : ℕ → Inference
  topK : ℕ
  heapOrder : List AdCandidate → List AdCandidate
  heapOrder_perm : ∀ l, (heapOrder l).Perm l
  noticeUrl : WinNoticeRequest → Option String
  exchangeId : String

def Production.deps {υ : Type} (P : Production υ) : Deps (ProductionEnv υ) where
  catalog := P.catalog
  segments := fun user env =>
    let r := P.segments user env.user
    (r.1, { env with user := r.2 })
  scoreAll := fun cs ctx env =>
    let r := P.scorer.scoreAll P.ln P.infer cs ctx env.inferences
    (r.1, { env with inferences := r.2 })
  scoreAll_subperm := by
    intro cs ctx env
    rw [Scorer.scoreAll_unscored]
  check := fun user cs deviceType hourOfDay env =>
    let r := P.check user cs deviceType hourOfDay env.user
    (r.1, { env with user := r.2 })
  hourOfDay := fun env => env.clock.hourOfDay
  isWeekend := fun env => env.clock.isWeekend
  topK := P.topK
  heapOrder := P.heapOrder
  heapOrder_perm := P.heapOrder_perm
  noticeUrl := P.noticeUrl
  exchangeId := P.exchangeId

section UserState

/-- What the segment source and the cappers of `main.rs` keep per user, with the breaker
that they share. -/
structure UserState where
  segmentCache : String → Option (List SegmentId)
  segmentKeys : String → Option Bytes
  capKeys : String → Option ℤ
  /-- the counters of the in-process capper and the breaker -/
  capper : InProcessFrequencyCapper.State

/-- How and when the Redis calls of one request end. -/
structure RedisWeather where
  cfg : BreakerConfig
  now : ℕ
  reply : RedisEnd
  duration : ℕ

namespace UserState

/-- `segments_for` with its breaker. -/
def segmentsFor (weather : RedisWeather) (userId : String) (u : UserState) :
    Except String (List SegmentId) × UserState :=
  let admitted := u.capper.breaker.allowRequest weather.cfg weather.now
  if admitted.1 = false then (.ok [], { u with capper := { u.capper with breaker := admitted.2 } })
  else
    let breaker := admitted.2.recordOutcome weather.cfg (weather.now + weather.duration)
      weather.reply.error weather.duration
    let u := { u with capper := { u.capper with breaker := breaker } }
    match weather.reply with
    | .answered => (decodeSegments userId (u.segmentKeys (segKey userId)), u)
    | _ => (.error "segment fetch failed", u)

/-- `get_or_fetch` of one request at a time: an `Ok` result is cached. -/
def getOrFetch (weather : RedisWeather) (userId : String) (u : UserState) :
    Except String (List SegmentId) × UserState :=
  match u.segmentCache userId with
  | some segments => (.ok segments, u)
  | none =>
    let r := u.segmentsFor weather userId
    match r.1 with
    | .ok segments =>
      (.ok segments,
        { r.2 with segmentCache := Function.update r.2.segmentCache userId (some segments) })
    | .error e => (.error e, r.2)

/-- `check` of the in-process capper over the Redis one. -/
def capCheck (weather : RedisWeather) (userId : String) (cs : List AdCandidate) (u : UserState) :
    FreqCapOutcome × UserState :=
  let r := InProcessFrequencyCapper.guardedCheck weather.cfg weather.now
    (RedisFrequencyCapper.guardedCheck weather.cfg weather.now weather.reply weather.duration
      u.capKeys) userId cs u.capper
  (r.1, { u with capper := r.2.1 })

end UserState

end UserState

end RTB
