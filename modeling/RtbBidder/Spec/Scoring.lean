import RtbBidder.Lib.BinaryFloat
import RtbBidder.Lib.Blocks
import RtbBidder.Spec.Pipeline
import RtbBidder.Spec.WinNotice

/-! The scorers of `bidder-core/src/scoring`. They are nested as `Arc<dyn Scorer>` allows,
which covers the trees that `build_scorer_root` builds. Scores are `f32` values with the
rounding of each operation; the logarithm of the maths library and the inferences of the
ONNX sessions are parameters. -/

namespace RTB

section FeatureWeighted

structure FeatureWeightedScorer where
  weightPrice : F32
  weightSegmentOverlap : F32
  maxBidPriceCents : F32

/-- `Default` -/
def FeatureWeightedScorer.default : FeatureWeightedScorer where
  weightPrice := .ofRat (4 / 10)
  weightSegmentOverlap := .ofRat (6 / 10)
  maxBidPriceCents := .ofRat 1000

/-- `(campaign_id % 10) as f32 / 10.0` -/
def overlapOf (id : CampaignId) : F32 := (.ofRat (id % 10).toNat : F32).div (.ofRat 10)

def FeatureWeightedScorer.score (s : FeatureWeightedScorer) (ctx : ScoringContext)
    (c : AdCandidate) : F32 :=
  let normPrice := ((.ofRat c.bidPriceCents.toInt : F32).div s.maxBidPriceCents).min (.ofRat 1)
  let overlapRatio :=
    if 0 < ctx.segmentIds.length then (overlapOf c.campaignId).min (.ofRat 1) else .ofRat (1 / 2)
  (s.weightPrice.mul normPrice).add (s.weightSegmentOverlap.mul overlapRatio)

def FeatureWeightedScorer.scoreAll (s : FeatureWeightedScorer) (cs : List AdCandidate)
    (ctx : ScoringContext) : List AdCandidate :=
  cs.map fun c => { c with score := s.score ctx c }

end FeatureWeighted

section Features

/-- `f32::ln` of the maths library. -/
abbrev Ln := F32 → F32

/-- The feature row of `ScoringFeatures::extract` and `pack_into`, in its fixed order. -/
def featureRow (ln : Ln) (ctx : ScoringContext) (c : AdCandidate) : List F32 :=
  let flag (b : Bool) : F32 := .fin (if b then 1 else 0)
  let nSegments := ctx.segmentIds.length
  [((.ofRat c.bidPriceCents.toInt : F32).div (.ofRat 1000)).clamp (.fin 0) (.fin 1),
   if nSegments = 0 then .fin 0 else overlapOf c.campaignId,
   ln ((.ofRat nSegments : F32).add (.ofRat 1)),
   flag (ctx.deviceType = some .Desktop),
   flag (ctx.deviceType = some .Mobile),
   flag (ctx.deviceType = some .Tablet),
   flag (ctx.deviceType = some .Ctv),
   (.ofRat (min ctx.hourOfDay 23).toNat : F32).div (.ofRat 23),
   flag ctx.isWeekend,
   flag ctx.isTopMarket,
   flag (ctx.adFormat = some .Banner),
   flag (ctx.adFormat = some .Video),
   flag (ctx.adFormat = some .Native)]

def FEATURE_COUNT : ℕ := 13

end Features

section ML

/-- What `validate` has checked of `MLScorerConfig`. -/
structure MLScorerConfig where
  maxBatch : ℕ
  batchPadTo : ℕ
  maxBatch_pos : 0 < maxBatch
  batchPadTo_pos : 0 < batchPadTo

/-- A session's answer to the rows of a batch. -/
abbrev Inference := List (List F32) → Except String (List F32)

namespace MLScorerConfig

/-- The input tensor: a row for each candidate, padded with rows of zeros. -/
def input (cfg : MLScorerConfig) (ln : Ln) (ctx : ScoringContext) (cs : List AdCandidate) :
    List (List F32) :=
  let paddedN := (cs.length + cfg.batchPadTo - 1) / cfg.batchPadTo * cfg.batchPadTo
  cs.map (featureRow ln ctx) ++
    List.replicate (paddedN - cs.length) (List.replicate FEATURE_COUNT (.fin 0))

def scoreBatch (cfg : MLScorerConfig) (ln : Ln) (ctx : ScoringContext) (run : Inference)
    (cs : List AdCandidate) : Except String (List AdCandidate) :=
  match run (cfg.input ln ctx cs) with
  | .error e => .error e
  | .ok data =>
    if data.length < cs.length then
      .error ("ONNX output has " ++ toString data.length ++ " elements but expected at least "
        ++ toString cs.length)
    else .ok (cs.zipWith (fun c score => { c with score := score }) data)

/-- The loop of `score_all` over the chunks that are left; `infer k` is the `k`-th inference,
with the snapshot that is current then. -/
def scoreChunks (cfg : MLScorerConfig) (ln : Ln) (infer : ℕ → Inference) (ctx : ScoringContext) :
    List (List AdCandidate) → ℕ → Except String (List AdCandidate) × ℕ
  | [], k => (.ok [], k)
  | chunk :: chunks, k =>
    match cfg.scoreBatch ln ctx (infer k) chunk with
    | .error e => (.error e, k + 1)
    | .ok scored =>
      let rest := cfg.scoreChunks ln infer ctx chunks (k + 1)
      (rest.1.map (scored ++ ·), rest.2)

/-- All chunks of the list, or the error of one. -/
def scoreModel (cfg : MLScorerConfig) (ln : Ln) (infer : ℕ → Inference) (cs : List AdCandidate)
    (ctx : ScoringContext) (k : ℕ) : Except String (List AdCandidate) × ℕ :=
  cfg.scoreChunks ln infer ctx (Lib.chunks cfg.maxBatch cs) k

end MLScorerConfig

/-- Wipe the scores, as after a failed chunk. -/
def resetScores (cs : List AdCandidate) : List AdCandidate :=
  cs.map fun c => { c with score := .fin 0 }

end ML

section AbTest

inductive Arm
  | Control
  | Treatment
  deriving DecidableEq, Repr

def FNV_OFFSET : UInt64 := 0xcbf29ce484222325

def FNV_PRIME : UInt64 := 0x100000001b3

def fnvStep (h : UInt64) (b : UInt8) : UInt64 := (h ^^^ b.toUInt64) * FNV_PRIME

def fnv1a (seed userId : String) : UInt64 :=
  (asBytes userId).foldl fnvStep (fnvStep ((asBytes seed).foldl fnvStep FNV_OFFSET) 124)

def pickArm (treatmentShare : F32) (hashSeed userId : String) : Arm :=
  if userId = "" ∨ (.fin 0 : F32).ge treatmentShare then .Control
  else if treatmentShare.ge (.ofRat 1) then .Treatment
  else
    let bucket := (.ofRat (fnv1a hashSeed userId % 10000).toNat : F32).div (.ofRat 10000)
    if bucket.partialCmp treatmentShare = some .lt then .Treatment else .Control

end AbTest

section Cascade

def AdCandidate.key (c : AdCandidate) : CampaignId × CreativeId := (c.campaignId, c.creativeId)

/-- The keys that advance to stage 2, best stage-1 scores first. -/
def advanceKeys (topK : ℕ) (threshold : F32) (cs : List AdCandidate) :
    List (CampaignId × CreativeId) :=
  let indexed := (cs.map fun c => (c.key, c.score)).insertionSort fun a b =>
    (b.2.partialCmp a.2).getD .eq ≠ .gt
  let keys := (indexed.filter fun p => p.2.ge threshold).map Prod.fst
  if 0 < topK ∧ topK < keys.length then keys.take topK else keys

/-- Match the stage-2 scores back; of several entries of a key the last one counts. -/
def writeBackScores (batch cs : List AdCandidate) : List AdCandidate :=
  cs.map fun c =>
    match batch.reverse.find? (·.key = c.key) with
    | some b => { c with score := b.score }
    | none => c

end Cascade

inductive Scorer
  | featureWeighted (s : FeatureWeightedScorer)
  | ml (cfg : MLScorerConfig)
  | mlWithFallback (cfg : MLScorerConfig) (fallback : Scorer)
  | cascade (stage1 stage2 : Scorer) (topK : ℕ) (threshold : F32)
  | abTest (control treatment : Scorer) (treatmentShare : F32) (hashSeed : String)

/-- `score_all`, after `k` inferences; the number of inferences made is part of the result. -/
def Scorer.scoreAll (ln : Ln) (infer : ℕ → Inference) :
    Scorer → List AdCandidate → ScoringContext → ℕ → List AdCandidate × ℕ
  | .featureWeighted s, cs, ctx, k => (s.scoreAll cs ctx, k)
  | .ml cfg, cs, ctx, k =>
    let r := cfg.scoreModel ln infer cs ctx k
    match r.1 with
    | .ok scored => (scored, r.2)
    | .error _ => (resetScores cs, r.2)
  | .mlWithFallback cfg fallback, cs, ctx, k =>
    let r := cfg.scoreModel ln infer cs ctx k
    match r.1 with
    | .ok scored => (scored, r.2)
    | .error _ => fallback.scoreAll ln infer (resetScores cs) ctx r.2
  | .cascade stage1 stage2 topK threshold, cs, ctx, k =>
    if cs.isEmpty then (cs, k)
    else
      let r := stage1.scoreAll ln infer cs ctx k
      let keys := advanceKeys topK threshold r.1
      if keys.isEmpty then r
      else
        let out := stage2.scoreAll ln infer (r.1.filter (·.key ∈ keys)) ctx r.2
        (writeBackScores out.1 r.1, out.2)
  | .abTest control treatment treatmentShare hashSeed, cs, ctx, k =>
    match pickArm treatmentShare hashSeed ctx.userId with
    | .Control => control.scoreAll ln infer cs ctx k
    | .Treatment => treatment.scoreAll ln infer cs ctx k

end RTB
