import RtbBidder.Spec.Scoring

/-! `score_all` of `CascadeScorer` and of `MLScorer` over any inner scorers, which the
trait lets reorder, drop and rescore. `Scorer.scoreAll` has the trees of the shipped ones. -/

namespace RTB

/-- `score_all` of a `dyn Scorer` with its state. -/
abbrev DynScorer (σ : Type) := List AdCandidate → ScoringContext → σ → List AdCandidate × σ

structure CascadeScorer (σ : Type) where
  stage1 : DynScorer σ
  stage2 : DynScorer σ
  topK : ℕ
  threshold : F32

namespace CascadeScorer

variable {σ : Type}

/-- What stage 2 is called with, given the candidates as stage 1 left them. -/
def stage2Batch (self : CascadeScorer σ) (cs : List AdCandidate) : List AdCandidate :=
  cs.filter fun c => (advanceKeys self.topK self.threshold cs).any (· = c.key)

def scoreAll (self : CascadeScorer σ) : DynScorer σ := fun cs ctx s =>
  if cs.isEmpty then (cs, s)
  else
    let r := self.stage1 cs ctx s
    if (advanceKeys self.topK self.threshold r.1).isEmpty then r
    else
      let out := self.stage2 (self.stage2Batch r.1) ctx r.2
      (writeBackScores out.1 r.1, out.2)

end CascadeScorer

namespace MLScorerConfig

theorem scoreBatch_length {cfg : MLScorerConfig} {ln : Ln} {ctx : ScoringContext} {run : Inference}
    {cs scored : List AdCandidate} (h : cfg.scoreBatch ln ctx run cs = .ok scored) :
    scored.length = cs.length := by
  unfold scoreBatch at h
  split at h
  · cases h
  · split_ifs at h with hlen
    obtain rfl := Except.ok.inj h
    rw [List.length_zipWith]
    omega

/-- After a failed chunk: wipe the scores and delegate the whole list. -/
def fallBack (fallback : Option (DynScorer ℕ)) (cs : List AdCandidate) (ctx : ScoringContext)
    (k : ℕ) : List AdCandidate × ℕ :=
  let cs := resetScores cs
  match fallback with
  | some scoreAll => scoreAll cs ctx k
  | none => (cs, k)

/-- The loop of `score_all` from index `start` on, after `k` inferences. The candidates
before `start` have their scores already. -/
def scoreAllFrom (cfg : MLScorerConfig) (ln : Ln) (infer : ℕ → Inference)
    (fallback : Option (DynScorer ℕ)) (ctx : ScoringContext) (start : ℕ) (cs : List AdCandidate)
    (k : ℕ) : List AdCandidate × ℕ :=
  if start < cs.length then
    let stop := min (start + cfg.maxBatch) cs.length
    match hb : cfg.scoreBatch ln ctx (infer k) ((cs.take stop).drop start) with
    | .error _ => fallBack fallback cs ctx (k + 1)
    | .ok scored =>
      cfg.scoreAllFrom ln infer fallback ctx stop (cs.take start ++ scored ++ cs.drop stop) (k + 1)
  else (cs, k)
termination_by cs.length - start
decreasing_by
  have hscored := scoreBatch_length hb
  have hmax := cfg.maxBatch_pos
  simp only [List.length_append, List.length_take, List.length_drop] at hscored ⊢
  omega

def scoreAll (cfg : MLScorerConfig) (ln : Ln) (infer : ℕ → Inference)
    (fallback : Option (DynScorer ℕ)) : DynScorer ℕ := fun cs ctx k =>
  cfg.scoreAllFrom ln infer fallback ctx 0 cs k

end MLScorerConfig

end RTB
