import RtbBidder.Proofs.AuctionOutcome
import RtbBidder.Proofs.ScorerOutput
import RtbBidder.Proofs.UserBlind

/-! From the scorer of the config to the bids of a response: what the scores that reach the
auction come from, and what that says about the winners. -/

namespace RTB

variable {τ : Type} {d : Deps τ} {req : BidRequest} {w : World τ} {i : ℕ} {cs : List AdCandidate}
  {x y : AdCandidate}

section Origins

theorem candidateRetrieval_segmentIds (ctx : BidContext) (w : World τ) :
    (candidateRetrieval ctx w).1.segmentIds = ctx.segmentIds := by
  unfold candidateRetrieval
  split
  · rfl
  · split_ifs <;> rfl

/-- The lists that scoring leaves are answers of the scorer, for the segments of the user. -/
theorem scored_of_scorer (h : (scored d req w).1.candidates[i]? = some cs) : cs = [] ∨
    ∃ cs₀ sctx env, sctx.segmentIds = segmentsOf d req w ∧ cs = (d.scoreAll cs₀ sctx env).1 := by
  generalize he : userEnrichment d (BidContext.new req) w = e
  have hsegs : (candidateRetrieval e.1 e.2).1.segmentIds = segmentsOf d req w := by
    rw [candidateRetrieval_segmentIds, segmentsOf, he]
  have hrun : (scored d req w).1 =
      (scoring d (candidateLimit d (candidateRetrieval e.1 e.2).1 (candidateRetrieval e.1 e.2).2).1
        (candidateLimit d (candidateRetrieval e.1 e.2).1 (candidateRetrieval e.1 e.2).2).2).1 := by
    subst he
    rfl
  rw [hrun, scoring, mapIdxState_getElem?] at h
  obtain ⟨cs₀, -, rfl⟩ := Option.map_eq_some_iff.1 h
  split_ifs with hempty
  · exact .inl (List.isEmpty_iff.1 hempty)
  · exact .inr ⟨cs₀, _, _, hsegs, rfl⟩

theorem survivors_subset (h : y ∈ survivors d req w i) :
    ∃ all, (scored d req w).1.candidates[i]? = some all ∧ ∀ c ∈ survivors d req w i, c ∈ all := by
  cases hpaced : (pacedCandidates d req w)[i]? with
  | none => simp [survivors, paceAll_getElem?, hpaced] at h
  | some kept =>
    obtain ⟨all, hall, hsub⟩ : ∃ all, (scored d req w).1.candidates[i]? = some all ∧
        kept.Sublist all := freqCap_subset d hpaced
    refine ⟨all, hall, fun c hc => hsub.subset ?_⟩
    rw [survivors, paceAll_getElem?, hpaced] at hc
    exact (paceImp_sublist _ _).subset hc

/-- The bids of the auction, each with the candidate that it is for. -/
theorem mem_auctionBids {bid : Bid} (h : bid ∈ auctionBids d req w) :
    ∃ i x, i < req.imp.length ∧ maxBy rankCmp (survivors d req w i) = some x ∧
      bid = bidOf d req (winnerOf req.imp i x) := by
  obtain ⟨i, hi, hbid⟩ := List.mem_filterMap.1 h
  obtain ⟨x, hx, rfl⟩ := Option.map_eq_some_iff.1 hbid
  exact ⟨i, x, List.mem_range.1 hi, hx, rfl⟩

end Origins

section Samples

/-- The rollout of the model over the sample catalog, with a user in the treatment arm and
a model that fails for the first impression. -/
def rolloutProduction : Production UserState :=
  { sampleProduction with scorer := rolloutScorer, infer := flakyModel }

def treatedRequest : BidRequest :=
  { sampleRequest with
    imp := [⟨"1", some (), none, none, none⟩, ⟨"2", some (), none, none, none⟩]
    user := some ⟨some "user-15", none⟩ }

def freshWorld : World (ProductionEnv UserState) :=
  ⟨LocalBudgetPacer.new.reload [(4, 1000), (9, 1000)], ⟨freshUsers, 0, ⟨12, false⟩⟩⟩

def treatedRun : BidContext :=
  (runPipeline rolloutProduction.deps 50 (fun _ => 10) treatedRequest freshWorld).2.1

/-- Two campaigns of the same overlap, both priced above the bound. -/
def pricedRows : CatalogRows :=
  { sampleRows with
    campaigns := [sampleCampaign 4 1200, sampleCampaign 14 1100]
    creatives := [⟨1, 4, "BANNER"⟩, ⟨2, 14, "BANNER"⟩]
    segIdx := [(11, [4, 14])]
    geoIdx := [("country", "US", [4, 14])]
    deviceIdx := []
    daypart := [4, 14] }

def weightedProduction : Production UserState :=
  { sampleProduction with catalog := build pricedRows, scorer := .featureWeighted .default }

def segmentedWorld : World (ProductionEnv UserState) :=
  ⟨LocalBudgetPacer.new.reload [(4, 5000), (14, 5000)],
    ⟨{ freshUsers with segmentCache := fun _ => some [11] }, 0, ⟨12, false⟩⟩⟩

def weightedRun : BidContext :=
  (runPipeline weightedProduction.deps 50 (fun _ => 10) treatedRequest segmentedWorld).2.1

/-- Both runs bid; in the second one the scores of the two campaigns are equal. -/
theorem sample_runs :
    (treatedRun.winners.map (·.campaignId) = [9, 9] ∧ treatedRun.outcome = .Bid) ∧
      weightedRun.winners.map (fun x => (x.impId, x.campaignId)) = [("1", 4), ("2", 4)] ∧
      ((survivors weightedProduction.deps treatedRequest segmentedWorld 0).map
        fun c => (c.campaignId, c.score)) =
          [(4, .fin (5368709 / 8388608)), (14, .fin (5368709 / 8388608))] ∧
      weightedRun.outcome = .Bid := by decide +kernel

end Samples

section Ranked

theorem not_beats_fin {q r : ℚ} (hx : x.score = .fin q) (hy : y.score = .fin r) :
    ¬ Beats y x ↔ r < q ∨ r = q ∧ y.bidPriceCents ≤ x.bidPriceCents := by
  have hnx : x.score ≠ .nan := by simp [hx]
  have hny : y.score ≠ .nan := by simp [hy]
  rw [beats_iff hnx hny, rankKey_lt, hx, hy, Lib.Binary.rank, Lib.Binary.rank, Int32.lt_iff_toInt_lt,
    Int32.le_iff_toInt_le]
  norm_cast
  rcases lt_trichotomy q r with h | rfl | h
  · simp [h, h.le, h.ne']
  · simp
  · simp [h, h.ne', h.not_gt]

/-- The candidate that `max_by` picks, where all scores are finite. -/
theorem maxBy_best_fin {q r : ℚ} (hmax : maxBy rankCmp cs = some x)
    (hfin : ∀ c ∈ cs, ∃ s, c.score = .fin s) (hx : x.score = .fin q) (hy : y ∈ cs)
    (hr : y.score = .fin r) : r < q ∨ r = q ∧ y.bidPriceCents ≤ x.bidPriceCents := by
  have hnan : ∀ c ∈ cs, c.score ≠ .nan := by
    intro c hc hscore
    obtain ⟨s, hs⟩ := hfin c hc
    cases hscore.symm.trans hs
  exact (not_beats_fin hx hr).1 (maxBy_best hmax hnan y hy)

variable {υ : Type} {P : Production υ} {w : World (ProductionEnv υ)} {host : ModelHost}
  {cfg : ScoringConfig}

/-- Prices come from the catalog, where none is negative. -/
theorem scored_priced {d : Deps τ} {w : World τ} (himp : req.imp ≠ [])
    (h : (scored d req w).1.candidates[i]? = some cs) : Priced cs := by
  intro c hc
  obtain ⟨imp, -, hret⟩ := scored_aligned himp i cs h c hc
  obtain ⟨-, campaign, hcampaign⟩ := mem_retrieve hret
  have hprice : c.bidPriceCents = campaign.bidFloorCents := hcampaign.price
  exact hprice ▸ campaign.bidFloorCents_nonneg

theorem survivors_unitScores (hroot : RootOf host cfg P.scorer) (hi : UnitAnswers P.infer)
    (himp : req.imp ≠ []) : UnitScores (survivors P.deps req w i) := by
  intro y hy
  obtain ⟨all, hall, hsub⟩ := survivors_subset hy
  have hpriced := scored_priced himp hall
  rcases scored_of_scorer hall with rfl | ⟨cs₀, sctx, env, -, rfl⟩
  · cases hsub y hy
  · -- scoring leaves the prices, so the list that was scored has them too
    have hpriced₀ : Priced cs₀ := hpriced.of_unscored
      (P.scorer.scoreAll_unscored P.ln P.infer cs₀ sctx env.inferences).symm
    exact Scorer.scoreAll_unitScores hroot.hasDefaults hi hpriced₀ y (hsub y hy)

/-- With any scorer that the config may ask for, every bid of a response carries a score
between 0 and 1, and its candidate has the greatest pair of score and price of those that
were left for the impression. -/
theorem built_bids_ranked (deadlineMs : ℕ) (elapsedMs : ℕ → ℕ)
    (hb : buildScorerRoot host cfg = .ok P.scorer) (hi : UnitAnswers P.infer)
    (hbid : (runPipeline P.deps deadlineMs elapsedMs req w).2.1.outcome = .Bid) :
    ∃ bids, (runPipeline P.deps deadlineMs elapsedMs req w).2.1.bidResponse =
        some ⟨req.id, [bids], some "USD", none⟩ ∧
      ∀ bid ∈ bids, ∃ i x q, x ∈ survivors P.deps req w i ∧
        bid = bidOf P.deps req (winnerOf req.imp i x) ∧ bid.extScore = .fin q ∧ 0 ≤ q ∧ q ≤ 1 ∧
        ∀ y ∈ survivors P.deps req w i, ∃ r, y.score = .fin r ∧ 0 ≤ r ∧
          (r < q ∨ r = q ∧ y.bidPriceCents ≤ x.bidPriceCents) := by
  obtain ⟨-, himp, -⟩ := runPipeline_of_bid hbid
  refine ⟨auctionBids P.deps req w, bidResponse_of_bid hbid, ?_⟩
  intro bid hmem
  obtain ⟨i, x, -, hmax, rfl⟩ := mem_auctionBids hmem
  have hunit : UnitScores (survivors P.deps req w i) :=
    survivors_unitScores (buildScorerRoot_eq_ok.1 hb) hi himp
  have hfin : ∀ y ∈ survivors P.deps req w i, ∃ r, y.score = .fin r ∧ 0 ≤ r ∧ r ≤ 1 :=
    fun y hy => (hunit y hy).exists_fin
  obtain ⟨q, hq, hq₀, hq₁⟩ := hfin x (maxBy_mem hmax)
  refine ⟨i, x, q, maxBy_mem hmax, rfl, hq, hq₀, hq₁, ?_⟩
  intro y hy
  obtain ⟨r, hr, hr₀, -⟩ := hfin y hy
  have hall : ∀ c ∈ survivors P.deps req w i, ∃ s, c.score = .fin s :=
    fun c hc => (hfin c hc).imp fun _ h => h.1
  exact ⟨r, hr, hr₀, maxBy_best_fin hmax hall hq hy hr⟩

theorem built_bids_ranked_rollout :
    treatedRun.winners.map (·.campaignId) = [9, 9] ∧
      ∃ bids, treatedRun.bidResponse = some ⟨"r", [bids], some "USD", none⟩ ∧
        ∀ bid ∈ bids, ∃ i x q, x ∈ survivors rolloutProduction.deps treatedRequest freshWorld i ∧
          bid = bidOf rolloutProduction.deps treatedRequest (winnerOf treatedRequest.imp i x) ∧
          bid.extScore = .fin q ∧ 0 ≤ q ∧ q ≤ 1 ∧
          ∀ y ∈ survivors rolloutProduction.deps treatedRequest freshWorld i,
            ∃ r, y.score = .fin r ∧ 0 ≤ r ∧
              (r < q ∨ r = q ∧ y.bidPriceCents ≤ x.bidPriceCents) := by
  obtain ⟨⟨hwinners, hbid⟩, -⟩ := sample_runs
  exact ⟨hwinners, built_bids_ranked 50 (fun _ => 10) (buildScorerRoot_eq_ok.2 rollout_rootOf)
    flakyModel_unitAnswers hbid⟩

end Ranked

section Weighted

open FeatureWeightedScorer (scoreValue overlapRatio)

variable {υ : Type} {P : Production υ} {w : World (ProductionEnv υ)} {host : ModelHost}
  {cfg : ScoringConfig}

theorem buildScorerRoot_featureWeighted {scorer : Scorer}
    (hb : buildScorerRoot host cfg = .ok scorer) (hk : cfg.kind = .FeatureWeighted) :
    scorer = .featureWeighted .default := by
  cases buildScorerRoot_eq_ok.1 hb with
  | arm h =>
    rw [hk] at h
    cases h with
    | leaf h =>
      cases h
      rfl
  | abTest hab => cases hk.symm.trans hab

/-- The candidates left for an impression were scored in one context. -/
theorem survivors_weighted (hs : P.scorer = .featureWeighted .default)
    (hx : x ∈ survivors P.deps req w i) :
    ∃ sctx : ScoringContext, sctx.segmentIds = segmentsOf P.deps req w ∧
      ∀ c ∈ survivors P.deps req w i,
        c.score = .fin (scoreValue c.bidPriceCents.toInt (overlapRatio sctx c)) := by
  obtain ⟨all, hall, hsub⟩ := survivors_subset hx
  rcases scored_of_scorer hall with rfl | ⟨cs₀, sctx, env, hsegs, rfl⟩
  · cases hsub x hx
  · refine ⟨sctx, hsegs, fun c hc => ?_⟩
    have hmem : c ∈ FeatureWeightedScorer.default.scoreAll cs₀ sctx := by
      have hscored := hsub c hc
      simpa only [Production.deps, hs, Scorer.scoreAll] using hscored
    obtain ⟨c₀, -, rfl⟩ := List.mem_map.1 hmem
    exact FeatureWeightedScorer.default_score sctx c₀

/-- With the feature-weighted scorer no bid is for a candidate that another one left for the
impression exceeds in price without being below it in overlap. Rounding and the bound of the
price may give both the same score, and then the price decides. -/
theorem weighted_winner_undominated (deadlineMs : ℕ) (elapsedMs : ℕ → ℕ)
    (hb : buildScorerRoot host cfg = .ok P.scorer) (hk : cfg.kind = .FeatureWeighted)
    (hbid : (runPipeline P.deps deadlineMs elapsedMs req w).2.1.outcome = .Bid) :
    ∃ bids, (runPipeline P.deps deadlineMs elapsedMs req w).2.1.bidResponse =
        some ⟨req.id, [bids], some "USD", none⟩ ∧
      ∀ bid ∈ bids, ∃ i x, x ∈ survivors P.deps req w i ∧
        bid = bidOf P.deps req (winnerOf req.imp i x) ∧
        ∀ y ∈ survivors P.deps req w i,
          segmentsOf P.deps req w = [] ∨ x.campaignId % 10 ≤ y.campaignId % 10 →
          y.bidPriceCents ≤ x.bidPriceCents := by
  refine ⟨auctionBids P.deps req w, bidResponse_of_bid hbid, ?_⟩
  intro bid hmem
  obtain ⟨i, x, -, hmax, rfl⟩ := mem_auctionBids hmem
  refine ⟨i, x, maxBy_mem hmax, rfl, ?_⟩
  intro y hy hoverlap
  obtain ⟨sctx, hsegs, hscore⟩ :=
    survivors_weighted (buildScorerRoot_featureWeighted hb hk) hy
  have hbest := maxBy_best_fin hmax (fun c hc => ⟨_, hscore c hc⟩) (hscore x (maxBy_mem hmax)) hy
    (hscore y hy)
  have hratio := FeatureWeightedScorer.overlapRatio_mono (hsegs ▸ hoverlap)
  by_contra hprice
  have hlt : x.bidPriceCents.toInt < y.bidPriceCents.toInt :=
    Int32.lt_iff_toInt_lt.1 (Int32.not_le.1 hprice)
  rcases hbest with hless | ⟨-, hle⟩
  · exact absurd hless (not_lt.2 (FeatureWeightedScorer.scoreValue_mono hlt.le hratio))
  · exact hprice hle

/-- The scores are equal, and the dearer campaign wins both impressions. -/
theorem weighted_winner_undominated_tie :
    weightedRun.winners.map (fun x => (x.impId, x.campaignId)) = [("1", 4), ("2", 4)] ∧
      ((survivors weightedProduction.deps treatedRequest segmentedWorld 0).map
        fun c => (c.campaignId, c.score)) =
          [(4, .fin (5368709 / 8388608)), (14, .fin (5368709 / 8388608))] ∧
      ∃ bids, weightedRun.bidResponse = some ⟨"r", [bids], some "USD", none⟩ ∧
        ∀ bid ∈ bids, ∃ i x,
          x ∈ survivors weightedProduction.deps treatedRequest segmentedWorld i ∧
          bid = bidOf weightedProduction.deps treatedRequest (winnerOf treatedRequest.imp i x) ∧
          ∀ y ∈ survivors weightedProduction.deps treatedRequest segmentedWorld i,
            segmentsOf weightedProduction.deps treatedRequest segmentedWorld = [] ∨
              x.campaignId % 10 ≤ y.campaignId % 10 →
            y.bidPriceCents ≤ x.bidPriceCents := by
  have hb : buildScorerRoot halfHost ⟨.FeatureWeighted, none, none, none⟩ =
      .ok weightedProduction.scorer := rfl
  obtain ⟨-, hwinners, hscores, hbid⟩ := sample_runs
  exact ⟨hwinners, hscores, weighted_winner_undominated 50 (fun _ => 10) hb rfl hbid⟩

end Weighted

end RTB
