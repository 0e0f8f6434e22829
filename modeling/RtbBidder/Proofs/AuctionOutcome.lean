import RtbBidder.Proofs.GoogleAdx

/-! What a run of the production pipeline ends with, for every schedule of its deadline
checks: the reason of a no-bid, or the response with the winner of each impression that has
candidates left. -/

namespace RTB

variable {τ : Type}

section Expected

/-- The bids for the impressions in order, one for each that capping and pacing leave
candidates for. -/
def auctionBids (d : Deps τ) (req : BidRequest) (w : World τ) : List Bid :=
  (List.range req.imp.length).filterMap fun i =>
    (maxBy rankCmp (survivors d req w i)).map fun x => bidOf d req (winnerOf req.imp i x)

/-- How a run is to end. The checks are numbered by their stages: 0 validation, 6 budget
pacing, 7 ranking, 8 response build. -/
def expectedOutcome (d : Deps τ) (deadlineMs : ℕ) (elapsedMs : ℕ → ℕ) (req : BidRequest)
    (w : World τ) : PipelineOutcome :=
  if deadlineMs ≤ elapsedMs 0 then .NoBid .PIPELINE_DEADLINE
  else
    match validationError req with
    | some reason => .NoBid reason
    | none =>
      if [1, 2, 3, 4, 5, 6].any fun k => deadlineMs ≤ elapsedMs k then .NoBid .PIPELINE_DEADLINE
      -- nothing to rank is found out by budget pacing, before the last two checks
      else if (auctionBids d req w).isEmpty then .NoBid .NO_ELIGIBLE_BIDS
      else if deadlineMs ≤ elapsedMs 7 ∨ deadlineMs ≤ elapsedMs 8 then .NoBid .PIPELINE_DEADLINE
      else .Bid

end Expected

section Winners

/-- Ranking takes the best candidate of each list that has one. -/
theorem rankAll_eq_filterMap (imps : List Imp) (k : ℕ) (p : LocalBudgetPacer)
    (css : List (List AdCandidate)) :
    (rankAll imps k p css).1 = (List.range css.length).filterMap fun i =>
      (maxBy rankCmp ((css[i]?).getD [])).map (winnerOf imps (k + i)) := by
  induction css generalizing k p with
  | nil => rfl
  | cons cs css ih =>
    have hshift : ∀ p, (rankAll imps (k + 1) p css).1 =
        ((List.range css.length).map Nat.succ).filterMap fun i =>
          (maxBy rankCmp (((cs :: css)[i]?).getD [])).map (winnerOf imps (k + i)) := by
      intro p
      rw [ih, List.filterMap_map]
      apply List.filterMap_congr
      intro i _
      simp only [Function.comp, Nat.succ_eq_add_one, List.getElem?_cons_succ]
      rw [show k + 1 + i = k + (i + 1) by omega]
    rw [List.length_cons, List.range_succ_eq_map, List.filterMap_cons]
    cases hw : maxBy rankCmp cs with
    | none => simp [rankAll, hw, hshift]
    | some x => simp [rankAll, hw, hshift]

variable {d : Deps τ} {req : BidRequest} {w : World τ}

/-- Pacing gets a list of candidates for each impression. -/
theorem length_pacedCandidates (himp : req.imp ≠ []) :
    (pacedCandidates d req w).length = req.imp.length := by
  have hlen := runBodies_listCount (middleStages_neutral d) (middleStages_listCount d)
    (BidContext.new req) w (by simp [BidContext.new])
  have hnew : (BidContext.new req).request = req := rfl
  rw [hnew, max_eq_left (List.length_pos_of_ne_nil himp)] at hlen
  exact hlen

theorem rankAll_auctionBids (himp : req.imp ≠ []) :
    (rankAll req.imp 0 (paceAll w.pacer (pacedCandidates d req w)).2
      (paceAll w.pacer (pacedCandidates d req w)).1).1.map (bidOf d req) = auctionBids d req w := by
  rw [rankAll_eq_filterMap, length_paceAll, length_pacedCandidates himp, List.map_filterMap, auctionBids]
  apply List.filterMap_congr
  intro i _
  rw [Option.map_map, zero_add]
  rfl

theorem auctionBids_eq_nil (himp : req.imp ≠ []) : auctionBids d req w = [] ↔
    (paceAll w.pacer (pacedCandidates d req w)).1.any (!·.isEmpty) = false := by
  rw [← rankAll_auctionBids himp, List.map_eq_nil_iff, rankAll_winners, List.any_eq_false]
  simp

end Winners

section Run

variable {d : Deps τ} {deadlineMs : ℕ} {elapsedMs : ℕ → ℕ} {req : BidRequest} {w : World τ}

/-- A missed check before one of the neutral stages or right after them ends the run. -/
theorem execute_bodies_deadline
    {bodies : List (String × (BidContext → World τ → BidContext × World τ))}
    {stages : List (Stage τ)} {ctx : BidContext} {k : ℕ} (hb : ∀ b ∈ bodies, Neutral b.2)
    (ho : ctx.outcome.isNoBid = false)
    (ht : ∃ j, j ≤ bodies.length ∧ deadlineMs ≤ elapsedMs (k + j)) (hs : stages ≠ []) :
    (Pipeline.execute deadlineMs elapsedMs (bodies.map (fun s => .ofBody s.1 s.2) ++ stages)
      k ctx w).2.1.outcome = .NoBid .PIPELINE_DEADLINE := by
  induction bodies generalizing k ctx w with
  | nil =>
    obtain ⟨j, hj, hlate⟩ := ht
    obtain rfl : j = 0 := by simpa using hj
    obtain ⟨stage, rest, rfl⟩ := List.exists_cons_of_ne_nil hs
    rw [List.map_nil, List.nil_append, Pipeline.execute_late _ _ (by simpa using hlate)]
  | cons b bodies ih =>
    obtain ⟨hb, hbs⟩ := List.forall_mem_cons.1 hb
    rw [List.map_cons, List.cons_append]
    rcases le_or_gt deadlineMs (elapsedMs k) with hlate | hearly
    · rw [Pipeline.execute_late _ _ hlate]
    · have ho' : (b.2 ctx w).1.outcome.isNoBid = false := (hb.outcome ctx w).symm ▸ ho
      rw [Pipeline.execute_ofBody _ _ _ hearly, if_neg (by simp [ho'])]
      apply ih hbs ho'
      obtain ⟨j, hj, hlate⟩ := ht
      cases j with
      | zero => exact absurd hlate (not_le.2 hearly)
      | succ j =>
        exact ⟨j, by simpa using hj, by rwa [show k + 1 + j = k + (j + 1) by omega]⟩

/-- What the stages before the auction hand to it. -/
structure Prepared (d : Deps τ) (req : BidRequest) (w : World τ) (c : BidContext × World τ) :
    Prop where
  outcome : c.1.outcome = .Pending
  request : c.1.request = req
  winners : c.1.winners = []
  pacer : c.2.pacer = w.pacer
  candidates : c.1.candidates = pacedCandidates d req w

theorem prepared_middleStages (d : Deps τ) (req : BidRequest) (w : World τ) :
    Prepared d req w (runBodies (middleStages d) (BidContext.new req) w) := by
  obtain ⟨hout, hreq, hpacer⟩ := runBodies_neutral (middleStages_neutral d) (BidContext.new req) w
  exact ⟨hout, hreq, runBodies_winners (middleStages_winners d) (BidContext.new req) w, hpacer, rfl⟩

theorem Prepared.ranked {c : BidContext × World τ} (h : Prepared d req w c) (himp : req.imp ≠ []) :
    (ranking (budgetPacing c.1 c.2).1 (budgetPacing c.1 c.2).2).1.winners.map (bidOf d req) =
      auctionBids d req w := by
  rw [← rankAll_auctionBids himp]
  simp only [ranking, budgetPacing, h.winners, h.request, h.pacer, h.candidates, List.nil_append]

theorem Prepared.paced_outcome {c : BidContext × World τ} (h : Prepared d req w c)
    (himp : req.imp ≠ []) : (budgetPacing c.1 c.2).1.outcome =
      if (auctionBids d req w).isEmpty then .NoBid .NO_ELIGIBLE_BIDS else .Pending := by
  have hempty := auctionBids_eq_nil (d := d) (w := w) himp
  rw [← List.isEmpty_iff] at hempty
  simp only [budgetPacing, h.outcome, h.pacer, h.candidates]
  cases hany : (paceAll w.pacer (pacedCandidates d req w)).1.any (!·.isEmpty) with
  | true =>
    rw [hany] at hempty
    rw [if_pos rfl, if_neg fun hnil => Bool.noConfusion (hempty.1 hnil)]
  | false => rw [if_neg Bool.false_ne_true, if_pos (hempty.2 hany)]

theorem Prepared.ranked_outcome {c : BidContext × World τ} (h : Prepared d req w c)
    (himp : req.imp ≠ []) (hsome : ¬ (auctionBids d req w).isEmpty) :
    (ranking (budgetPacing c.1 c.2).1 (budgetPacing c.1 c.2).2).1.outcome = .Bid := by
  have hwinners : (ranking (budgetPacing c.1 c.2).1 (budgetPacing c.1 c.2).2).1.winners ≠ [] := by
    intro hnil
    have hranked := h.ranked himp
    rw [hnil] at hranked
    exact hsome (by rw [← hranked]; rfl)
  exact if_neg fun hnil => hwinners (List.isEmpty_iff.1 hnil)

/-- The run after a valid request and checks met up to budget pacing. -/
theorem Prepared.execute {c : BidContext × World τ} (h : Prepared d req w c) (himp : req.imp ≠ [])
    (h6 : elapsedMs 6 < deadlineMs) :
    (Pipeline.execute deadlineMs elapsedMs ((auctionStages d).map fun s => .ofBody s.1 s.2)
      6 c.1 c.2).2.1.outcome =
      if (auctionBids d req w).isEmpty then .NoBid .NO_ELIGIBLE_BIDS
      else if deadlineMs ≤ elapsedMs 7 ∨ deadlineMs ≤ elapsedMs 8 then .NoBid .PIPELINE_DEADLINE
      else .Bid := by
  have hpaced := h.paced_outcome himp
  simp only [auctionStages, List.map_cons, List.map_nil]
  rw [Pipeline.execute_ofBody _ _ _ h6]
  by_cases hnone : (auctionBids d req w).isEmpty
  · rw [if_pos hnone] at hpaced ⊢
    rw [if_pos (by rw [hpaced]; rfl)]
    exact hpaced
  have hranked := h.ranked_outcome himp hnone
  rw [if_neg hnone] at hpaced ⊢
  rw [if_neg (by rw [hpaced]; decide)]
  rcases le_or_gt deadlineMs (elapsedMs 7) with h7 | h7
  · rw [Pipeline.execute_late _ _ h7, if_pos (.inl h7)]
  rw [Pipeline.execute_ofBody _ _ _ h7, if_neg (by rw [hranked]; decide)]
  rcases le_or_gt deadlineMs (elapsedMs 8) with h8 | h8
  · rw [Pipeline.execute_late _ _ h8, if_pos (.inr h8)]
  have hbuilt : ∀ w, (responseBuild d
      (ranking (budgetPacing c.1 c.2).1 (budgetPacing c.1 c.2).2).1 w).1.outcome = .Bid := by
    intro w
    simp [responseBuild, hranked]
  rw [Pipeline.execute_ofBody _ _ _ h8, if_neg (by rw [hbuilt]; decide),
    if_neg (not_or.2 ⟨not_le.2 h7, not_le.2 h8⟩)]
  exact hbuilt _

/-- A valid request whose first check is met goes through the stages before the auction. -/
theorem runPipeline_valid (hval : validationError req = none) (h0 : elapsedMs 0 < deadlineMs) :
    runPipeline d deadlineMs elapsedMs req w = Pipeline.execute deadlineMs elapsedMs
      ((middleStages d).map (fun s => .ofBody s.1 s.2) ++
        (auctionStages d).map fun s => .ofBody s.1 s.2) 1 (BidContext.new req) w := by
  have hv : requestValidation (BidContext.new req) w = (BidContext.new req, w) := by
    simp only [requestValidation, BidContext.new, hval]
  have hstages : productionStages d = .ofBody "request_validation" requestValidation ::
      ((middleStages d).map (fun s => .ofBody s.1 s.2) ++
        (auctionStages d).map fun s => .ofBody s.1 s.2) := rfl
  rw [runPipeline, hstages, Pipeline.execute_ofBody _ _ _ h0, hv]
  exact if_neg Bool.false_ne_true

theorem runPipeline_outcome (d : Deps τ) (deadlineMs : ℕ) (elapsedMs : ℕ → ℕ)
    (req : BidRequest) (w : World τ) :
    (runPipeline d deadlineMs elapsedMs req w).2.1.outcome =
      expectedOutcome d deadlineMs elapsedMs req w := by
  unfold expectedOutcome
  rcases le_or_gt deadlineMs (elapsedMs 0) with h0 | h0
  · rw [if_pos h0, runPipeline, productionStages, Pipeline.execute_late _ _ h0]
  rw [if_neg (not_le.2 h0)]
  cases hval : validationError req with
  | some reason =>
    have hv : requestValidation (BidContext.new req) w =
        ({ BidContext.new req with outcome := .NoBid reason }, w) := by
      simp only [requestValidation, BidContext.new, hval]
    rw [runPipeline, productionStages, Pipeline.execute_ofBody _ _ _ h0, hv]
    rfl
  | none =>
    have hpending : (BidContext.new req).outcome.isNoBid = false := rfl
    rw [runPipeline_valid hval h0]
    by_cases hlate : [1, 2, 3, 4, 5, 6].any fun k => deadlineMs ≤ elapsedMs k
    · simp only [hlate, if_true]
      apply execute_bodies_deadline (middleStages_neutral d) hpending _ (by simp [auctionStages])
      obtain ⟨k, hk, hle⟩ := List.any_eq_true.1 hlate
      have hrange : 1 ≤ k ∧ k ≤ 6 := by
        simp only [List.mem_cons, List.not_mem_nil, or_false] at hk
        omega
      refine ⟨k - 1, by simp only [middleStages, List.length_cons, List.length_nil]; omega, ?_⟩
      rw [Nat.add_sub_cancel' hrange.1]
      exact of_decide_eq_true hle
    · have hmet : ∀ k, 1 ≤ k → k ≤ 6 → elapsedMs k < deadlineMs := by
        intro k h1 h6
        by_contra hle
        refine hlate (List.any_eq_true.2 ⟨k, ?_, decide_eq_true (not_lt.1 hle)⟩)
        simp only [List.mem_cons, List.not_mem_nil, or_false]
        omega
      have hlen : (middleStages d).length = 5 := rfl
      simp only [hlate]
      rw [execute_bodies (middleStages_neutral d) hpending
        fun j hj => hmet (1 + j) (by omega) (by omega), hlen]
      exact (prepared_middleStages d req w).execute (imp_ne_nil_of_valid hval)
        (hmet 6 (by norm_num) le_rfl)

/-- The response of a run that ends in a bid. -/
theorem bidResponse_of_bid (hout : (runPipeline d deadlineMs elapsedMs req w).2.1.outcome = .Bid) :
    (runPipeline d deadlineMs elapsedMs req w).2.1.bidResponse =
      some ⟨req.id, [auctionBids d req w], some "USD", none⟩ := by
  obtain ⟨-, himp, -⟩ := runPipeline_of_bid hout
  obtain ⟨c, rfl, hreq, -, -, hrun⟩ := runPipeline_auction hout
  have hranked := (prepared_middleStages d req w).ranked himp
  rw [hrun] at hout ⊢
  rw [responseBuild_of_bid hout, bidResponse, ← hranked]
  simp only [ranking, budgetPacing, hreq]

/-- Every run of the production pipeline ends as expected, and one that ends in a bid
carries the bids of the auction. -/
theorem pipeline_outcome_exact (d : Deps τ) (deadlineMs : ℕ) (elapsedMs : ℕ → ℕ)
    (req : BidRequest) (w : World τ) :
    (runPipeline d deadlineMs elapsedMs req w).2.1.outcome =
        expectedOutcome d deadlineMs elapsedMs req w ∧
      (expectedOutcome d deadlineMs elapsedMs req w = .Bid →
        (runPipeline d deadlineMs elapsedMs req w).2.1.bidResponse =
          some ⟨req.id, [auctionBids d req w], some "USD", none⟩) := by
  have hout := runPipeline_outcome d deadlineMs elapsedMs req w
  exact ⟨hout, fun hbid => bidResponse_of_bid (hout.trans hbid)⟩

end Run

end RTB
