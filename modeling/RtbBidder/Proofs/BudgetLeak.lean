import RtbBidder.Proofs.PipelineRun

/-! The budget after a no-bid. Budget pacing reserves for every candidate it
keeps; only ranking gives back, and only the winners' bids are answered, so the
two deadline checks after pacing can abandon reservations. -/

namespace RTB

variable {τ : Type}

/-- Some candidate bids more than nothing for a campaign with budget left. -/
def Reserves (p : LocalBudgetPacer) (css : List (List AdCandidate)) : Prop :=
  ∃ cs ∈ css, ∃ c ∈ cs, c.bidPriceCents ≠ 0 ∧ ∃ v, p.counters c.campaignId = some v ∧ ¬ v ≤ 0

/-- The pacer after pacing and ranking the candidates, and the winners. -/
def auction (imps : List Imp) (p : LocalBudgetPacer) (css : List (List AdCandidate)) :
    List ImpWinner × LocalBudgetPacer :=
  rankAll imps 0 (paceAll p css).2 (paceAll p css).1

/-- The deadline is first found missed at the check before ranking, with something
reserved, or at the check before the response is built, with something won. -/
def AbandonsReservations (d : Deps τ) (deadlineMs : ℕ) (elapsedMs : ℕ → ℕ) (req : BidRequest)
    (w : World τ) : Prop :=
  validationError req = none ∧ (∀ k < 7, elapsedMs k < deadlineMs) ∧
    (deadlineMs ≤ elapsedMs 7 ∧ Reserves w.pacer (pacedCandidates d req w) ∨
      elapsedMs 7 < deadlineMs ∧ deadlineMs ≤ elapsedMs 8 ∧
        ∃ x ∈ (auction req.imp w.pacer (pacedCandidates d req w)).1, x.bidPriceCents ≠ 0)

/-- If the run is a no-bid, every campaign's remaining budget is what it was. -/
def NoBidKeepsBudgets (w : World τ) (r : Except String Unit × BidContext × World τ) : Prop :=
  r.1 = .ok () → r.2.1.outcome.isNoBid = true →
    ∀ id, r.2.2.pacer.counters id = w.pacer.counters id

section Charges

variable {p : LocalBudgetPacer} {css : List (List AdCandidate)}

theorem pos_of_nonneg_of_ne_zero {x : Int32} (h : 0 ≤ x.toInt) (hx : x ≠ 0) : 0 < x.toInt :=
  h.lt_of_ne fun h0 => hx (Int32.toInt_inj.1 h0.symm)

theorem pacing_keeps_iff (hw : ∀ cs ∈ css, WellFormed cs) :
    (∀ id, (paceAll p css).2.counters id = p.counters id) ↔ ¬ Reserves p css := by
  have hd : ∀ cs ∈ css, Distinct cs := fun cs hcs => (hw cs hcs).1
  have hn : ∀ cs ∈ css, NonnegBids cs := fun cs hcs => (hw cs hcs).2
  refine ⟨?_, ?_⟩
  · rintro heq ⟨cs, hcs, c, hc, hne, v, hv, hpos⟩
    have hprice := pos_of_nonneg_of_ne_zero (hn cs hcs c hc) hne
    have hcharge := paceAll_reserves hd hn hcs hc hprice hv hpos
    exact (paceAll_charged hd hn).ne_of_pos (by simp [hv]) hcharge (heq _)
  · intro h id
    rw [(paceAll_quiet hd ?_).1]
    intro cs hcs c hc
    by_contra hcon
    push Not at hcon
    obtain ⟨hne, v, hv, hpos⟩ := hcon
    exact h ⟨cs, hcs, c, hc, hne, v, hv, hpos⟩

theorem auction_keeps_iff (imps : List Imp) (hw : ∀ cs ∈ css, WellFormed cs) :
    (∀ id, (auction imps p css).2.counters id = p.counters id) ↔
      ¬ ∃ x ∈ (auction imps p css).1, x.bidPriceCents ≠ 0 := by
  have hd : ∀ cs ∈ css, Distinct cs := fun cs hcs => (hw cs hcs).1
  have hn : ∀ cs ∈ css, NonnegBids cs := fun cs hcs => (hw cs hcs).2
  have hkept : ∀ cs ∈ (paceAll p css).1, WellFormed cs :=
    paceAll_forall (fun _ _ hs h => h.sublist hs) hw
  have hcharged := pace_rank_charged (p := p) imps hd hn
  refine ⟨?_, ?_⟩
  · rintro heq ⟨x, hx, hne⟩
    obtain ⟨cs, hcs, w, hmax, hid, hprice⟩ :=
      (mem_rankAll_winners imps 0 x.campaignId x.bidPriceCents).1 ⟨x, hx, rfl, rfl⟩
    have hmem := maxBy_mem hmax
    have hpos : 0 < wonOnAll w.campaignId (paceAll p css).1 := by
      have hle : wonOn w.campaignId cs ≤ wonOnAll w.campaignId (paceAll p css).1 := by
        apply List.single_le_sum _ _ (List.mem_map_of_mem hcs)
        intro y hy
        obtain ⟨l, hl, rfl⟩ := List.mem_map.1 hy
        exact wonOn_nonneg (hkept l hl).2 _
      rw [wonOn_of_max hmax, if_pos rfl, bidsOn_of_mem (hkept cs hcs).1 hmem] at hle
      exact (pos_of_nonneg_of_ne_zero ((hkept cs hcs).2 w hmem) (hprice ▸ hne)).trans_le hle
    exact hcharged.ne_of_pos (paceAll_kept hd hn hcs hmem) hpos (heq _)
  · intro h id
    apply hcharged.eq_of_zero
    apply List.sum_eq_zero
    intro y hy
    obtain ⟨cs, hcs, rfl⟩ := List.mem_map.1 hy
    cases hmax : maxBy rankCmp cs with
    | none => simp only [wonOn, hmax]
    | some w =>
      rw [wonOn_of_max hmax]
      split_ifs with hid
      · subst hid
        rw [bidsOn_of_mem (hkept cs hcs).1 (maxBy_mem hmax)]
        by_contra hne
        obtain ⟨x, hx, -, hprice⟩ := (mem_rankAll_winners imps 0 w.campaignId w.bidPriceCents).2
          ⟨cs, hcs, w, hmax, rfl, rfl⟩
        refine h ⟨x, hx, fun h0 => hne ?_⟩
        rw [← hprice, h0]
        rfl
      · rfl

end Charges

section Run

variable {d : Deps τ} {deadlineMs : ℕ} {elapsedMs : ℕ → ℕ} {req : BidRequest} {w : World τ}

/-- A run that ends before budget pacing leaves the pacer as it was. -/
theorem runPipeline_early
    (h : ¬ (validationError req = none ∧ ∀ k < 7, elapsedMs k < deadlineMs)) :
    (runPipeline d deadlineMs elapsedMs req w).2.2.pacer = w.pacer := by
  rw [runPipeline, productionStages]
  rcases le_or_gt deadlineMs (elapsedMs 0) with hlate | hstart
  · rw [Pipeline.execute_late _ _ hlate]
  rw [Pipeline.execute_ofBody _ _ _ hstart]
  cases hval : validationError req with
  | some reason =>
    have hv : requestValidation (BidContext.new req) w =
        ({ BidContext.new req with outcome := .NoBid reason }, w) := by
      simp only [requestValidation, BidContext.new, hval]
    rw [hv]
    rfl
  | none =>
    have hv : requestValidation (BidContext.new req) w = (BidContext.new req, w) := by
      simp only [requestValidation, BidContext.new, hval]
    rw [hv]
    apply execute_bodies_late (middleStages_neutral d) rfl _ (List.cons_ne_nil _ _)
    push Not at h
    obtain ⟨k, hk, hlate⟩ := h hval
    cases k with
    | zero => exact absurd hlate (not_le.2 hstart)
    | succ j => exact ⟨j, by simp only [middleStages, List.length_cons, List.length_nil]; omega,
        by rwa [show 0 + 1 + j = j + 1 by omega]⟩

/-- A valid request that meets the first seven checks reaches budget pacing. -/
theorem runPipeline_paces (hval : validationError req = none)
    (ht : ∀ k < 7, elapsedMs k < deadlineMs) :
    runPipeline d deadlineMs elapsedMs req w =
      Pipeline.execute deadlineMs elapsedMs
        [.ofBody "budget_pacing" budgetPacing, .ofBody "ranking" ranking,
          .ofBody "response_build" (responseBuild d)] 6
        (runBodies (middleStages d) (BidContext.new req) w).1
        (runBodies (middleStages d) (BidContext.new req) w).2 := by
  have hv : requestValidation (BidContext.new req) w = (BidContext.new req, w) := by
    simp only [requestValidation, BidContext.new, hval]
  rw [runPipeline, productionStages, Pipeline.execute_ofBody _ _ _ (ht 0 (by omega)), hv]
  apply execute_bodies (middleStages_neutral d) rfl
  intro j hj
  apply ht
  simp only [middleStages, List.length_cons, List.length_nil] at hj
  omega

/-- The outcome of budget pacing, from the candidates it keeps. -/
theorem budgetPacing_outcome (ctx : BidContext) (w : World τ) :
    (budgetPacing ctx w).1.outcome =
      if ∀ cs ∈ (paceAll w.pacer ctx.candidates).1, cs = [] then .NoBid .NO_ELIGIBLE_BIDS
      else ctx.outcome := by
  have hany : (paceAll w.pacer ctx.candidates).1.any (!·.isEmpty) = true ↔
      ¬ ∀ cs ∈ (paceAll w.pacer ctx.candidates).1, cs = [] := by simp
  simp only [budgetPacing, hany, ite_not]

/-- Ranking the candidates that pacing kept, if any, is a bid. -/
theorem ranking_outcome {ctx : BidContext} (w : World τ)
    (h : ¬ ∀ cs ∈ ctx.candidates, cs = []) : (ranking ctx w).1.outcome = .Bid := by
  have hwin : (rankAll ctx.request.imp 0 w.pacer ctx.candidates).1 ≠ [] :=
    fun hnil => h ((rankAll_winners _ _).1 hnil)
  simp [ranking, hwin]

theorem responseBuild_outcome {ctx : BidContext} (w : World τ) (h : ctx.outcome = .Bid) :
    (responseBuild d ctx w).1.outcome = .Bid := by
  cases ctx
  cases h
  rfl

/-- The three last stages, started on well-formed candidates and no decision. -/
theorem lastStages_keep_iff {ctx : BidContext} (hwf : ∀ cs ∈ ctx.candidates, WellFormed cs)
    (hout : ctx.outcome = .Pending) (ht : elapsedMs 6 < deadlineMs) :
    NoBidKeepsBudgets w (Pipeline.execute deadlineMs elapsedMs
        [.ofBody "budget_pacing" budgetPacing, .ofBody "ranking" ranking,
          .ofBody "response_build" (responseBuild d)] 6 ctx w) ↔
      ¬ (deadlineMs ≤ elapsedMs 7 ∧ Reserves w.pacer ctx.candidates ∨
        elapsedMs 7 < deadlineMs ∧ deadlineMs ≤ elapsedMs 8 ∧
          ∃ x ∈ (auction ctx.request.imp w.pacer ctx.candidates).1, x.bidPriceCents ≠ 0) := by
  rw [Pipeline.execute_ofBody _ _ _ ht, budgetPacing_outcome]
  by_cases hnone : ∀ cs ∈ (paceAll w.pacer ctx.candidates).1, cs = []
  · -- pacing itself ends the run: every campaign was exhausted
    have hkeep : ∀ id, (paceAll w.pacer ctx.candidates).2.counters id = w.pacer.counters id :=
      fun id => by rw [(paceAll_eq_nil (fun cs hcs => (hwf cs hcs).1) hnone).1]
    rw [if_pos hnone]
    refine iff_of_true (fun _ _ => hkeep) ?_
    rintro (⟨-, hres⟩ | ⟨-, -, x, hx, -⟩)
    · exact (pacing_keeps_iff hwf).1 hkeep hres
    · rw [auction, (rankAll_winners _ _).2 hnone] at hx
      cases hx
  rw [if_neg hnone, hout, if_neg (by simp [PipelineOutcome.isNoBid])]
  rcases le_or_gt deadlineMs (elapsedMs 7) with hlate | hrank
  · rw [Pipeline.execute_late _ _ hlate]
    simp only [hlate, not_lt.2 hlate, true_and, false_and, or_false, ← pacing_keeps_iff hwf]
    exact ⟨fun h => h rfl rfl, fun h _ _ => h⟩
  have hbid : (ranking (budgetPacing ctx w).1 (budgetPacing ctx w).2).1.outcome = .Bid :=
    ranking_outcome _ hnone
  rw [Pipeline.execute_ofBody _ _ _ hrank, hbid, if_neg (by simp [PipelineOutcome.isNoBid])]
  simp only [hrank, not_le.2 hrank, true_and, false_and, false_or]
  rcases le_or_gt deadlineMs (elapsedMs 8) with hlate | hbuild
  · rw [Pipeline.execute_late _ _ hlate]
    simp only [hlate, true_and, ← auction_keeps_iff _ hwf]
    exact ⟨fun h => h rfl rfl, fun h _ _ => h⟩
  · rw [Pipeline.execute_ofBody _ _ _ hbuild]
    refine iff_of_true ?_ fun h => absurd h.1 (not_le.2 hbuild)
    rw [responseBuild_outcome _ hbid, if_neg (by simp [PipelineOutcome.isNoBid])]
    intro _ hno
    simp only [Pipeline.execute, responseBuild_outcome _ hbid] at hno
    cases hno

end Run

/-- A no-bid gives every reservation back exactly when the deadline does not cut the
run off between budget pacing and the response. -/
theorem noBid_keeps_budgets_iff (d : Deps τ) (deadlineMs : ℕ) (elapsedMs : ℕ → ℕ)
    (req : BidRequest) (w : World τ) :
    NoBidKeepsBudgets w (runPipeline d deadlineMs elapsedMs req w) ↔
      ¬ AbandonsReservations d deadlineMs elapsedMs req w := by
  by_cases hreach : validationError req = none ∧ ∀ k < 7, elapsedMs k < deadlineMs
  · obtain ⟨hval, ht⟩ := hreach
    obtain ⟨hout, hreq, hpacer⟩ :=
      runBodies_neutral (middleStages_neutral d) (BidContext.new req) w
    have hlast := lastStages_keep_iff (d := d)
      (w := (runBodies (middleStages d) (BidContext.new req) w).2)
      (pacedCandidates_wellFormed d req w) hout (ht 6 (by omega))
    rw [NoBidKeepsBudgets, hpacer, hreq] at hlast
    rw [runPipeline_paces hval ht, NoBidKeepsBudgets, hlast]
    exact not_congr ⟨fun h => ⟨hval, ht, h⟩, fun h => h.2.2⟩
  · have hp := runPipeline_early (d := d) (w := w) hreach
    refine iff_of_true (fun _ _ id => by rw [hp]) ?_
    rintro ⟨hval, ht, -⟩
    exact hreach ⟨hval, ht⟩

/-- One campaign with a floor of 100 cents and one banner creative. -/
def oneCampaign : CampaignCatalog where
  campaigns := AList.singleton 7 ⟨7, 100, 150, 10, 10, by decide, by decide⟩
  creatives := AList.singleton 7 [⟨1, 7, .Banner⟩]
  segmentToCampaigns := ∅
  geoToCampaigns := ∅
  deviceToCampaigns := ∅
  formatToCampaigns := ∅
  daypartActiveNow := .empty
  allCampaigns := .ofList [7]
  deviceUnrestricted := .ofList [7]
  formatUnrestricted := .ofList [7]

/-- No user data, no capping and a scorer that leaves the scores at zero. -/
def bareDeps : Deps Unit where
  catalog := oneCampaign
  segments := fun _ _ => (.ok [], ())
  scoreAll := fun cs _ _ => (cs, ())
  scoreAll_subperm := fun _ _ _ => .refl _
  check := fun _ _ _ _ _ => (.Checked [], ())
  hourOfDay := fun _ => 0
  isWeekend := fun _ => false
  topK := 50
  heapOrder := id
  heapOrder_perm := fun _ => .refl _
  noticeUrl := fun _ => none
  exchangeId := "openrtb"

def bannerRequest : BidRequest := ⟨"r", [⟨"1", some (), none, none, none⟩], none, none, none⟩

/-- The run on 150 cents of budget whose deadline passes before stage `late`. -/
def lateRun (late : ℕ) : Except String Unit × BidContext × World Unit :=
  runPipeline bareDeps 50 (fun k => if k < late then 10 else 50) bannerRequest
    ⟨LocalBudgetPacer.new.reload [(7, 150)], ()⟩

/-- Stopped before ranking, or before the response is built, the run keeps 100 of the
campaign's 150 cents although it ends as a no-bid. -/
theorem deadline_after_pacing_leaks :
    ((lateRun 7).1 = .ok () ∧ (lateRun 7).2.1.outcome = .NoBid .PIPELINE_DEADLINE ∧
      (lateRun 7).2.2.pacer.counters 7 = some 50) ∧
    ((lateRun 8).1 = .ok () ∧ (lateRun 8).2.1.outcome = .NoBid .PIPELINE_DEADLINE ∧
      (lateRun 8).2.2.pacer.counters 7 = some 50) :=
  ⟨⟨rfl, by decide +kernel, by decide +kernel⟩, ⟨rfl, by decide +kernel, by decide +kernel⟩⟩

end RTB
