import RtbBidder.Proofs.BidSound
import RtbBidder.Spec.Production

/-! Two runs of the production pipeline on one request that names no user, or that the
privacy check refuses, agree whatever the state kept per user is. -/

namespace RTB

variable {υ : Type}

/-- On a request without a user id, the body acts in one way on the context, the pacer and
the inference count, and does not touch the state kept per user. -/
def Blind (body : BidContext → World (ProductionEnv υ) → BidContext × World (ProductionEnv υ)) :
    Prop :=
  ∀ ctx p k clock, ctx.request.userId = none → ∃ ctx' p' k', ctx'.request = ctx.request ∧
    ∀ u, body ctx ⟨p, ⟨u, k, clock⟩⟩ = (ctx', ⟨p', ⟨u, k', clock⟩⟩)

section Stages

/-- A body that reads and changes the context and the pacer only. -/
theorem Blind.of_pacer
    {body : BidContext → World (ProductionEnv υ) → BidContext × World (ProductionEnv υ)}
    (act : BidContext → LocalBudgetPacer → BidContext × LocalBudgetPacer)
    (hrequest : ∀ ctx p, (act ctx p).1.request = ctx.request)
    (hbody : ∀ ctx p env, ctx.request.userId = none →
      body ctx ⟨p, env⟩ = ((act ctx p).1, ⟨(act ctx p).2, env⟩)) : Blind body := by
  intro ctx p k clock hnone
  exact ⟨(act ctx p).1, (act ctx p).2, k, hrequest ctx p, fun u => hbody ctx p _ hnone⟩

theorem userEnrichment_blind (d : Deps (ProductionEnv υ)) : Blind (userEnrichment d) := by
  refine .of_pacer (fun ctx p => ({ ctx with catalog := some d.catalog }, p)) (fun _ _ => rfl) ?_
  intro ctx p env hnone
  simp only [userEnrichment, hnone]

theorem candidateRetrieval_blind : Blind (υ := υ) candidateRetrieval := by
  refine .of_pacer (fun ctx p => ((candidateRetrieval (τ := Unit) ctx ⟨p, ()⟩).1, p)) ?_ ?_
  · intro ctx p
    exact candidateRetrieval_neutral.request ctx _
  · intro ctx p env _
    unfold candidateRetrieval
    split
    · rfl
    · split_ifs <;> rfl

theorem candidateLimit_blind (d : Deps (ProductionEnv υ)) : Blind (candidateLimit d) :=
  .of_pacer (fun ctx p => ({ ctx with candidates := ctx.candidates.map fun cs =>
    if cs.length ≤ d.topK then cs else d.heapOrder (topCandidates d.topK cs) }, p))
    (fun _ _ => rfl) (fun _ _ _ _ => rfl)

/-- A loop over an environment in which each round acts in one way and leaves the state kept
per user alone. -/
theorem mapIdxState_blind {α β : Type}
    {f : ℕ → α → ProductionEnv υ → β × ProductionEnv υ} {clock : Clock}
    (hf : ∀ i a k, ∃ b k', ∀ u, f i a ⟨u, k, clock⟩ = (b, ⟨u, k', clock⟩)) (l : List α) (i k : ℕ) :
    ∃ bs k', ∀ u, mapIdxState f i l ⟨u, k, clock⟩ = (bs, ⟨u, k', clock⟩) := by
  induction l generalizing i k with
  | nil => exact ⟨[], k, fun _ => rfl⟩
  | cons a l ih =>
    obtain ⟨b, k', hb⟩ := hf i a k
    obtain ⟨bs, k'', hbs⟩ := ih (i + 1) k'
    refine ⟨b :: bs, k'', ?_⟩
    intro u
    simp only [mapIdxState, hb, hbs]

/-- The scoring context of an impression, for a reading of the clock. -/
def impContext (ctx : BidContext) (clock : Clock) (i : ℕ) : ScoringContext :=
  ⟨ctx.segmentIds, deviceType ctx.request, (ctx.request.imp[i]?).bind impAdFormat,
    clock.hourOfDay, clock.isWeekend, ctx.request.userId.getD "", false⟩

/-- One impression of the scoring stage. -/
def scoreImp (P : Production υ) (ctx : BidContext) (clock : Clock) (i : ℕ) (cs : List AdCandidate)
    (env : ProductionEnv υ) : List AdCandidate × ProductionEnv υ :=
  if cs.isEmpty then (cs, env) else P.deps.scoreAll cs (impContext ctx clock i) env

/-- The scorers read the clock and their own state besides their arguments. -/
theorem scoring_blind (P : Production υ) : Blind (scoring P.deps) := by
  intro ctx p k clock _
  have hround : ∀ i cs k, ∃ b k', ∀ u,
      scoreImp P ctx clock i cs ⟨u, k, clock⟩ = (b, ⟨u, k', clock⟩) := by
    intro i cs k
    by_cases hempty : cs.isEmpty
    · exact ⟨cs, k, fun _ => if_pos hempty⟩
    · let r := P.scorer.scoreAll P.ln P.infer cs (impContext ctx clock i) k
      exact ⟨r.1, r.2, fun _ => if_neg hempty⟩
  obtain ⟨bs, k', hloop⟩ := mapIdxState_blind hround ctx.candidates 0 k
  refine ⟨{ ctx with candidates := bs }, p, k', rfl, ?_⟩
  intro u
  exact congrArg (fun r => ({ ctx with candidates := r.1 }, World.mk p r.2)) (hloop u)

theorem freqCap_blind (d : Deps (ProductionEnv υ)) : Blind (freqCap d) := by
  refine .of_pacer (fun ctx p => (ctx, p)) (fun _ _ => rfl) ?_
  intro ctx p env hnone
  simp only [freqCap, hnone]

theorem budgetPacing_blind : Blind (υ := υ) budgetPacing :=
  .of_pacer (fun ctx p => ((budgetPacing (τ := Unit) ctx ⟨p, ()⟩).1, (paceAll p ctx.candidates).2))
    (fun _ _ => rfl) (fun _ _ _ _ => rfl)

theorem ranking_blind : Blind (υ := υ) ranking :=
  .of_pacer (fun ctx p => ((ranking (τ := Unit) ctx ⟨p, ()⟩).1,
    (rankAll ctx.request.imp 0 p ctx.candidates).2)) (fun _ _ => rfl) (fun _ _ _ _ => rfl)

theorem responseBuild_blind (d : Deps (ProductionEnv υ)) : Blind (responseBuild d) := by
  intro ctx p k clock _
  cases ho : ctx.outcome with
  | Pending =>
    exact ⟨{ ctx with outcome := .NoBid .NO_ELIGIBLE_BIDS,
                      bidResponse := some (.noBid ctx.request.id .NO_ELIGIBLE_BIDS) },
      p, k, rfl, fun u => by simp [responseBuild, ho]⟩
  | NoBid reason =>
    exact ⟨{ ctx with bidResponse := some (.noBid ctx.request.id reason) }, p, k, rfl,
      fun u => by simp [responseBuild, ho]⟩
  | Bid =>
    exact ⟨{ ctx with bidResponse := some (bidResponse d ctx) }, p, k, rfl,
      fun u => by simp [responseBuild, ho]⟩

theorem requestValidation_blind : Blind (υ := υ) requestValidation := by
  refine .of_pacer (fun ctx p => ((requestValidation (τ := Unit) ctx ⟨p, ()⟩).1, p)) ?_ ?_
  · intro ctx p
    unfold requestValidation
    split <;> rfl
  · intro ctx p env _
    unfold requestValidation
    split <;> rfl

/-- The nine stages. -/
def productionBodies (P : Production υ) :
    List (String × (BidContext → World (ProductionEnv υ) → BidContext × World (ProductionEnv υ))) :=
  ("request_validation", requestValidation) :: (middleStages P.deps ++ auctionStages P.deps)

theorem productionBodies_blind (P : Production υ) : ∀ b ∈ productionBodies P, Blind b.2 := by
  simp only [productionBodies, middleStages, auctionStages, List.cons_append, List.nil_append,
    List.forall_mem_cons]
  exact ⟨requestValidation_blind, userEnrichment_blind _, candidateRetrieval_blind,
    candidateLimit_blind _, scoring_blind P, freqCap_blind _, budgetPacing_blind, ranking_blind,
    responseBuild_blind _, by simp⟩

end Stages

section Run

variable {deadlineMs : ℕ} {elapsedMs : ℕ → ℕ}
  {bodies : List (String × (BidContext → World (ProductionEnv υ) → BidContext × World (ProductionEnv υ)))}

/-- A run over blind stages acts in one way, whatever the state kept per user. -/
theorem execute_blind (hb : ∀ b ∈ bodies, Blind b.2) (j k : ℕ) (ctx : BidContext)
    (p : LocalBudgetPacer) (clock : Clock) (hnone : ctx.request.userId = none) :
    ∃ ctx' p' k', ∀ u, Pipeline.execute deadlineMs elapsedMs (bodies.map fun s => .ofBody s.1 s.2) j
      ctx ⟨p, ⟨u, k, clock⟩⟩ = (.ok (), ctx', ⟨p', ⟨u, k', clock⟩⟩) := by
  induction bodies generalizing j k ctx p with
  | nil => exact ⟨ctx, p, k, fun _ => rfl⟩
  | cons b bodies ih =>
    obtain ⟨hb, hbs⟩ := List.forall_mem_cons.1 hb
    rcases le_or_gt deadlineMs (elapsedMs j) with hlate | hin
    · exact ⟨{ ctx with outcome := .NoBid .PIPELINE_DEADLINE }, p, k,
        fun u => Pipeline.execute_late _ _ hlate⟩
    · obtain ⟨ctx₁, p₁, k₁, hrequest, hbody⟩ := hb ctx p k clock hnone
      by_cases hno : ctx₁.outcome.isNoBid
      · refine ⟨ctx₁, p₁, k₁, ?_⟩
        intro u
        rw [List.map_cons, Pipeline.execute_ofBody _ _ _ hin, hbody u, if_pos hno]
      · obtain ⟨ctx₂, p₂, k₂, hrest⟩ := ih hbs (j + 1) k₁ ctx₁ p₁ (hrequest ▸ hnone)
        refine ⟨ctx₂, p₂, k₂, ?_⟩
        intro u
        rw [List.map_cons, Pipeline.execute_ofBody _ _ _ hin, hbody u, if_neg hno]
        exact hrest u

/-- A refused request ends in a `NoBid` of its own before anything is read. -/
theorem runPipeline_refused {τ : Type} (d : Deps τ) (deadlineMs : ℕ) (elapsedMs : ℕ → ℕ)
    {req : BidRequest} (h : validationError req ≠ none) :
    ∃ reason, ∀ w, runPipeline d deadlineMs elapsedMs req w =
      (.ok (), { BidContext.new req with outcome := .NoBid reason }, w) := by
  obtain ⟨reason, hreason⟩ := Option.ne_none_iff_exists'.1 h
  have hstages : productionStages d = .ofBody "request_validation" requestValidation ::
      (middleStages d ++ auctionStages d).map (fun s => .ofBody s.1 s.2) := rfl
  rcases le_or_gt deadlineMs (elapsedMs 0) with hlate | hin
  · exact ⟨.PIPELINE_DEADLINE, fun w => Pipeline.execute_late _ _ hlate⟩
  · refine ⟨reason, ?_⟩
    intro w
    have hbody : requestValidation (BidContext.new req) w =
        ({ BidContext.new req with outcome := .NoBid reason }, w) := by
      simp only [requestValidation, show (BidContext.new req).request = req from rfl, hreason]
    rw [runPipeline, hstages, Pipeline.execute_ofBody _ _ _ hin, hbody]
    rfl

/-- `regs.gdpr` is 1 and `user.ext.consent` is no non-empty string. -/
def BlockedByGdpr (req : BidRequest) : Prop :=
  req.regs.bind (·.gdpr) = some 1 ∧ hasConsent req = false

theorem validationError_of_blocked {req : BidRequest} (h : BlockedByGdpr req) :
    validationError req ≠ none := by
  unfold validationError
  split_ifs
  · simp
  · simp
  · simp
  · exact absurd h ‹_›

/-- A request that names no user, or that is blocked, is answered alike from any two states
of what is kept per user, and leaves that state as it is; a blocked one gets a `NoBid` and
leaves the pacer alone too. -/
theorem no_user_data (P : Production υ) (deadlineMs : ℕ) (elapsedMs : ℕ → ℕ) (req : BidRequest)
    (hreq : req.userId = none ∨ BlockedByGdpr req) (p : LocalBudgetPacer) (k : ℕ) (clock : Clock)
    (u₁ u₂ : υ) :
    let run (u : υ) := runPipeline P.deps deadlineMs elapsedMs req ⟨p, ⟨u, k, clock⟩⟩
    (run u₁).2.1.outcome = (run u₂).2.1.outcome ∧ (run u₁).2.1.winners = (run u₂).2.1.winners ∧
      (run u₁).2.1.bidResponse = (run u₂).2.1.bidResponse ∧
      (run u₁).2.2.env.user = u₁ ∧ (run u₂).2.2.env.user = u₂ ∧
      (BlockedByGdpr req → (run u₁).2.1.outcome.isNoBid ∧ (run u₁).2.2.pacer = p) := by
  intro run
  have hone : ∃ ctx' p' k', ∀ u, run u = (.ok (), ctx', ⟨p', ⟨u, k', clock⟩⟩) := by
    rcases hreq with hnone | hblocked
    · exact execute_blind (productionBodies_blind P) 0 k (BidContext.new req) p clock hnone
    · obtain ⟨reason, hrun⟩ := runPipeline_refused P.deps deadlineMs elapsedMs
        (validationError_of_blocked hblocked)
      exact ⟨_, p, k, fun u => hrun _⟩
  obtain ⟨ctx', p', k', hrun⟩ := hone
  refine ⟨by rw [hrun, hrun], by rw [hrun, hrun], by rw [hrun, hrun], by rw [hrun], by rw [hrun], ?_⟩
  intro hblocked
  obtain ⟨reason, hrefused⟩ := runPipeline_refused P.deps deadlineMs elapsedMs
    (validationError_of_blocked hblocked)
  have hu : run u₁ = _ := hrefused ⟨p, ⟨u₁, k, clock⟩⟩
  rw [hu]
  exact ⟨rfl, rfl⟩

/-- The sample catalog with a cascade of the linear scorer and a failing model, behind an
experiment, over the services of `main.rs`. -/
def sampleProduction : Production UserState where
  catalog := build sampleRows
  segments := UserState.getOrFetch ⟨.redis, 0, .answered, 1⟩
  check := fun userId cs _ _ => UserState.capCheck ⟨.redis, 0, .answered, 1⟩ userId cs
  scorer := .abTest (.featureWeighted .default)
    (.cascade (.featureWeighted .default)
      (.mlWithFallback ⟨64, 8, by decide, by decide⟩ (.featureWeighted .default)) 50 (.fin 0))
    (.ofRat (1 / 10)) "phase-6-rollout"
  ln := id
  infer := fun _ _ => .error "ONNX inference failed"
  topK := 50
  heapOrder := id
  heapOrder_perm := List.Perm.refl
  noticeUrl := fun _ => none
  exchangeId := "openrtb"

/-- Nothing cached or counted, the breaker closed. -/
def freshUsers : UserState := ⟨fun _ => none, fun _ => none, fun _ => none, ⟨.new, fun _ => none⟩⟩

/-- Every user, the empty id included, has segments cached and campaigns counted. -/
def knownUsers : UserState :=
  ⟨fun _ => some [11, 12], fun _ => some [7, 0, 0, 0], fun _ => some 10,
    ⟨.new, fun _ => some ((∅ : UserCapMap).insert 4 (10, 10))⟩⟩

/-- The run of the sample request, which names no user. -/
def anonymousRun (u : UserState) : BidContext :=
  (runPipeline sampleProduction.deps 50 (fun _ => 10) sampleRequest
    ⟨LocalBudgetPacer.new.reload [(4, 1000), (9, 1000)], ⟨u, 0, ⟨12, false⟩⟩⟩).2.1

theorem no_user_data_anonymous :
    sampleRequest.userId = none ∧ (anonymousRun freshUsers).outcome = .Bid ∧
      (anonymousRun freshUsers).winners.map (·.campaignId) = [9] ∧
      (anonymousRun freshUsers).outcome = (anonymousRun knownUsers).outcome ∧
      (anonymousRun freshUsers).winners = (anonymousRun knownUsers).winners ∧
      (anonymousRun freshUsers).bidResponse = (anonymousRun knownUsers).bidResponse := by
  have hnone : sampleRequest.userId = none := by decide
  obtain ⟨houtcome, hwinners, hresponse, -⟩ := no_user_data sampleProduction 50 (fun _ => 10)
    sampleRequest (.inl hnone) (LocalBudgetPacer.new.reload [(4, 1000), (9, 1000)]) 0 ⟨12, false⟩
    freshUsers knownUsers
  obtain ⟨hbid, hwon⟩ : (anonymousRun freshUsers).outcome = .Bid ∧
      (anonymousRun freshUsers).winners.map (·.campaignId) = [9] := by decide +kernel
  exact ⟨hnone, hbid, hwon, houtcome, hwinners, hresponse⟩

end Run

end RTB
