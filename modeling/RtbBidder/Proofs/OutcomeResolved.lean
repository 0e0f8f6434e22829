import RtbBidder.Proofs.BidSound
import RtbBidder.Spec.BidHandler

/-! The driver stops early only on a `NoBid`, so a run that returns `Ok` and bids has been
through the response stage at its end. -/

namespace RTB

variable {τ : Type} {d : Deps τ} {deadlineMs : ℕ} {elapsedMs : ℕ → ℕ}

namespace Pipeline

variable {stages : List (Stage τ)} {k : ℕ} {ctx : BidContext} {w : World τ}

/-- What holds of every `NoBid` context and after the last stage holds of every run that
returns `Ok`, whatever the other stages do. -/
theorem execute_last {Q : BidContext → Prop} {name : String}
    {body : BidContext → World τ → BidContext × World τ}
    (hnoBid : ∀ ctx : BidContext, ctx.outcome.isNoBid → Q ctx) (hlast : ∀ ctx w, Q (body ctx w).1)
    (hok : (execute deadlineMs elapsedMs (stages ++ [.ofBody name body]) k ctx w).1 = .ok ()) :
    Q (execute deadlineMs elapsedMs (stages ++ [.ofBody name body]) k ctx w).2.1 := by
  induction stages generalizing k ctx w with
  | nil =>
    rcases lt_or_ge (elapsedMs k) deadlineMs with hin | hlate
    · rw [List.nil_append, execute_ofBody name body [] hin]
      split_ifs
      · exact hlast ctx w
      · exact hlast ctx w
    · rw [List.nil_append, execute_late _ _ hlate]
      exact hnoBid _ rfl
  | cons stage stages ih =>
    rw [List.cons_append] at hok ⊢
    rcases lt_or_ge (elapsedMs k) deadlineMs with hin | hlate
    · unfold execute at hok ⊢
      simp only [if_neg (not_le.2 hin)] at hok ⊢
      cases hres : (stage.execute ctx w).1 with
      | error e => simp [hres] at hok
      | ok u =>
        simp only [hres] at hok ⊢
        split_ifs at hok ⊢ with hno
        · exact hnoBid _ hno
        · exact ih hok
    · rw [execute_late _ _ hlate]
      exact hnoBid _ rfl

/-- Stages that leave the request alone. -/
def KeepsRequest (stage : Stage τ) : Prop :=
  ∀ ctx w, (stage.execute ctx w).2.1.request = ctx.request

theorem execute_request (h : ∀ stage ∈ stages, KeepsRequest stage) :
    (execute deadlineMs elapsedMs stages k ctx w).2.1.request = ctx.request := by
  induction stages generalizing k ctx w with
  | nil => rfl
  | cons stage stages ih =>
    obtain ⟨hstage, hstages⟩ := List.forall_mem_cons.1 h
    unfold execute
    split_ifs
    · rfl
    · cases hres : (stage.execute ctx w).1 with
      | error e =>
        simp only [hres]
        exact hstage ctx w
      | ok u =>
        simp only [hres]
        split_ifs
        · exact hstage ctx w
        · exact (ih hstages).trans (hstage ctx w)

end Pipeline

/-- A bid carries the impression, campaign and creative of the winner. -/
structure BidMatches (b : Bid) (winner : ImpWinner) : Prop where
  impid : b.impid = winner.impId
  cid : b.cid = some (toString winner.campaignId)
  crid : b.crid = some (toString winner.creativeId)

/-- A response to the request with one seat, which bids for the winners in order. -/
def Answers (r : BidResponse) (req : BidRequest) (winners : List ImpWinner) : Prop :=
  r.id = req.id ∧ ∃ bids, r.seatbid = [bids] ∧ List.Forall₂ BidMatches bids winners

theorem bidResponse_answers (d : Deps τ) (ctx : BidContext) :
    Answers (bidResponse d ctx) ctx.request ctx.winners := by
  refine ⟨rfl, ctx.winners.map (bidOf d ctx.request), rfl, ?_⟩
  rw [List.forall₂_map_left_iff]
  exact List.forall₂_same.2 fun winner _ => ⟨rfl, rfl, rfl⟩

structure BidContext.Resolved (ctx : BidContext) : Prop where
  not_pending : ctx.outcome ≠ .Pending
  response : ctx.outcome = .Bid → ∃ r, ctx.bidResponse = some r ∧ Answers r ctx.request ctx.winners

theorem resolved_of_noBid {ctx : BidContext} (h : ctx.outcome.isNoBid) : ctx.Resolved := by
  constructor
  · intro hp
    simp [hp, PipelineOutcome.isNoBid] at h
  · intro hb
    simp [hb, PipelineOutcome.isNoBid] at h

theorem resolved_responseBuild (d : Deps τ) (ctx : BidContext) (w : World τ) :
    (responseBuild d ctx w).1.Resolved := by
  cases ho : ctx.outcome with
  | Pending => exact resolved_of_noBid (by simp [responseBuild, ho, PipelineOutcome.isNoBid])
  | NoBid reason => exact resolved_of_noBid (by simp [responseBuild, ho, PipelineOutcome.isNoBid])
  | Bid =>
    have hbuild : responseBuild d ctx w = ({ ctx with bidResponse := some (bidResponse d ctx) }, w) := by
      simp [responseBuild, ho]
    rw [hbuild]
    exact ⟨by simp [ho], fun _ => ⟨_, rfl, bidResponse_answers d ctx⟩⟩

theorem responseBuild_request (d : Deps τ) (ctx : BidContext) (w : World τ) :
    (responseBuild d ctx w).1.request = ctx.request := by
  cases ho : ctx.outcome <;> simp [responseBuild, ho]

theorem responseBuildArms_eq (d : Deps τ) (ctx : BidContext) (w : World τ) :
    responseBuildArms d ctx w = some (responseBuild d ctx w) := by
  cases ho : ctx.outcome <;> simp [responseBuildArms, responseBuild, ho]

/-- `ResponseBuildStage` -/
def responseBuildStage (d : Deps τ) : Stage τ := .ofBody "response_build" (responseBuild d)

theorem resolved_of_execute {stages : List (Stage τ)} {ctx : BidContext} {w : World τ}
    (hok : (Pipeline.execute deadlineMs elapsedMs (stages ++ [responseBuildStage d]) 0 ctx w).1 = .ok ()) :
    (Pipeline.execute deadlineMs elapsedMs (stages ++ [responseBuildStage d]) 0 ctx w).2.1.Resolved :=
  Pipeline.execute_last (fun _ => resolved_of_noBid) (resolved_responseBuild d) hok

/-- The handler answers a resolved context. -/
theorem replyTo_resolved (app : AppState τ) (timestampMs : Int64) {ctx : BidContext}
    (h : ctx.Resolved) :
    (replyTo app timestampMs ctx).1 ≠ .missingResponse ∧
      (replyTo app timestampMs ctx).1.status ≠ none := by
  unfold replyTo
  cases ho : ctx.outcome with
  | Pending => exact absurd ho h.not_pending
  | NoBid reason => simp [BidReply.status]
  | Bid =>
    obtain ⟨r, hr, -⟩ := h.response ho
    cases he : app.adapter.encodeResponse r with
    | error e => simp [hr, he, BidReply.status]
    | ok out => simp [hr, he, BidReply.status]

theorem bid_replies (app : AppState τ) {stages : List (Stage τ)}
    (hstages : app.stages = stages ++ [responseBuildStage d])
    (elapsedMs : ℕ → ℕ) (timestampMs : Int64) (body : Bytes) (w : World τ) :
    (bid app elapsedMs timestampMs body w).1.1 ≠ .missingResponse ∧
      (bid app elapsedMs timestampMs body w).1.1.status ≠ none := by
  unfold bid
  cases hd : app.adapter.decodeRequest body with
  | error e => simp [BidReply.status]
  | ok request =>
    simp only [hstages]
    split
    · simp [BidReply.status]
    · rename_i hok
      exact replyTo_resolved app timestampMs (resolved_of_execute hok)

/-- Over every list of stages that ends in the response stage: a run that returns `Ok`
resolves its outcome and answers the request when it bids, so neither `unreachable!` nor
the handler's branch for a missing response is reached. -/
theorem outcome_resolved (d : Deps τ) (deadlineMs : ℕ) (elapsedMs : ℕ → ℕ)
    (stages : List (Stage τ)) (ctx : BidContext) (w : World τ) :
    let r := Pipeline.execute deadlineMs elapsedMs (stages ++ [responseBuildStage d]) 0 ctx w
    (r.1 = .ok () → r.2.1.outcome ≠ .Pending ∧
      (r.2.1.outcome = .Bid → ∃ resp, r.2.1.bidResponse = some resp ∧
        Answers resp r.2.1.request r.2.1.winners ∧
        ((∀ stage ∈ stages, Pipeline.KeepsRequest stage) → resp.id = ctx.request.id))) ∧
    (∀ ctx w, responseBuildArms d ctx w ≠ none) ∧
    ∀ (app : AppState τ) timestampMs body, app.stages = stages ++ [responseBuildStage d] →
      (bid app elapsedMs timestampMs body w).1.1 ≠ .unreachable ∧
        (bid app elapsedMs timestampMs body w).1.1 ≠ .missingResponse := by
  intro r
  refine ⟨?_, ?_, ?_⟩
  · intro hok
    have hres : r.2.1.Resolved := resolved_of_execute hok
    refine ⟨hres.not_pending, ?_⟩
    intro hbid
    obtain ⟨resp, hresp, hans⟩ := hres.response hbid
    refine ⟨resp, hresp, hans, ?_⟩
    intro hkeep
    have hrequest : r.2.1.request = ctx.request := by
      apply Pipeline.execute_request
      simp only [List.forall_mem_append, List.forall_mem_singleton]
      exact ⟨hkeep, responseBuild_request d⟩
    rw [hans.1, hrequest]
  · intro ctx w
    simp [responseBuildArms_eq]
  · intro app timestampMs body hstages
    obtain ⟨hmissing, hstatus⟩ := bid_replies app hstages elapsedMs timestampMs body w
    refine ⟨?_, hmissing⟩
    intro hunreachable
    exact hstatus (by rw [hunreachable]; rfl)

/-- The production stages before the last one, on a request that gets a bid. -/
theorem outcome_resolved_sample :
    ∃ r, r = Pipeline.execute 50 (fun _ => 10)
        ((productionStages sampleDeps).dropLast ++ [responseBuildStage sampleDeps]) 0
        (.new userRequest) ⟨LocalBudgetPacer.new.reload [(4, 1000), (9, 1000)], ()⟩ ∧
      r.1 = .ok () ∧ r.2.1.outcome = .Bid ∧ r.2.1.winners.length = 1 ∧
      ∃ resp, r.2.1.bidResponse = some resp ∧ Answers resp userRequest r.2.1.winners := by
  obtain ⟨hrun, -, -⟩ := outcome_resolved sampleDeps 50 (fun _ => 10)
    (productionStages sampleDeps).dropLast (.new userRequest)
    ⟨LocalBudgetPacer.new.reload [(4, 1000), (9, 1000)], ()⟩
  obtain ⟨-, hresponse⟩ := hrun rfl
  have hbid : (runPipeline sampleDeps 50 (fun _ => 10) userRequest
      ⟨LocalBudgetPacer.new.reload [(4, 1000), (9, 1000)], ()⟩).2.1.outcome = .Bid := by
    decide +kernel
  obtain ⟨resp, hresp, hans, -⟩ := hresponse hbid
  exact ⟨_, rfl, rfl, hbid, by decide +kernel, resp, hresp, hans⟩

end RTB
