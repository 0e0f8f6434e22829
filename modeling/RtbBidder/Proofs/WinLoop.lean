import RtbBidder.Proofs.GoogleAdx
import RtbBidder.Proofs.NoticeRoundTrip
import RtbBidder.Proofs.OutcomeResolved
import RtbBidder.Proofs.WinDedup
import RtbBidder.Proofs.WinOnce
import RtbBidder.Spec.BidHandler

/-! From a bid to its win: the `nurl` of every bid in a response leads the `win` handler to
the event that matches the one published with the bid, and to the impression of the user
that the request came from. -/

namespace RTB

open Lib.Form

section Notice

variable {h : Hmac} {svc : WinNoticeGateService}

/-- What the `win` handler reads from the `nurl` built for `req`. -/
def noticeRead (h : Hmac) (svc : WinNoticeGateService) (req : WinNoticeRequest) : WinParams where
  requestId := req.requestId
  impId := req.impId
  campaignId := req.campaignId
  creativeId := req.creativeId
  clearingPriceMicros := req.clearingPriceMicros
  userId := some req.userId
  token := noticeToken h svc req
  exchangeId := if req.exchangeId = "" then none else some req.exchangeId

theorem winParams_build (h : Hmac) (svc : WinNoticeGateService) (lossy : Bytes → String)
    {base : String} (hbase : base ≠ "") (hmark : '?' ∉ base.toList)
    (hfragment : '#' ∉ base.toList) (req : WinNoticeRequest) :
    ∃ url query, svc.build h base req = some url ∧ queryOf url.toList = some query ∧
      winParams lossy query = some (noticeRead h svc req) := by
  have hencodes := noticeParams_encodes h svc req
  obtain ⟨url, hbuild, hchars⟩ := build_toList h svc req hbase
  refine ⟨url, noticeQuery h svc req, hbuild, ?_, winParams_of_pairs ?_⟩
  · rw [hchars]
    exact queryOf_append hmark hfragment (notMem_serialize hencodes)
  · exact textPairs_serialize lossy (by simp [noticeParams]) hencodes

theorem noticeRead_authenticates (htotal : ∀ key msg, (h.mac key msg).isSome)
    (req : WinNoticeRequest) : svc.authenticates h (noticeRead h svc req) = true := by
  have hexchange : (noticeRead h svc req).exchangeId.getD "" = req.exchangeId := by
    simp only [noticeRead]
    split_ifs with hex <;> simp [hex]
  rw [WinNoticeGateService.authenticates, hexchange]
  exact verifyToken_of_sign htotal _ _

end Notice

section Win

variable {h : Hmac} {svc : WinNoticeGateService} {s s' : WinSystem} {n : WinParams}

/-- The steps of a notice by itself, as handler `i`. -/
def WinSystem.noticeSteps (i : ℕ) (n : WinParams) : List WinStep :=
  [.receive n, .authenticate i, .serve i, .reply i .ok, .record i, .publish i]

/-- The notice has been accepted: its impression was handed to the recorder and its event
was published, once each, and for the rest of the TTL it is a duplicate. -/
structure TakesEffect (h : Hmac) (svc : WinNoticeGateService) (n : WinParams) (s s' : WinSystem) :
    Prop where
  handlers : s'.handlers = s.handlers ++ [⟨n, .returned .Accept, [s.now], [.ok],
    (n.impression s.now).toList, [n.winEvent s.now]⟩]
  recorder : s'.recorder = (n.impression s.now).elim s.recorder fun event =>
    (s.recorder.trySend ⟨s.handlers.length, event⟩).2
  duplicate : ∀ t, s.now ≤ t → t < s.now + svc.ttlMs → svc.check h n t s'.dedup = (.Duplicate, s'.dedup)

/-- A state in which the last handler is `w`. -/
def WinSystem.withLast (s : WinSystem) (w : WinHandler) : WinSystem :=
  { s with handlers := s.handlers ++ [w] }

theorem WinSystem.getElem?_withLast (s : WinSystem) (w : WinHandler) :
    (s.withLast w).handlers[s.handlers.length]? = some w := by
  simp [withLast]

theorem WinSystem.setHandler_withLast (s : WinSystem) (w w' : WinHandler) :
    (s.withLast w).setHandler s.handlers.length w' = s.withLast w' := by
  simp [withLast, setHandler]

theorem WinSystem.record_withLast (s : WinSystem) (w : WinHandler) :
    (s.withLast w).record s.handlers.length w =
      ({ s with recorder := (w.params.impression s.now).elim s.recorder fun event =>
          (s.recorder.trySend ⟨s.handlers.length, event⟩).2 }).withLast { w with
        phase := .recorded
        recordCalls := w.recordCalls ++ (w.params.impression s.now).toList } := by
  have hnow : (s.withLast w).now = s.now := rfl
  rw [record, hnow]
  cases w.params.impression s.now <;> simp [setHandler, withLast]

theorem notice_takes_effect (hauth : svc.authenticates h n = true) (httl : 0 < svc.ttl)
    (hfree : s.dedup.live s.now (WinNoticeGateService.dedupKey n.requestId n.impId) = none) :
    ∃ s', Lib.exec (WinSystem.step h svc) s (WinSystem.noticeSteps s.handlers.length n) = some s' ∧
      TakesEffect h svc n s s' := by
  set i := s.handlers.length with hi
  have hserve : svc.serveSet s.dedup s.now (WinNoticeGateService.dedupKey n.requestId n.impId) =
      (.ok, s.dedup.put (WinNoticeGateService.dedupKey n.requestId n.impId) ()
        (s.now + svc.ttlMs)) := by
    simp only [WinNoticeGateService.serveSet, Int64.not_le.2 httl, if_false,
      Lib.Keyspace.setNx_of_not_live hfree, if_true]
  -- the handler waits for the `SET`
  have hwaiting : WinSystem.step h svc (s.withLast (.new n)) (.authenticate i) =
      some (s.withLast ⟨n, .waiting, [], [], [], []⟩) := by
    rw [WinSystem.step_authenticate (s.getElem?_withLast _) rfl, s.setHandler_withLast]
    simp [WinHandler.new, hauth]
  set s₁ : WinSystem := { s with
    dedup := s.dedup.put (WinNoticeGateService.dedupKey n.requestId n.impId) ()
      (s.now + svc.ttlMs) }
  have hserved : WinSystem.step h svc (s.withLast ⟨n, .waiting, [], [], [], []⟩) (.serve i) =
      some (s₁.withLast ⟨n, .waiting, [s.now], [.ok], [], []⟩) := by
    rw [WinSystem.step_serve (s.getElem?_withLast _) rfl, WinSystem.serve, s.setHandler_withLast]
    simp [WinSystem.served, WinHandler.key, WinSystem.withLast, hserve, s₁]
  have hreplied : WinSystem.step h svc (s₁.withLast ⟨n, .waiting, [s.now], [.ok], [], []⟩)
      (.reply i .ok) = some (s₁.withLast ⟨n, .accepted, [s.now], [.ok], [], []⟩) := by
    rw [WinSystem.step_reply (s₁.getElem?_withLast _) rfl (by simp)]
    exact congrArg some (s₁.setHandler_withLast _ _)
  -- both side effects, in the handler's order
  set s₂ : WinSystem := { s₁ with recorder := (n.impression s.now).elim s.recorder fun event =>
    (s.recorder.trySend ⟨i, event⟩).2 }
  have hrecorded : WinSystem.step h svc (s₁.withLast ⟨n, .accepted, [s.now], [.ok], [], []⟩)
      (.record i) =
        some (s₂.withLast ⟨n, .recorded, [s.now], [.ok], (n.impression s.now).toList, []⟩) := by
    rw [WinSystem.step, WinSystem.handlerIn_eq_some.2 ⟨s₁.getElem?_withLast _, rfl⟩,
      Option.map_some]
    exact congrArg some (s₁.record_withLast _)
  have hpublished : WinSystem.step h svc
      (s₂.withLast ⟨n, .recorded, [s.now], [.ok], (n.impression s.now).toList, []⟩) (.publish i) =
        some (s₂.withLast ⟨n, .returned .Accept, [s.now], [.ok], (n.impression s.now).toList,
          [n.winEvent s.now]⟩) := by
    rw [WinSystem.step, WinSystem.handlerIn_eq_some.2 ⟨s₂.getElem?_withLast _, rfl⟩,
      Option.map_some, WinSystem.publish]
    exact congrArg some (s₂.setHandler_withLast _ _)
  refine ⟨_, Lib.exec_cons rfl (Lib.exec_cons hwaiting (Lib.exec_cons hserved
    (Lib.exec_cons hreplied (Lib.exec_cons hrecorded (Lib.exec_cons hpublished rfl))))), rfl, rfl, ?_⟩
  intro t hlo hhi
  apply WinNoticeGateService.check_of_live hauth httl (e := ((), s.now + svc.ttlMs))
  simp [WinSystem.withLast, s₁, s₂, Lib.Keyspace.live_put, hhi]

end Win

section Bid

variable {τ : Type} {h : Hmac} {svc : WinNoticeGateService} {lossy : Bytes → String}

/-- The win event that answers a bid event. -/
def BidEvent.won (e : BidEvent) (now : ℕ) : WinEvent :=
  ⟨e.requestId, e.impId, e.campaignId, e.creativeId, e.bidPriceMicros, Int64.ofNat now, e.userId⟩

/-- The impression that a win of the bid counts, for a bid with a user. -/
def BidEvent.impression (e : BidEvent) (now : ℕ) : Option ImpressionEvent :=
  if e.userId = "" then none
  else some ⟨e.userId, e.campaignId, e.creativeId, 0, currentHourOfDay now⟩

/-- A bid and the event published with it are of one auction: the `nurl` is read back by the
`win` handler as a notice that is authentic, counts the event's impression and publishes the
event's win. A fetch takes effect if the TTL is positive and no live dedup key stands for its
request and impression, and for the rest of the TTL no other one does. -/
structure WinsAs (h : Hmac) (svc : WinNoticeGateService) (lossy : Bytes → String) (b : Bid)
    (p : PublishedBid) : Prop where
  impid : b.impid = p.event.impId
  cid : b.cid = some (toString p.event.campaignId)
  crid : b.crid = some (toString p.event.creativeId)
  price : b.price = (p.event.bidPriceMicros.toInt : ℚ) / 1000000
  notice : ∃ url query n, b.nurl = some url ∧ queryOf url.toList = some query ∧
    winParams lossy query = some n ∧ p.key = toLeBytes n.campaignId ∧
    (∀ now, n.winEvent now = p.event.won now ∧ n.impression now = p.event.impression now) ∧
    ∀ s : WinSystem, 0 < svc.ttl →
      s.dedup.live s.now (WinNoticeGateService.dedupKey p.event.requestId p.event.impId) = none →
      ∃ s', Lib.exec (WinSystem.step h svc) s (WinSystem.noticeSteps s.handlers.length n) = some s' ∧
        TakesEffect h svc n s s'

theorem toInt_micros (cents : Int32) : (cents.toInt64 * 10000).toInt = cents.toInt * 10000 := by
  have hlo := cents.le_toInt
  have hhi := cents.toInt_lt
  have hfactor : (10000 : Int64).toInt = 10000 := by decide
  rw [Int64.toInt_mul, Int32.toInt_toInt64, hfactor, Int.bmod_eq_of_le] <;> omega

theorem winsAs_bidOf {d : Deps τ} {base : String} (htotal : ∀ key msg, (h.mac key msg).isSome)
    (hbase : base ≠ "") (hmark : '?' ∉ base.toList) (hfragment : '#' ∉ base.toList)
    (hurl : d.noticeUrl = svc.build h base) (req : BidRequest) (topic : String) (timestampMs : Int64)
    (winner : ImpWinner) : WinsAs h svc lossy (bidOf d req winner)
      ⟨topic, toLeBytes winner.campaignId, bidEvent req timestampMs winner⟩ := by
  obtain ⟨url, query, hbuild, hquery, hparams⟩ := winParams_build h svc lossy hbase hmark
    hfragment ⟨req.id, winner.impId, winner.campaignId, winner.creativeId,
      winner.bidPriceCents.toInt64 * 10000, req.userId.getD "", d.exchangeId⟩
  refine ⟨rfl, rfl, rfl, ?_, url, query, _, ?_, hquery, hparams, rfl, ?_, ?_⟩
  · simp only [bidOf, bidEvent, toInt_micros]
    push_cast
    ring
  · rw [← hbuild, ← hurl]
    rfl
  · intro now
    refine ⟨rfl, ?_⟩
    by_cases huser : req.userId.getD "" = "" <;>
      simp [WinParams.impression, BidEvent.impression, noticeRead, bidEvent, huser]
  · intro s httl hfree
    exact notice_takes_effect (noticeRead_authenticates htotal _) httl hfree

/-- A reply with a bid: the request was bid on, the response of its context was encoded and
an event was published for each winner. -/
theorem bid_sent {d : Deps τ} {app : AppState τ} {elapsedMs : ℕ → ℕ} {timestampMs : Int64}
    {body out : Bytes} {contentType : String} {w w' : World τ} {published : List PublishedBid}
    (hstages : app.stages = productionStages d)
    (hreply : bid app elapsedMs timestampMs body w = ((.bid contentType out, published), w')) :
    ∃ req, app.adapter.decodeRequest body = .ok req ∧
      (runPipeline d app.deadlineMs elapsedMs req w).2.1.outcome = .Bid ∧
      (∃ resp, (runPipeline d app.deadlineMs elapsedMs req w).2.1.bidResponse = some resp ∧
        app.adapter.encodeResponse resp = .ok (out, contentType)) ∧
      published = (runPipeline d app.deadlineMs elapsedMs req w).2.1.winners.map fun winner =>
        ⟨app.eventsTopic, toLeBytes winner.campaignId,
          bidEvent (runPipeline d app.deadlineMs elapsedMs req w).2.1.request timestampMs winner⟩ := by
  unfold bid at hreply
  cases hdecode : app.adapter.decodeRequest body with
  | error e => simp [hdecode] at hreply
  | ok req =>
    have hok := runPipeline_ok d app.deadlineMs elapsedMs req w
    have hexec : Pipeline.execute app.deadlineMs elapsedMs app.stages 0 (.new req) w =
      runPipeline d app.deadlineMs elapsedMs req w := by rw [hstages, runPipeline]
    simp only [hdecode, hexec, hok, Prod.mk.injEq] at hreply
    refine ⟨req, rfl, ?_⟩
    have hreply := hreply.1
    generalize (runPipeline d app.deadlineMs elapsedMs req w).2.1 = ctx at hreply ⊢
    unfold replyTo at hreply
    cases hout : ctx.outcome with
    | NoBid reason => simp [hout] at hreply
    | Pending => simp [hout] at hreply
    | Bid =>
      cases hresp : ctx.bidResponse with
      | none => simp [hout, hresp] at hreply
      | some resp =>
        cases henc : app.adapter.encodeResponse resp with
        | error e => simp [hout, hresp, henc] at hreply
        | ok encoded =>
          simp only [hout, hresp, henc, Prod.mk.injEq, BidReply.bid.injEq] at hreply
          obtain ⟨⟨rfl, rfl⟩, rfl⟩ := hreply
          exact ⟨rfl, ⟨resp, rfl, henc⟩, rfl⟩

/-- Every bid that the handler sends out can be won as the event published for it. -/
theorem sent_bids_winnable {d : Deps τ} {app : AppState τ} {base : String} {elapsedMs : ℕ → ℕ}
    {timestampMs : Int64} {body out : Bytes} {contentType : String} {w w' : World τ}
    {published : List PublishedBid} (htotal : ∀ key msg, (h.mac key msg).isSome)
    (hbase : base ≠ "") (hmark : '?' ∉ base.toList) (hfragment : '#' ∉ base.toList)
    (hstages : app.stages = productionStages d) (hurl : d.noticeUrl = svc.build h base)
    (hreply : bid app elapsedMs timestampMs body w = ((.bid contentType out, published), w')) :
    ∃ req resp bids, app.adapter.decodeRequest body = .ok req ∧
      app.adapter.encodeResponse resp = .ok (out, contentType) ∧ resp.id = req.id ∧
      resp.seatbid = [bids] ∧ bids ≠ [] ∧ List.Forall₂ (WinsAs h svc lossy) bids published := by
  obtain ⟨req, hdecode, hbid, henc, hpub⟩ := bid_sent hstages hreply
  obtain ⟨resp, hresp, henc⟩ := henc
  obtain ⟨ctx, w₁, hreq, -, -, hrun⟩ := runPipeline_ranking hbid
  rw [hrun] at hbid hresp hpub
  rw [responseBuild_of_bid hbid, Option.some.injEq] at hresp
  rw [responseBuild_winners, responseBuild_request] at hpub
  have hrequest : (ranking ctx w₁).1.request = req := hreq
  have hwinners : (ranking ctx w₁).1.winners ≠ [] := by
    intro hnil
    have hout : (ranking ctx w₁).1.outcome = .NoBid .NO_ELIGIBLE_BIDS :=
      if_pos (List.isEmpty_iff.2 hnil)
    simp [responseBuild, hout] at hbid
  refine ⟨req, resp, (ranking ctx w₁).1.winners.map (bidOf d req), hdecode, henc, ?_, ?_, ?_, ?_⟩
  · rw [← hresp, bidResponse, hrequest]
  · rw [← hresp, bidResponse, hrequest]
  · simpa using hwinners
  · rw [hpub, hrequest, List.forall₂_map_left_iff, List.forall₂_map_right_iff, List.forall₂_same]
    intro winner _
    exact winsAs_bidOf htotal hbase hmark hfragment hurl req _ _ winner

/-- A handler over the sample catalog that signs its notices, for an exchange that sends and
takes fixed texts. -/
def signingApp : AppState Unit where
  adapter := ⟨"openrtb", fun _ => .ok userRequest, fun _ => .ok ([], "application/json")⟩
  deadlineMs := 50
  stages := productionStages { sampleDeps with
    noticeUrl := keyedService.build WinNoticeGateService.sampled "https://bid.example.com/rtb/win" }
  eventsTopic := "events"

theorem sent_bids_winnable_sample : ∃ published w' bids,
    bid signingApp (fun _ => 10) 0 [] ⟨LocalBudgetPacer.new.reload [(4, 1000), (9, 1000)], ()⟩ =
      ((.bid "application/json" [], published), w') ∧ bids ≠ [] ∧
    List.Forall₂ (WinsAs WinNoticeGateService.sampled keyedService fun _ => "") bids published := by
  have hreply : (bid signingApp (fun _ => 10) 0 []
      ⟨LocalBudgetPacer.new.reload [(4, 1000), (9, 1000)], ()⟩).1.1 =
        .bid "application/json" [] := by
    decide +kernel
  have hsplit : ∀ r : (BidReply × List PublishedBid) × World Unit,
      r.1.1 = .bid "application/json" [] → r = ((.bid "application/json" [], r.1.2), r.2) := by
    rintro ⟨⟨reply, published⟩, w⟩ hr
    simp_all
  obtain ⟨-, -, bids, -, -, -, -, hne, hall⟩ := @sent_bids_winnable Unit
    WinNoticeGateService.sampled keyedService (fun _ => "") _ _ "https://bid.example.com/rtb/win"
    _ _ _ _ _ _ _ _ (fun _ _ => rfl) (by decide) (by decide) (by decide) rfl rfl (hsplit _ hreply)
  exact ⟨_, _, bids, hsplit _ hreply, hne, hall⟩

end Bid

end RTB
