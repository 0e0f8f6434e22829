import RtbBidder.Spec.Pipeline
import RtbBidder.Spec.WinNotice

/-! The `bid` handler of `bidder-server/src/server/handlers.rs` over a pipeline of any
stages. Its `unreachable!` arm and that of `ResponseBuildStage` are results of their own. -/

namespace RTB

section ResponseBuild

variable {τ : Type}

/-- `ResponseBuildStage::execute` with all three arms of its match; the result is none at
the `unreachable!`. -/
def responseBuildArms (d : Deps τ) (ctx : BidContext) (w : World τ) :
    Option (BidContext × World τ) :=
  let ctx := if ctx.outcome = .Pending then { ctx with outcome := .NoBid .NO_ELIGIBLE_BIDS } else ctx
  match ctx.outcome with
  | .NoBid reason => some ({ ctx with bidResponse := some (.noBid ctx.request.id reason) }, w)
  | .Bid => some ({ ctx with bidResponse := some (bidResponse d ctx) }, w)
  | .Pending => none

end ResponseBuild

structure ExchangeAdapter where
  id : String
  decodeRequest : Bytes → Except String BidRequest
  /-- the body and its content type -/
  encodeResponse : BidResponse → Except String (Bytes × String)

structure BidEvent where
  requestId : String
  impId : String
  campaignId : CampaignId
  creativeId : CreativeId
  bidPriceMicros : Int64
  timestampMs : Int64
  userId : String
  deviceType : UInt32
  deriving DecidableEq

/-- An event handed to the publisher, under its topic and key. -/
structure PublishedBid where
  topic : String
  key : Bytes
  event : BidEvent
  deriving DecidableEq

/-- `u32::to_le_bytes` -/
def toLeBytes (x : UInt32) : Bytes :=
  [x.toUInt8, (x >>> 8).toUInt8, (x >>> 16).toUInt8, (x >>> 24).toUInt8]

/-- The places where the handler returns. -/
inductive BidReply
  | decodeFailed (error : String)
  | pipelineError (error : String)
  | noBid
  /-- `PipelineOutcome::Bid but bid_response is None` -/
  | missingResponse
  | encodeFailed (error : String)
  | bid (contentType : String) (body : Bytes)
  /-- the `unreachable!` of a pending outcome, which panics -/
  | unreachable
  deriving DecidableEq

/-- The HTTP status of the reply. -/
def BidReply.status : BidReply → Option ℕ
  | .decodeFailed _ => some 400
  | .pipelineError _ | .missingResponse | .encodeFailed _ => some 500
  | .noBid => some 204
  | .bid .. => some 200
  | .unreachable => none

/-- The handler's state: the adapter, the pipeline with its deadline, the topic. -/
structure AppState (τ : Type) where
  adapter : ExchangeAdapter
  deadlineMs : ℕ
  stages : List (Stage τ)
  eventsTopic : String

section Bid

variable {τ : Type}

def bidEvent (req : BidRequest) (timestampMs : Int64) (winner : ImpWinner) : BidEvent where
  requestId := req.id
  impId := winner.impId
  campaignId := winner.campaignId
  creativeId := winner.creativeId
  bidPriceMicros := winner.bidPriceCents.toInt64 * 10000
  timestampMs := timestampMs
  userId := req.userId.getD ""
  deviceType := ((req.device.bind (·.devicetype)).getD 0).toUInt32

/-- The handler after the pipeline has returned `Ok`: the reply and what it publishes. -/
def replyTo (app : AppState τ) (timestampMs : Int64) (ctx : BidContext) :
    BidReply × List PublishedBid :=
  match ctx.outcome with
  | .NoBid _ => (.noBid, [])
  | .Bid =>
    match ctx.bidResponse with
    | none => (.missingResponse, [])
    | some response =>
      match app.adapter.encodeResponse response with
      | .error e => (.encodeFailed e, [])
      | .ok (body, contentType) =>
        (.bid contentType body, ctx.winners.map fun winner =>
          ⟨app.eventsTopic, toLeBytes winner.campaignId, bidEvent ctx.request timestampMs winner⟩)
  | .Pending => (.unreachable, [])

def bid (app : AppState τ) (elapsedMs : ℕ → ℕ) (timestampMs : Int64) (body : Bytes) (w : World τ) :
    (BidReply × List PublishedBid) × World τ :=
  match app.adapter.decodeRequest body with
  | .error e => ((.decodeFailed e, []), w)
  | .ok request =>
    let r := Pipeline.execute app.deadlineMs elapsedMs app.stages 0 (BidContext.new request) w
    match r.1 with
    | .error e => ((.pipelineError e, []), r.2.2)
    | .ok () => (replyTo app timestampMs r.2.1, r.2.2)

end Bid

end RTB
