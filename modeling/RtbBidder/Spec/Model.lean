import Mathlib.Data.List.AList
import Mathlib.Tactic
import RtbBidder.Lib.BinaryFloat
import RtbBidder.Spec.Pacing

/-! The request, candidate and context types of `bidder-core/src/model`, with the
fields that the pipeline reads or writes. -/

namespace RTB

abbrev SegmentId := UInt32
abbrev CreativeId := UInt32

abbrev HashMap (κ α : Type) := AList fun _ : κ => α

/-- A JSON value, as far as `user.ext` is read. -/
inductive Json
  | null
  | bool (b : Bool)
  | num (q : ℚ)
  | str (s : String)
  | arr (xs : List Json)
  | obj (fields : List (String × Json))

def Json.get (v : Json) (key : String) : Option Json :=
  match v with
  | .obj fields => fields.lookup key
  | _ => none

def Json.asStr : Json → Option String
  | .str s => some s
  | _ => none

/-- An impression; the four format objects are read for their presence only. -/
structure Imp where
  id : String
  banner : Option Unit
  video : Option Unit
  audio : Option Unit
  native : Option Unit
  deriving DecidableEq, Repr

structure Geo where
  country : Option String
  metro : Option String
  deriving DecidableEq, Repr

structure Device where
  geo : Option Geo
  devicetype : Option UInt8
  deriving DecidableEq, Repr

structure User where
  id : Option String
  ext : Option Json

structure Regs where
  gdpr : Option UInt8
  deriving DecidableEq, Repr

structure BidRequest where
  id : String
  imp : List Imp
  device : Option Device
  user : Option User
  regs : Option Regs

def BidRequest.userId (r : BidRequest) : Option String := r.user.bind (·.id)

inductive AdFormat
  | Banner
  | Video
  | Audio
  | Native
  deriving DecidableEq, Repr

/-- `imp_ad_format` of the candidate retrieval stage. -/
def impAdFormat (imp : Imp) : Option AdFormat :=
  if imp.banner.isSome then some .Banner
  else if imp.video.isSome then some .Video
  else if imp.audio.isSome then some .Audio
  else if imp.native.isSome then some .Native
  else none

/-- An `f32` up to the sign of zero; the pipeline only compares scores. -/
abbrev F32 := Lib.F32

structure AdCandidate where
  campaignId : CampaignId
  creativeId : CreativeId
  bidPriceCents : Int32
  score : F32
  dailyCapImps : UInt32
  hourlyCapImps : UInt32
  deriving DecidableEq

/-- The candidate without its score. -/
def AdCandidate.unscored (c : AdCandidate) : AdCandidate := { c with score := .fin 0 }

structure ImpWinner where
  impId : String
  campaignId : CampaignId
  creativeId : CreativeId
  bidPriceCents : Int32
  score : F32
  deriving DecidableEq

/-- `NoBidReason` is an open code; these are the ones the pipeline gives. -/
inductive NoBidReason
  | INVALID_REQUEST
  | NO_ELIGIBLE_BIDS
  | REQUEST_BLOCKED_PRIVACY
  | PIPELINE_DEADLINE
  deriving DecidableEq, Repr

def NoBidReason.code : NoBidReason → UInt32
  | .INVALID_REQUEST => 2
  | .NO_ELIGIBLE_BIDS => 11
  | .REQUEST_BLOCKED_PRIVACY => 13
  | .PIPELINE_DEADLINE => 103

inductive PipelineOutcome
  | Pending
  | NoBid (reason : NoBidReason)
  | Bid
  deriving DecidableEq, Repr

def PipelineOutcome.isNoBid : PipelineOutcome → Bool
  | .NoBid _ => true
  | _ => false

/-- A bid of the response; the fields always left empty are not kept. The price
is in dollars, taken exactly. -/
structure Bid where
  id : String
  impid : String
  price : ℚ
  adid : Option String
  cid : Option String
  crid : Option String
  nurl : Option String
  extPctr : F32
  extScore : F32

structure BidResponse where
  id : String
  seatbid : List (List Bid)
  cur : Option String
  nbr : Option NoBidReason

def BidResponse.noBid (requestId : String) (reason : NoBidReason) : BidResponse where
  id := requestId
  seatbid := []
  cur := none
  nbr := some reason

structure WinNoticeRequest where
  requestId : String
  impId : String
  campaignId : CampaignId
  creativeId : CreativeId
  clearingPriceMicros : Int64
  userId : String
  exchangeId : String

end RTB
