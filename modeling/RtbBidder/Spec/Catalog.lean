import RtbBidder.Lib.SortedSet
import RtbBidder.Spec.Model

/-! The campaign catalog snapshot of `bidder-core/src/catalog` and its candidate
retrieval. Hash maps are association lists without repeated keys, roaring
bitmaps are sorted sets. -/

namespace RTB

inductive GeoKind
  | Country
  | Metro
  deriving DecidableEq, Repr

structure GeoKey where
  kind : GeoKind
  code : String
  deriving DecidableEq, Repr

inductive DeviceTargetType
  | Desktop
  | Mobile
  | Tablet
  | Ctv
  | Other
  deriving DecidableEq, Repr

def DeviceTargetType.fromOpenrtb (v : UInt8) : DeviceTargetType :=
  if v = 1 ∨ v = 4 then .Mobile
  else if v = 2 then .Desktop
  else if v = 3 ∨ v = 6 ∨ v = 7 then .Ctv
  else if v = 5 then .Tablet
  else .Other

/-- A row of `campaigns`, with the CHECK constraints of the table. -/
structure Campaign where
  id : CampaignId
  bidFloorCents : Int32
  dailyBudgetCents : Int64
  dailyCapImps : UInt32
  hourlyCapImps : UInt32
  bidFloorCents_nonneg : 0 ≤ bidFloorCents.toInt
  dailyBudgetCents_nonneg : 0 ≤ dailyBudgetCents.toInt

structure Creative where
  id : CreativeId
  campaignId : CampaignId
  adFormat : AdFormat

abbrev RoaringBitmap := Lib.SortedSet UInt32

structure CampaignCatalog where
  campaigns : HashMap CampaignId Campaign
  creatives : HashMap CampaignId (List Creative)
  segmentToCampaigns : HashMap SegmentId RoaringBitmap
  geoToCampaigns : HashMap GeoKey RoaringBitmap
  deviceToCampaigns : HashMap DeviceTargetType RoaringBitmap
  formatToCampaigns : HashMap AdFormat RoaringBitmap
  daypartActiveNow : RoaringBitmap
  allCampaigns : RoaringBitmap
  deviceUnrestricted : RoaringBitmap
  formatUnrestricted : RoaringBitmap

structure CandidateRequest where
  segmentIds : List SegmentId
  geoKeys : Option (List GeoKey)
  deviceType : Option DeviceTargetType
  adFormat : Option AdFormat

/-- The union of the bitmaps that `index` has for `keys`. -/
def unionOf {κ : Type} [DecidableEq κ] (index : HashMap κ RoaringBitmap) (keys : List κ) :
    RoaringBitmap :=
  keys.foldl (fun u k => (index.lookup k).elim u u.union) .empty

/-- `eligible` for one dimension: the campaigns without rows and those of the row. -/
def eligibleFor {κ : Type} [DecidableEq κ] (unrestricted : RoaringBitmap)
    (index : HashMap κ RoaringBitmap) (k : κ) : RoaringBitmap :=
  (index.lookup k).elim unrestricted unrestricted.union

/-- Intersect with a filter; `none` stands for the whole universe. -/
def narrow (result : Option RoaringBitmap) (filter : RoaringBitmap) : Option RoaringBitmap :=
  some (result.elim filter (·.inter filter))

namespace CampaignCatalog

def candidatesFor (cat : CampaignCatalog) (req : CandidateRequest) : RoaringBitmap :=
  if cat.allCampaigns.isEmpty then .empty
  else
    let result := if req.segmentIds.isEmpty then none
      else some (unionOf cat.segmentToCampaigns req.segmentIds)
    let result := match req.geoKeys with
      | some (k :: ks) => narrow result (unionOf cat.geoToCampaigns (k :: ks))
      | _ => result
    let result := match req.deviceType with
      | some device => narrow result (eligibleFor cat.deviceUnrestricted cat.deviceToCampaigns device)
      | none => result
    let result := match req.adFormat with
      | some format => narrow result (eligibleFor cat.formatUnrestricted cat.formatToCampaigns format)
      | none => result
    let result := if cat.daypartActiveNow.isEmpty then result else narrow result cat.daypartActiveNow
    result.getD cat.allCampaigns

def campaign (cat : CampaignCatalog) (id : CampaignId) : Option Campaign := cat.campaigns.lookup id

def creativesFor (cat : CampaignCatalog) (id : CampaignId) : List Creative :=
  (cat.creatives.lookup id).getD []

def isEmpty (cat : CampaignCatalog) : Bool := cat.campaigns.entries.isEmpty

def budgetSeeds (cat : CampaignCatalog) : List (CampaignId × Int64) :=
  cat.campaigns.entries.map fun c => (c.1, c.2.dailyBudgetCents)

end CampaignCatalog

end RTB
