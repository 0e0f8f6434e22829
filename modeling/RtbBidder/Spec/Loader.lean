import RtbBidder.Lib.Index
import RtbBidder.Spec.Catalog

/-! The catalog loader of `bidder-core/src/catalog/loader.rs`: the Postgres
tables it reads, its queries, and `build`, which turns the query results into a
catalog snapshot. The queries run concurrently, so an index row may name a
campaign that the campaign query did not return. -/

namespace RTB

/-- `x as u32` -/
def castU32 (x : Int64) : UInt32 := x.toUInt64.toUInt32

/-- A row of `query_campaigns`, with the CHECK constraints of the table. -/
structure CampaignRow where
  id : Int64
  bidFloorCents : Int32
  dailyBudgetCents : Int64
  dailyCapImps : Int32
  hourlyCapImps : Int32
  bidFloorCents_nonneg : 0 ≤ bidFloorCents.toInt
  dailyBudgetCents_nonneg : 0 ≤ dailyBudgetCents.toInt
  deriving DecidableEq

structure CreativeRow where
  id : Int64
  campaignId : Int64
  adFormat : String
  deriving DecidableEq

/-- What the queries return. -/
structure CatalogRows where
  campaigns : List CampaignRow
  creatives : List CreativeRow
  segIdx : List (Int32 × List Int64)
  geoIdx : List (String × String × List Int64)
  deviceIdx : List (String × List Int64)
  formatIdx : List (String × List Int64)
  daypart : List Int64

def parseAdFormat : String → Option AdFormat
  | "BANNER" | "banner" => some .Banner
  | "VIDEO" | "video" => some .Video
  | "AUDIO" | "audio" => some .Audio
  | "NATIVE" | "native" => some .Native
  | _ => none

def parseDeviceType : String → Option DeviceTargetType
  | "DESKTOP" | "desktop" => some .Desktop
  | "MOBILE" | "mobile" => some .Mobile
  | "TABLET" | "tablet" => some .Tablet
  | "CTV" | "ctv" => some .Ctv
  | "OTHER" | "other" => some .Other
  | _ => none

section Build

def bitmapOf (ids : List Int64) : RoaringBitmap := .ofList (ids.map castU32)

def campaignOf (row : CampaignRow) : Campaign where
  id := castU32 row.id
  bidFloorCents := row.bidFloorCents
  dailyBudgetCents := row.dailyBudgetCents
  dailyCapImps := (max row.dailyCapImps 0).toUInt32
  hourlyCapImps := (max row.hourlyCapImps 0).toUInt32
  bidFloorCents_nonneg := row.bidFloorCents_nonneg
  dailyBudgetCents_nonneg := row.dailyBudgetCents_nonneg

/-- A creative of an unknown format is skipped. -/
def creativeOf (row : CreativeRow) : Option Creative :=
  (parseAdFormat row.adFormat).map fun format => ⟨castU32 row.id, castU32 row.campaignId, format⟩

def geoKeyOf (kind code : String) : GeoKey := ⟨if kind = "country" then .Country else .Metro, code⟩

/-- The index rows whose key parses, the others are skipped. -/
def parsedRows {κ : Type} (parse : String → Option κ) (rows : List (String × List Int64)) :
    List (κ × RoaringBitmap) :=
  rows.filterMap fun r => (parse r.1).map (·, bitmapOf r.2)

/-- `device_to_campaigns` and `format_to_campaigns`: rows of one key are merged. -/
def mergedIndex {κ : Type} [DecidableEq κ] (rows : List (κ × RoaringBitmap)) :
    HashMap κ RoaringBitmap :=
  Lib.mergeRows Prod.fst .empty (fun bm r => bm.union r.2) rows ∅

/-- The campaigns that no row names. -/
def unrestricted {κ : Type} (all : RoaringBitmap) (rows : List (κ × RoaringBitmap)) :
    RoaringBitmap :=
  all.diff (rows.foldl (fun bm r => bm.union r.2) .empty)

def build (q : CatalogRows) : CampaignCatalog :=
  let all := bitmapOf (q.campaigns.map (·.id))
  let devices := parsedRows parseDeviceType q.deviceIdx
  let formats := parsedRows parseAdFormat q.formatIdx
  { campaigns := Lib.insertRows (fun row => castU32 row.id) campaignOf q.campaigns ∅
    creatives := Lib.mergeRows (·.campaignId) [] (fun l cr => l ++ [cr])
      (q.creatives.filterMap creativeOf) ∅
    segmentToCampaigns := Lib.insertRows (·.1.toUInt32) (bitmapOf ·.2) q.segIdx ∅
    geoToCampaigns := Lib.insertRows (fun r => geoKeyOf r.1 r.2.1) (bitmapOf ·.2.2) q.geoIdx ∅
    deviceToCampaigns := mergedIndex devices
    formatToCampaigns := mergedIndex formats
    daypartActiveNow := bitmapOf q.daypart
    allCampaigns := all
    deviceUnrestricted := unrestricted all devices
    formatUnrestricted := unrestricted all formats }

end Build

section Queries

inductive CampaignStatus
  | active
  | paused
  | draft
  | archived
  deriving DecidableEq, Repr

/-- The text of the `geo_kind` values. -/
def GeoKind.text : GeoKind → String
  | .Country => "country"
  | .Metro => "metro"

/-- The text of the `device_type` values. -/
def DeviceTargetType.text : DeviceTargetType → String
  | .Desktop => "DESKTOP"
  | .Mobile => "MOBILE"
  | .Tablet => "TABLET"
  | .Ctv => "CTV"
  | .Other => "OTHER"

/-- The text of the `ad_format` values. -/
def AdFormat.text : AdFormat → String
  | .Banner => "BANNER"
  | .Video => "VIDEO"
  | .Audio => "AUDIO"
  | .Native => "NATIVE"

/-- A row of `creative`. -/
structure CreativeRecord where
  id : Int64
  campaignId : Int64
  adFormat : AdFormat
  deriving DecidableEq

/-- The tables of the migrations, with the columns that the queries read. A
targeting row is a campaign id and what it targets. -/
structure Tables where
  campaign : List (CampaignRow × CampaignStatus)
  creative : List CreativeRecord
  targetingSegment : List (Int64 × Int32)
  targetingGeo : List (Int64 × GeoKind × String)
  targetingDevice : List (Int64 × DeviceTargetType)
  targetingFormat : List (Int64 × AdFormat)
  daypart : List (Int64 × BitVec 168)
  campaign_pk : (campaign.map (·.1.id)).Nodup

/-- `current_hour_of_week`, from the seconds since the epoch, a Thursday. Monday
is day 0, so the bit that `get_bit` reads is always in the mask. -/
def currentHourOfWeek (secs : ℕ) : Fin 168 :=
  ⟨(secs / 86400 + 3) % 7 * 24 + secs % 86400 / 3600, by omega⟩

namespace Tables

def isActive (t : Tables) (id : Int64) : Bool :=
  t.campaign.any fun r => r.1.id = id && r.2 = .active

/-- `JOIN campaign c ON c.id = campaign_id WHERE c.status = 'active'` -/
def joinActive {α : Type} (t : Tables) (rows : List (Int64 × α)) : List (Int64 × α) :=
  rows.filter (t.isActive ·.1)

/-- `array_agg(campaign_id ORDER BY campaign_id) ... GROUP BY` -/
def groupIds {κ : Type} [DecidableEq κ] (rows : List (Int64 × κ)) : List (κ × List Int64) :=
  (rows.map Prod.snd).dedup.map fun k =>
    (k, ((rows.filter (·.2 = k)).map Prod.fst).insertionSort (· ≤ ·))

def queryDaypartActiveNow (t : Tables) (hourOfWeek : Fin 168) : List Int64 :=
  ((t.joinActive t.daypart).filter (·.2.getMsbD hourOfWeek)).map Prod.fst

def queries (t : Tables) (hourOfWeek : Fin 168) : CatalogRows where
  campaigns := (t.campaign.filter (·.2 = .active)).map Prod.fst
  creatives := (t.creative.filter (t.isActive ·.campaignId)).map fun cr =>
    ⟨cr.id, cr.campaignId, cr.adFormat.text⟩
  segIdx := groupIds (t.joinActive t.targetingSegment)
  geoIdx := (groupIds (t.joinActive t.targetingGeo)).map fun r => (r.1.1.text, r.1.2, r.2)
  deviceIdx := (groupIds (t.joinActive t.targetingDevice)).map fun r => (r.1.text, r.2)
  formatIdx := (groupIds (t.joinActive t.targetingFormat)).map fun r => (r.1.text, r.2)
  daypart := t.queryDaypartActiveNow hourOfWeek

/-- The catalog that a refresh at `secs` seconds since the epoch builds. -/
def load (t : Tables) (secs : ℕ) : CampaignCatalog := build (t.queries (currentHourOfWeek secs))

end Tables

end Queries

end RTB
