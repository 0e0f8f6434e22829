import RtbBidder.Spec.BidHandler
import RtbBidder.Spec.NoticeUrl

/-! The Google AdX adapter of `bidder-core/src/exchange/google_adx.rs`: the protobuf
messages with the fields that reach the pipeline or come from it, and the two mappings. -/

namespace RTB

structure AdxAdSlot where
  id : UInt32
  deriving DecidableEq, Repr

structure AdxUser where
  googleUserId : String
  deriving DecidableEq, Repr

structure AdxGeo where
  country : String
  deriving DecidableEq, Repr

structure AdxBidRequest where
  id : Bytes
  adslot : Option AdxAdSlot
  user : Option AdxUser
  geo : Option AdxGeo
  /-- read for its presence: its texts are not among the fields the pipeline reads -/
  device : Option Unit
  deriving DecidableEq, Repr

structure AdxAd where
  maxCpmMicros : Int64
  buyerCreativeId : UInt32
  adslotId : UInt32
  nurl : String
  extJson : String
  deriving DecidableEq

structure AdxBidResponse where
  id : Bytes
  ad : List AdxAd
  deriving DecidableEq

/-- The bytes as text where they are UTF-8, in lowercase hex otherwise. -/
def bytesToStringLossy (b : Bytes) : String := Lib.Form.ofUtf8 hexEncode b

def adxToInternal (raw : AdxBidRequest) : Except String BidRequest :=
  match raw.adslot with
  | none => .error "adx bid request missing adslot"
  | some slot => .ok
    { id := bytesToStringLossy raw.id
      imp := [⟨toString slot.id, some (), none, none, none⟩]
      device :=
        if raw.device.isSome ∨ raw.geo.isSome then
          some ⟨raw.geo.map fun g => ⟨some g.country, none⟩, none⟩
        else none
      user := raw.user.map fun u => ⟨some u.googleUserId, none⟩
      regs := none }

/-- `f64::round`: to the nearest integer, halves away from zero. -/
def f64Round (q : ℚ) : ℤ := if 0 ≤ q then ⌊q + 1 / 2⌋ else ⌈q - 1 / 2⌉

/-- `as i64`, which saturates. -/
def asI64 (z : ℤ) : Int64 := .ofInt (max (-2 ^ 63) (min z (2 ^ 63 - 1)))

section Response

-- how `serde_json` writes the `ext` object of a bid
variable (extText : F32 → F32 → String)

def adxAd (bid : Bid) : AdxAd where
  maxCpmMicros := asI64 (f64Round (bid.price * 1000000))
  buyerCreativeId := (bid.crid.bind parseU32).getD 0
  adslotId := (parseU32 bid.impid).getD 0
  nurl := bid.nurl.getD ""
  extJson := extText bid.extPctr bid.extScore

def internalToAdx (resp : BidResponse) : AdxBidResponse where
  id := asBytes resp.id
  ad := resp.seatbid.flatMap fun seatbid => seatbid.map (adxAd extText)

/-- The adapter over the protobuf codec of the two messages. -/
def googleAdxAdapter (decode : Bytes → Option AdxBidRequest) (encode : AdxBidResponse → Bytes) :
    ExchangeAdapter where
  id := "google-adx"
  decodeRequest := fun body =>
    match decode body with
    | none => .error "adx protobuf bid request decode failed"
    | some raw => adxToInternal raw
  encodeResponse := fun response =>
    .ok (encode (internalToAdx extText response), "application/octet-stream")

end Response

end RTB
