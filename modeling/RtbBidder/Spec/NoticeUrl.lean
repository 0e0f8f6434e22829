import RtbBidder.Lib.FormUrlencoded
import RtbBidder.Spec.Model
import RtbBidder.Spec.WinNotice

/-! The `nurl` that the win-notice service builds, and the query parameters that the
handler of the notice reads back from it. -/

namespace RTB

section Build

/-- The bytes that `percent_encode` passes through. -/
def isSafe (b : UInt8) : Bool :=
  (65 ≤ b && b ≤ 90) || (97 ≤ b && b ≤ 122) || (48 ≤ b && b ≤ 57) ||
    b == 45 || b == 95 || b == 46 || b == 126

def percentEncode (s : String) : String := String.ofList (Lib.Form.percentEncode isSafe (asBytes s))

/-- `NoticeUrlBuilder::build` of the service, whose `cfg.notice_base_url` is given here. -/
def WinNoticeGateService.build (h : Hmac) (svc : WinNoticeGateService) (noticeBaseUrl : String)
    (req : WinNoticeRequest) : Option String :=
  if noticeBaseUrl = "" then none
  else
    let message := signingMessage req.requestId req.impId req.campaignId req.creativeId
    let tokenParam := ((svc.sign h message req.exchangeId).map ("&token=" ++ ·)).getD ""
    let exchangeParam :=
      if req.exchangeId = "" then "" else "&exchange_id=" ++ percentEncode req.exchangeId
    some (noticeBaseUrl ++ "?request_id=" ++ percentEncode req.requestId
      ++ "&imp_id=" ++ percentEncode req.impId
      ++ "&campaign_id=" ++ toString req.campaignId
      ++ "&creative_id=" ++ toString req.creativeId
      ++ "&clearing_price_micros=" ++ toString req.clearingPriceMicros
      ++ "&user_id=" ++ percentEncode req.userId
      ++ exchangeParam ++ tokenParam)

end Build

section Query

/-- The digits after an optional `+`. -/
def afterPlus : List Char → List Char
  | '+' :: cs => cs
  | cs => cs

/-- `str::parse::<u32>` -/
def parseU32 (s : String) : Option UInt32 :=
  ((Lib.Form.parseDecimal (afterPlus s.toList)).filter (· < 2 ^ 32)).map UInt32.ofNat

/-- `str::parse::<i64>` -/
def parseI64 (s : String) : Option Int64 :=
  match s.toList with
  | '-' :: cs =>
    ((Lib.Form.parseDecimal cs).filter (· ≤ 2 ^ 63)).map fun n : ℕ => Int64.ofInt (-n)
  | cs => ((Lib.Form.parseDecimal (afterPlus cs)).filter (· < 2 ^ 63)).map fun n : ℕ => Int64.ofInt n

/-- The fields of `WinParams`. -/
def winParamNames : List String :=
  ["request_id", "imp_id", "campaign_id", "creative_id", "clearing_price_micros", "user_id",
   "token", "exchange_id"]

/-- The `Query<WinParams>` extractor: a field that occurs twice, that is missing and not
optional or whose value does not parse is an error, other parameters are skipped. -/
def winParams (lossy : Bytes → String) (query : List Char) : Option WinParams :=
  let ps := Lib.Form.textPairs lossy query
  if winParamNames.all fun name => (ps.map Prod.fst).count name ≤ 1 then do
    let requestId ← ps.lookup "request_id"
    let impId ← ps.lookup "imp_id"
    let campaignId ← (ps.lookup "campaign_id").bind parseU32
    let creativeId ← (ps.lookup "creative_id").bind parseU32
    let clearingPriceMicros ← (ps.lookup "clearing_price_micros").bind parseI64
    pure { requestId, impId, campaignId, creativeId, clearingPriceMicros
           userId := ps.lookup "user_id"
           token := ps.lookup "token"
           exchangeId := ps.lookup "exchange_id" }
  else none

end Query

end RTB
