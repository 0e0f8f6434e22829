import RtbBidder.Lib.Hex
import RtbBidder.Lib.Joined
import RtbBidder.Lib.Keyspace
import RtbBidder.Spec.Pacing

/-! Win-notice authentication and deduplication of
`bidder-server/src/win_notice.rs`. -/

namespace RTB

abbrev Bytes := List UInt8

def asBytes (s : String) : Bytes := s.toUTF8.data.toList

/-- HMAC-SHA256: a tag of 32 bytes for each key it takes. -/
structure Hmac where
  mac : Bytes → Bytes → Option Bytes
  mac_length : ∀ {key msg tag}, mac key msg = some tag → tag.length = 32

section Hex

/-- `hex::encode` -/
def hexEncode (bytes : Bytes) : String :=
  String.ofList (bytes.flatMap fun b => [Lib.Hex.lower (b.toNat / 16), Lib.Hex.lower (b.toNat % 16)])

def hexDecodeChars : List Char → Option Bytes
  | [] => some []
  | [_] => none
  | hi :: lo :: rest => (Lib.Hex.byte hi lo).bind fun b => (hexDecodeChars rest).map (b :: ·)

/-- `hex::decode` -/
def hexDecode (s : String) : Option Bytes := hexDecodeChars s.toList

theorem hexDecode_hexEncode (bytes : Bytes) : hexDecode (hexEncode bytes) = some bytes := by
  rw [hexDecode, hexEncode, String.toList_ofList]
  induction bytes with
  | nil => rfl
  | cons b bytes ih =>
    simp only [List.flatMap_cons, List.cons_append, List.nil_append, hexDecodeChars,
      Lib.Hex.byte_digits Lib.Hex.value_lower, ih, Option.bind_some, Option.map_some]

end Hex

structure WinNoticeConfig where
  requireAuth : Bool
  secret : String
  secrets : String → Option String
  dedupTtlSecs : UInt64

structure WinNoticeGateService where
  secret : Option Bytes
  secrets : String → Option Bytes
  dedupTtlSecs : UInt64

inductive WinNoticeGate
  | Accept
  | AuthFailed
  | Duplicate
  | DedupUnavailable
  deriving DecidableEq, Repr

/-- The query parameters of a notice. -/
structure WinParams where
  requestId : String
  impId : String
  campaignId : CampaignId
  creativeId : UInt32
  clearingPriceMicros : Int64
  userId : Option String
  token : Option String
  exchangeId : Option String
  deriving DecidableEq, Repr

/-- What becomes of the `SET NX EX`: the reply `OK` or nil, or an error or timeout. -/
inductive SetReply
  | ok
  | nil
  | failed
  deriving DecidableEq, Repr

namespace WinNoticeGateService

def new (cfg : WinNoticeConfig) : WinNoticeGateService where
  secret := if cfg.requireAuth = true ∧ cfg.secret ≠ "" then some (asBytes cfg.secret) else none
  secrets := fun exchangeId =>
    ((cfg.secrets exchangeId).filter fun v => decide (v ≠ "")).map asBytes
  dedupTtlSecs := cfg.dedupTtlSecs

def secretFor (svc : WinNoticeGateService) (exchangeId : String) : Option Bytes :=
  if exchangeId ≠ "" then (svc.secrets exchangeId).or svc.secret else svc.secret

def signingMessage (requestId impId : String) (campaignId creativeId : UInt32) : String :=
  requestId ++ "|" ++ impId ++ "|" ++ toString campaignId ++ "|" ++ toString creativeId

def sign (h : Hmac) (svc : WinNoticeGateService) (message exchangeId : String) : Option String :=
  (svc.secretFor exchangeId).bind fun secret => (h.mac secret (asBytes message)).map hexEncode

def verifyToken (h : Hmac) (svc : WinNoticeGateService) (message : String)
    (presentedHex : Option String) (exchangeId : String) : Bool :=
  match svc.secretFor exchangeId with
  | none => true
  | some secret =>
    match presentedHex.filter fun t => decide (t ≠ "") with
    | none => false
    | some presentedHex =>
      match hexDecode presentedHex with
      | none => false
      | some presented =>
        match h.mac secret (asBytes message) with
        | none => false
        | some expected => decide (expected = presented)

/-- The signing message of a notice. -/
def messageOf (n : WinParams) : String :=
  signingMessage n.requestId n.impId n.campaignId n.creativeId

/-- The first gate of `check`. -/
def authenticates (h : Hmac) (svc : WinNoticeGateService) (n : WinParams) : Bool :=
  svc.verifyToken h (messageOf n) n.token (n.exchangeId.getD "")

def dedupKey (requestId impId : String) : String := "v1:winx:" ++ requestId ++ ":" ++ impId

/-- `dedup_ttl_secs.max(1) as i64` -/
def ttl (svc : WinNoticeGateService) : Int64 := (max svc.dedupTtlSecs 1).toInt64

/-- The TTL in milliseconds, where the server takes it. -/
def ttlMs (svc : WinNoticeGateService) : ℕ := svc.ttl.toInt.toNat * 1000

def gateOf : SetReply → WinNoticeGate
  | .ok => .Accept
  | .nil => .Duplicate
  | .failed => .DedupUnavailable

/-- What `check` returns for a notice, given what becomes of its `SET`. -/
def gate (h : Hmac) (svc : WinNoticeGateService) (n : WinParams) (reply : SetReply) :
    WinNoticeGate :=
  if svc.authenticates h n then gateOf reply else .AuthFailed

/-- The server's side of the `SET`: an expiry that is not positive is an error. -/
def serveSet (svc : WinNoticeGateService) (ks : Lib.Keyspace String Unit) (now : ℕ) (key : String) :
    SetReply × Lib.Keyspace String Unit :=
  if svc.ttl ≤ 0 then (.failed, ks)
  else
    let r := ks.setNx now key () svc.ttlMs
    (if r.1 then .ok else .nil, r.2)

/-- `check` with a server that answers; an unauthenticated notice does not reach it. -/
def check (h : Hmac) (svc : WinNoticeGateService) (n : WinParams) (now : ℕ)
    (ks : Lib.Keyspace String Unit) : WinNoticeGate × Lib.Keyspace String Unit :=
  if svc.authenticates h n then
    let r := svc.serveSet ks now (dedupKey n.requestId n.impId)
    (svc.gate h n r.1, r.2)
  else (.AuthFailed, ks)

end WinNoticeGateService

end RTB
