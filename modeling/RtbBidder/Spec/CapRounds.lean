import RtbBidder.Lib.Keyspace
import RtbBidder.Spec.CapChecks

/-! A sequential run of rounds for one user and campaign: a `check` of the Redis capper and,
unless it caps the campaign, the recording of one impression. The counters expire, so each
command has the time at which Redis runs it, in milliseconds. -/

namespace RTB

namespace CapRounds

abbrev Redis := Lib.Keyspace String ℤ

/-- What `MGET` finds. -/
def valueAt (redis : Redis) (now : ℕ) (key : String) : Option ℤ := (redis.live now key).map Prod.fst

/-- The counter script at one time; an existing counter keeps its expiry. -/
def evalScriptAt (redis : Redis) (now : ℕ) (key : String) (ttl : ℕ) : Option Redis :=
  match redis.live now key with
  | none => some (redis.put key 1 (now + ttl * 1000))
  | some (old, expires) =>
    if old = 2 ^ 63 - 1 then none
    else
      let current := old + 1
      some (redis.put key current (if current = 1 then now + ttl * 1000 else expires))

/-- `write_impression_counters`, with the times of its scripts. -/
def writeImpressionCountersAt (event : ImpressionEvent) (times : List ℕ) (redis : Redis) : Redis :=
  (writeWindows.zip times).foldl (fun redis (window, now) =>
    -- a failed script is counted and logged
    (evalScriptAt redis now (writeKey event window.2) window.1).getD redis) redis

structure Round where
  candidates : List AdCandidate
  /-- the breaker's clock -/
  now : ℕ
  reply : RedisEnd
  duration : ℕ
  mgetAt : ℕ
  hourAt : ℕ
  dayAt : ℕ
  creativeId : CreativeId
  deviceType : UInt8
  hourOfDay : UInt8

structure State where
  redis : Redis
  breaker : CircuitBreaker

variable (cfg : BreakerConfig) (userId : String) (campaignId : CampaignId)

/-- One round: whether the campaign was let through. `none` if the check was skipped. -/
def State.round (s : State) (r : Round) : Option (Bool × State) :=
  let answer := RedisFrequencyCapper.guardedCheck cfg r.now r.reply r.duration
    (valueAt s.redis r.mgetAt) userId r.candidates s.breaker
  match answer.1 with
  | .Checked results =>
    if results.any fun result => result.campaignId = campaignId && result.capped then
      some (false, ⟨s.redis, answer.2⟩)
    else
      let event : ImpressionEvent := ⟨userId, campaignId, r.creativeId, r.deviceType, r.hourOfDay⟩
      some (true, ⟨writeImpressionCountersAt event [r.hourAt, r.dayAt] s.redis, answer.2⟩)
  | _ => none

/-- The rounds in turn: for each, whether the campaign was let through. -/
def State.rounds (s : State) : List Round → Option (List Bool)
  | [] => some []
  | r :: rs => (s.round cfg userId campaignId r).bind fun (through, s) =>
    (s.rounds rs).map (through :: ·)

end CapRounds

end RTB
