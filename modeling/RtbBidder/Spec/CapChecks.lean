import RtbBidder.Spec.CapSystem
import RtbBidder.Spec.RedisCalls

/-! The frequency-cap calls one at a time: `write_impression_counters` with its counter
script, and the `check` of the two cappers with the breaker they share and the cache that
the in-process one fills. -/

namespace RTB

/-- The Redis counters, with the expiry that was set for each. -/
structure RedisCounters where
  value : String → Option ℤ
  expire : String → Option ℕ

namespace RedisCounters

def empty : RedisCounters := ⟨fun _ => none, fun _ => none⟩

/-- The script: `INCR`, which fails where the value does not fit 64 bits, and `EXPIRE` if
the result is 1. -/
def evalScript (r : RedisCounters) (key : String) (ttl : ℕ) : Option RedisCounters :=
  let old := (r.value key).getD 0
  if old = 2 ^ 63 - 1 then none
  else
    let current := old + 1
    some { value := Function.update r.value key (some current)
           expire := if current = 1 then Function.update r.expire key (some ttl) else r.expire }

end RedisCounters

section Writer

/-- The windows that the writer counts in, with their expiry and key suffix. -/
def writeWindows : List (ℕ × String) := [(3600, "h"), (86400, "d")]

/-- The key as the writer formats it. -/
def writeKey (event : ImpressionEvent) (windowSuffix : String) : String :=
  "v1:fc:\x7bu:" ++ event.userId ++ "\x7d:c:" ++ toString event.campaignId ++ ":" ++ windowSuffix

/-- One window of an event; the flag tells whether all scripts so far succeeded. -/
def writeWindow (event : ImpressionEvent) (r : RedisCounters × Bool) (window : ℕ × String) :
    RedisCounters × Bool :=
  match r.1.evalScript (writeKey event window.2) window.1 with
  | some r' => (r', r.2)
  -- the error is counted and logged
  | none => (r.1, false)

def writeImpressionCounters (r : RedisCounters × Bool) (event : ImpressionEvent) :
    RedisCounters × Bool :=
  writeWindows.foldl (writeWindow event) r

/-- The events that the workers have processed, from absent keys on. -/
def writeAll (events : List ImpressionEvent) : RedisCounters × Bool :=
  events.foldl writeImpressionCounters (.empty, true)

end Writer

namespace RedisFrequencyCapper

/-- `check` with its breaker. `reply` is how the `MGET` would end, after `duration`. -/
def guardedCheck (cfg : BreakerConfig) (now : ℕ) (reply : RedisEnd) (duration : ℕ)
    (redis : String → Option ℤ) (userId : String) (candidates : List AdCandidate)
    (b : CircuitBreaker) : FreqCapOutcome × CircuitBreaker :=
  if candidates.isEmpty then (.Checked [], b)
  else
    let admitted := b.allowRequest cfg now
    if admitted.1 = false then (.SkippedTimeout, admitted.2)
    else
      let b := admitted.2.recordOutcome cfg (now + duration) reply.error duration
      match reply with
      | .answered => (.Checked (results candidates ((keys userId candidates).map redis)), b)
      | _ => (.SkippedTimeout, b)

end RedisFrequencyCapper

namespace InProcessFrequencyCapper

structure State where
  breaker : CircuitBreaker
  counters : String → Option UserCapMap

def State.lookup (s : State) (userId : String) (c : CampaignId) : Option (ℤ × ℤ) :=
  (s.counters userId).bind (·.lookup c)

def State.warmCache (s : State) (userId : String) (c : CampaignId) (day hour : ℤ) : State :=
  { s with counters := Function.update s.counters userId
             (some (((s.counters userId).getD ∅).warm c day hour)) }

/-- One result of the fallback is written back to the results and, if it has counts, to
the cache. -/
def writeBack (userId : String) (r : List CapResult × State) (fb : CapResult) :
    List CapResult × State :=
  (patch fb r.1,
    match fb.dayCount, fb.hourCount with
    | some day, some hour => r.2.warmCache userId fb.campaignId day hour
    | _, _ => r.2)

/-- `check` with its breaker, over a fallback on the same breaker. Besides the outcome and
the state it returns what the fallback was asked, if it was called. -/
def guardedCheck (cfg : BreakerConfig) (now : ℕ)
    (fallback : String → List AdCandidate → CircuitBreaker → FreqCapOutcome × CircuitBreaker)
    (userId : String) (candidates : List AdCandidate) (s : State) :
    FreqCapOutcome × State × Option (List AdCandidate) :=
  let admitted := s.breaker.allowRequest cfg now
  let s := { s with breaker := admitted.2 }
  if admitted.1 = false then (.SkippedTimeout, s, none)
  else
    let results := candidates.map fun c => lookupResult (s.lookup userId c.campaignId) c
    let cold := candidates.filter fun c => (s.lookup userId c.campaignId).isNone
    if cold.isEmpty then (.Checked results, s, none)
    else
      let answer := fallback userId cold s.breaker
      let s := { s with breaker := answer.2 }
      match answer.1 with
      | .Checked fbs =>
        let r := fbs.foldl (writeBack userId) (results, s)
        (.Checked r.1, r.2, some cold)
      | _ => (.Checked results, s, some cold)

end InProcessFrequencyCapper

end RTB
