import RtbBidder.Lib.Run
import RtbBidder.Spec.Breaker

/-! The calls that share one breaker, as `main.rs` wires them:
`RedisSegmentRepo::segments_for`, `RedisFrequencyCapper::check` and
`InProcessFrequencyCapper::check`, whose fallback is a `RedisFrequencyCapper` on
the same breaker. A call takes one step at a time and the steps of all calls
interleave freely. Redis replies, latencies and cache contents are events, and so
is the end of a bid handler that the route drops at an `await`. -/

namespace RTB

/-- How a guarded Redis read ends: `timeout` elapsed, Redis failed, or an answer. -/
inductive RedisEnd
  | elapsed
  | failed
  | answered
  deriving DecidableEq, Repr

/-- What is passed to `record_outcome` as `error`. -/
def RedisEnd.error : RedisEnd → Bool
  | .answered => false
  | _ => true

/-- The steps of a Redis read behind the breaker. -/
inductive RedisCall
  /-- `allow_request`, read lock next -/
  | admission
  /-- `try_enter_half_open`, write lock next -/
  | claim
  /-- admitted, the Redis command is running -/
  | running
  /-- `record_outcome`, window update next -/
  | record (error : Bool) (duration : ℕ)
  /-- window snapshot next -/
  | snapshot (error slow : Bool)
  /-- write lock next -/
  | settle (error slow : Bool) (snap : ℕ × ℕ × ℕ)
  deriving DecidableEq, Repr

/-- One step of a guarded Redis read; `none` when the call has returned. -/
def RedisCall.step (cfg : BreakerConfig) (now : ℕ) (b : CircuitBreaker) (reply : RedisEnd)
    (duration : ℕ) : RedisCall → CircuitBreaker × Option RedisCall
  | .admission =>
    match b.allowRead cfg now with
    | some true => (b, some .running)
    | some false => (b, none)
    | none => (b, some .claim)
  | .claim =>
    let r := b.tryEnterHalfOpen cfg now
    (r.2, if r.1 then some .running else none)
  | .running => (b, some (.record reply.error duration))
  | .record error duration =>
    let slow := CircuitBreaker.isSlow cfg duration
    ({ b with window := b.window.record error slow }, some (.snapshot error slow))
  | .snapshot error slow => (b, some (.settle error slow b.window.snapshot))
  | .settle error slow snap => (b.recordLocked cfg now error slow snap, none)

/-- The call waits at an `await`: for a lock of the breaker or for Redis. The
window update and the snapshot of `record_outcome` come before its first `await`. -/
def RedisCall.awaiting : RedisCall → Bool
  | .record .. => false
  | .snapshot .. => false
  | _ => true

inductive Task
  | segmentsFor (c : RedisCall)
  | redisCheck (c : RedisCall)
  /-- `InProcessFrequencyCapper::check`, its own `allow_request`, read lock next -/
  | inProcessAdmission
  /-- its own `try_enter_half_open`, write lock next -/
  | inProcessClaim
  /-- admitted, cache lookups next -/
  | inProcessLookup
  /-- some candidate was cold, the fallback is running -/
  | inProcessFallback (c : RedisCall)
  | done
  deriving DecidableEq, Repr

/-- One step of a call. `cold` tells whether the lookups leave a cold candidate. -/
def Task.step (cfg : BreakerConfig) (now : ℕ) (b : CircuitBreaker) (reply : RedisEnd)
    (duration : ℕ) (cold : Bool) : Task → Option (CircuitBreaker × Task)
  | .segmentsFor c =>
    let r := c.step cfg now b reply duration
    some (r.1, (r.2.map Task.segmentsFor).getD .done)
  | .redisCheck c =>
    let r := c.step cfg now b reply duration
    some (r.1, (r.2.map Task.redisCheck).getD .done)
  | .inProcessAdmission =>
    match b.allowRead cfg now with
    | some true => some (b, .inProcessLookup)
    | some false => some (b, .done)
    | none => some (b, .inProcessClaim)
  | .inProcessClaim =>
    let r := b.tryEnterHalfOpen cfg now
    some (r.2, if r.1 then .inProcessLookup else .done)
  -- a warm hit returns here, without `record_outcome`
  | .inProcessLookup => some (b, if cold then .inProcessFallback .admission else .done)
  -- so does the call once the fallback has returned, whatever its answer
  | .inProcessFallback c =>
    let r := c.step cfg now b reply duration
    some (r.1, (r.2.map Task.inProcessFallback).getD .done)
  | .done => none

def Task.awaiting : Task → Bool
  | .segmentsFor c => c.awaiting
  | .redisCheck c => c.awaiting
  | .inProcessAdmission => true
  | .inProcessClaim => true
  | .inProcessLookup => false
  | .inProcessFallback c => c.awaiting
  | .done => false

structure RedisCalls where
  now : ℕ
  breaker : CircuitBreaker
  tasks : List Task
  deriving DecidableEq, Repr

inductive RedisCallsEvent
  /-- the clock moves on -/
  | advance (d : ℕ)
  | callSegmentsFor
  /-- `noCandidates` makes `check` return before it asks the breaker -/
  | callRedisCheck (noCandidates : Bool)
  | callInProcess
  | step (i : ℕ) (reply : RedisEnd) (duration : ℕ) (cold : Bool)
  /-- the handler that awaits the call is dropped, by its route's timeout or with its connection -/
  | drop (i : ℕ)
  deriving DecidableEq, Repr

namespace RedisCalls

def init : RedisCalls := ⟨0, CircuitBreaker.new, []⟩

def step (cfg : BreakerConfig) (s : RedisCalls) : RedisCallsEvent → Option RedisCalls
  | .advance d => some { s with now := s.now + d }
  | .callSegmentsFor => some { s with tasks := s.tasks ++ [.segmentsFor .admission] }
  | .callRedisCheck noCandidates =>
    some { s with tasks := s.tasks ++ [if noCandidates then .done else .redisCheck .admission] }
  | .callInProcess => some { s with tasks := s.tasks ++ [.inProcessAdmission] }
  | .step i reply duration cold =>
    (s.tasks[i]?).bind fun t => (t.step cfg s.now s.breaker reply duration cold).map fun r =>
      { s with breaker := r.1, tasks := s.tasks.set i r.2 }
  -- nothing of the call runs any more, and no destructor touches the breaker
  | .drop i =>
    (s.tasks[i]?).bind fun t =>
      if t.awaiting then some { s with tasks := s.tasks.set i .done } else none

/-- No call is in progress. -/
def Idle (s : RedisCalls) : Prop := ∀ t ∈ s.tasks, t = .done

instance (s : RedisCalls) : Decidable s.Idle := inferInstanceAs (Decidable (∀ t ∈ s.tasks, t = .done))

/-- The runs of any number of calls on one breaker that starts out new. -/
abbrev Reached (cfg : BreakerConfig) : List RedisCallsEvent → RedisCalls → Prop :=
  Lib.Run (· = init) (Lib.Steps (step cfg))

end RedisCalls

end RTB
