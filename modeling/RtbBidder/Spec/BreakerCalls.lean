import RtbBidder.Lib.Run
import RtbBidder.Spec.Breaker

/-! `allow_request` calls at the granularity of their lock acquisitions, interleaved
with the locked steps of `record_outcome` and the passing of time. -/

namespace RTB

/-- Where a call of `allow_request` is. -/
inductive AllowCall
  /-- the read lock comes next -/
  | read
  /-- `try_enter_half_open`, the write lock comes next -/
  | write
  | returned (admitted : Bool)
  deriving DecidableEq, Repr

structure BreakerCalls where
  now : ℕ
  breaker : CircuitBreaker
  calls : List AllowCall
  deriving DecidableEq, Repr

inductive BreakerEvent
  | advance (duration : ℕ)
  | allowRequest
  /-- the call takes its next lock, does its work under it and releases it -/
  | acquire (call : ℕ)
  /-- the counters, which are updated without the lock, move to other values -/
  | window (w : Window)
  /-- the locked step of a `record_outcome`, on whatever counts it read before -/
  | recordLocked (error slow : Bool) (snap : ℕ × ℕ × ℕ)
  deriving DecidableEq, Repr

namespace BreakerCalls

def init : BreakerCalls := ⟨0, .new, []⟩

def step (cfg : BreakerConfig) (s : BreakerCalls) : BreakerEvent → Option BreakerCalls
  | .advance d => some { s with now := s.now + d }
  | .allowRequest => some { s with calls := s.calls ++ [.read] }
  | .acquire i =>
    match s.calls[i]? with
    | some .read =>
      match s.breaker.allowRead cfg s.now with
      | some r => some { s with calls := s.calls.set i (.returned r) }
      | none => some { s with calls := s.calls.set i .write }
    | some .write =>
      let r := s.breaker.tryEnterHalfOpen cfg s.now
      some { s with breaker := r.2, calls := s.calls.set i (.returned r.1) }
    | _ => none
  | .window w => some { s with breaker := { s.breaker with window := w } }
  | .recordLocked error slow snap =>
    some { s with breaker := s.breaker.recordLocked cfg s.now error slow snap }

/-- The state after the first `k` events. -/
abbrev At (cfg : BreakerConfig) : List BreakerEvent → ℕ → BreakerCalls → Prop :=
  Lib.At (· = init) (Lib.Steps (step cfg))

end BreakerCalls

/-- One atomic admission: `allow_request` as it is meant. -/
def CircuitBreaker.admission (cfg : BreakerConfig) (now : ℕ) (b : CircuitBreaker) :
    Bool × CircuitBreaker :=
  match b.inner.state with
  | .Closed => (true, b)
  | .Open =>
    if b.elapsed now < cfg.openDuration then (false, b)
    else (true, ⟨b.window.reset, ⟨.HalfOpen, b.inner.openedAt, true⟩⟩)
  | .HalfOpen =>
    if b.inner.halfOpenProbeInFlight then (false, b)
    else (true, { b with inner := { b.inner with halfOpenProbeInFlight := true } })

end RTB
