import Mathlib.Tactic

/-! The circuit breaker of `bidder-core/src/breaker`. Instants and durations are
natural numbers of one clock, and the two ratios are compared exactly. -/

namespace RTB

inductive BreakerState
  | Closed
  | Open
  | HalfOpen
  deriving DecidableEq, Repr

structure BreakerConfig where
  minCalls : ℕ
  errorRateThreshold : ℚ
  slowCallRatioThreshold : ℚ
  slowCallDuration : ℕ
  openDuration : ℕ
  windowSize : ℕ

/-- `BreakerConfig::redis`, in microseconds. -/
def BreakerConfig.redis : BreakerConfig where
  minCalls := 20
  errorRateThreshold := 1 / 2
  slowCallRatioThreshold := 1 / 2
  slowCallDuration := 16000
  openDuration := 10000000
  windowSize := 100

/-- The tumbling window of call outcomes. -/
structure Window where
  calls : ℕ
  errors : ℕ
  slowCalls : ℕ
  deriving DecidableEq, Repr

def Window.new : Window := ⟨0, 0, 0⟩

def Window.record (w : Window) (error slow : Bool) : Window where
  calls := w.calls + 1
  errors := if error then w.errors + 1 else w.errors
  slowCalls := if slow then w.slowCalls + 1 else w.slowCalls

def Window.reset (_ : Window) : Window := ⟨0, 0, 0⟩

def Window.snapshot (w : Window) : ℕ × ℕ × ℕ := (w.calls, w.errors, w.slowCalls)

structure Inner where
  state : BreakerState
  openedAt : Option ℕ
  halfOpenProbeInFlight : Bool
  deriving DecidableEq, Repr

structure CircuitBreaker where
  window : Window
  inner : Inner
  deriving DecidableEq, Repr

namespace CircuitBreaker

def new : CircuitBreaker := ⟨Window.new, .Closed, none, false⟩

/-- `opened_at.map(|t| t.elapsed()).unwrap_or_default()` -/
def elapsed (b : CircuitBreaker) (now : ℕ) : ℕ := (b.inner.openedAt.map (now - ·)).getD 0

/-- The read-lock part of `allow_request`: its answer, or `none` where it falls
through to the write-lock part. -/
def allowRead (cfg : BreakerConfig) (now : ℕ) (b : CircuitBreaker) : Option Bool :=
  match b.inner.state with
  | .Closed => some true
  | .Open => if b.elapsed now < cfg.openDuration then some false else none
  | .HalfOpen => none

/-- The state `try_enter_half_open` re-checks under the write lock. -/
def enterHalfOpen (cfg : BreakerConfig) (now : ℕ) (b : CircuitBreaker) : CircuitBreaker :=
  if b.inner.state = .Open ∧ cfg.openDuration ≤ b.elapsed now then
    { window := b.window.reset
      inner := { b.inner with state := .HalfOpen, halfOpenProbeInFlight := false } }
  else b

def tryEnterHalfOpen (cfg : BreakerConfig) (now : ℕ) (b : CircuitBreaker) :
    Bool × CircuitBreaker :=
  let b := b.enterHalfOpen cfg now
  if b.inner.state = .HalfOpen ∧ b.inner.halfOpenProbeInFlight = false then
    (true, { b with inner := { b.inner with halfOpenProbeInFlight := true } })
  else (false, b)

/-- `allow_request` with nothing between its two parts. -/
def allowRequest (cfg : BreakerConfig) (now : ℕ) (b : CircuitBreaker) : Bool × CircuitBreaker :=
  match b.allowRead cfg now with
  | some r => (r, b)
  | none => b.tryEnterHalfOpen cfg now

/-- `n as f64 / calls as f64 >= threshold`. With `calls = 0` the quotient is a
NaN or an infinity. -/
def rateReaches (n calls : ℕ) (threshold : ℚ) : Bool :=
  if calls = 0 then 0 < n else threshold ≤ (n : ℚ) / calls

def tripOpen (now : ℕ) (b : CircuitBreaker) : CircuitBreaker where
  window := b.window.reset
  inner := { b.inner with state := .Open, openedAt := some now }

/-- The write-lock part of `record_outcome`, on the window counts read before
the lock was taken. -/
def recordLocked (cfg : BreakerConfig) (now : ℕ) (error slow : Bool) (snap : ℕ × ℕ × ℕ)
    (b : CircuitBreaker) : CircuitBreaker :=
  match b.inner.state with
  | .Closed =>
    let b' := if cfg.windowSize ≤ snap.1 then { b with window := b.window.reset } else b
    if cfg.minCalls ≤ snap.1 ∧
        (rateReaches snap.2.1 snap.1 cfg.errorRateThreshold ∨
          rateReaches snap.2.2 snap.1 cfg.slowCallRatioThreshold) then
      b'.tripOpen now
    else b'
  | .HalfOpen =>
    let b' := { b with inner := { b.inner with halfOpenProbeInFlight := false } }
    if error || slow then b'.tripOpen now
    else { window := b'.window.reset, inner := { b'.inner with state := .Closed } }
  | .Open => b

def isSlow (cfg : BreakerConfig) (duration : ℕ) : Bool := cfg.slowCallDuration ≤ duration

/-- `record_outcome` with nothing between its parts. -/
def recordOutcome (cfg : BreakerConfig) (now : ℕ) (error : Bool) (duration : ℕ)
    (b : CircuitBreaker) : CircuitBreaker :=
  let slow := isSlow cfg duration
  let b := { b with window := b.window.record error slow }
  b.recordLocked cfg now error slow b.window.snapshot

end CircuitBreaker

end RTB
