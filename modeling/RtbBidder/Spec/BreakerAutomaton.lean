import RtbBidder.Lib.Blocks
import RtbBidder.Spec.Breaker

/-! What the circuit breaker is for: an automaton that remembers the outcomes of the
current closed period themselves, and the sequential use of a breaker that it is
compared with. -/

namespace RTB

inductive BreakerOp
  | allowRequest
  | recordOutcome (error : Bool) (duration : ℕ)
  | advance (duration : ℕ)
  deriving DecidableEq, Repr

/-- A breaker used by one caller: the clock, the breaker and the answers so far. -/
structure BreakerUse where
  now : ℕ
  breaker : CircuitBreaker
  answers : List Bool
  deriving DecidableEq, Repr

namespace BreakerUse

def init : BreakerUse := ⟨0, .new, []⟩

def step (cfg : BreakerConfig) (s : BreakerUse) : BreakerOp → BreakerUse
  | .allowRequest =>
    let r := s.breaker.allowRequest cfg s.now
    { s with breaker := r.2, answers := s.answers ++ [r.1] }
  | .recordOutcome error duration =>
    { s with breaker := s.breaker.recordOutcome cfg s.now error duration }
  | .advance d => { s with now := s.now + d }

def run (cfg : BreakerConfig) (ops : List BreakerOp) : BreakerUse := ops.foldl (step cfg) init

end BreakerUse

structure Outcome where
  error : Bool
  slow : Bool
  deriving DecidableEq, Repr

namespace BreakerAutomaton

inductive Phase
  /-- the outcomes since the breaker last became closed -/
  | Closed (outcomes : List Outcome)
  | Open (since : ℕ)
  | HalfOpen
  deriving DecidableEq, Repr

def Phase.state : Phase → BreakerState
  | .Closed _ => .Closed
  | .Open _ => .Open
  | .HalfOpen => .HalfOpen

/-- The outcomes are cut into blocks of `max 1 window_size`; the last one opens the
breaker by what has been seen of its block. -/
def Trips (cfg : BreakerConfig) (outcomes : List Outcome) : Prop :=
  let block := Lib.lastBlock (max 1 cfg.windowSize) outcomes
  cfg.minCalls ≤ block.length ∧
    (cfg.errorRateThreshold ≤ (block.countP (·.error) : ℚ) / block.length ∨
      cfg.slowCallRatioThreshold ≤ (block.countP (·.slow) : ℚ) / block.length)

instance (cfg : BreakerConfig) (outcomes : List Outcome) : Decidable (Trips cfg outcomes) :=
  inferInstanceAs (Decidable (_ ∧ _))

def allowRequest (cfg : BreakerConfig) (now : ℕ) : Phase → Bool × Phase
  | .Closed outcomes => (true, .Closed outcomes)
  | .Open since => if since + cfg.openDuration ≤ now then (true, .HalfOpen) else (false, .Open since)
  | .HalfOpen => (false, .HalfOpen)

def recordOutcome (cfg : BreakerConfig) (now : ℕ) (o : Outcome) : Phase → Phase
  | .Closed outcomes =>
    if Trips cfg (outcomes ++ [o]) then .Open now else .Closed (outcomes ++ [o])
  | .Open since => .Open since
  | .HalfOpen => if o.error || o.slow then .Open now else .Closed []

end BreakerAutomaton

structure BreakerAutomaton where
  now : ℕ
  phase : BreakerAutomaton.Phase
  answers : List Bool
  deriving DecidableEq, Repr

namespace BreakerAutomaton

def init : BreakerAutomaton := ⟨0, .Closed [], []⟩

def step (cfg : BreakerConfig) (s : BreakerAutomaton) : BreakerOp → BreakerAutomaton
  | .allowRequest =>
    let r := allowRequest cfg s.now s.phase
    { s with phase := r.2, answers := s.answers ++ [r.1] }
  | .recordOutcome error duration =>
    { s with phase := recordOutcome cfg s.now ⟨error, cfg.slowCallDuration ≤ duration⟩ s.phase }
  | .advance d => { s with now := s.now + d }

def run (cfg : BreakerConfig) (ops : List BreakerOp) : BreakerAutomaton :=
  ops.foldl (step cfg) init

end BreakerAutomaton

end RTB
