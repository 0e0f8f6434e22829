import RtbBidder.Spec.Hedge

/-! The feedback loop of `bidder-core/src/hedge_feedback.rs` with what it reads and steers:
the `timeout_middleware` of `bidder-server/src/server/routes.rs`, the latency records of the
Redis call sites and the hedge budget. Everything interleaves at single atomic operations.
The `u64` totals are natural numbers, taken to stay below `2 ^ 64`. -/

namespace RTB

structure LoadShedTracker where
  requestsTotal : ℕ
  shedTotal : ℕ
  deriving DecidableEq, Repr

namespace LoadShedTracker

def recordRequest (t : LoadShedTracker) : LoadShedTracker :=
  { t with requestsTotal := t.requestsTotal + 1 }

def recordShed (t : LoadShedTracker) : LoadShedTracker := { t with shedTotal := t.shedTotal + 1 }

end LoadShedTracker

structure RedisLatencyTracker where
  count : ℕ
  sumUs : ℕ
  deriving DecidableEq, Repr

/-- Where a request is in `timeout_middleware`. -/
inductive MiddlewareCall
  /-- `record_request` comes next -/
  | accepted
  /-- awaits the inner service or the timeout -/
  | running
  /-- a 503 of the inner service or the timeout, `record_shed` comes next -/
  | shedding
  | responded (shed : Bool)
  /-- dropped with its connection -/
  | dropped
  deriving DecidableEq, Repr

inductive MiddlewareInput
  /-- the next atomic operation -/
  | op
  /-- the inner service responds with this status -/
  | returns (status : ℕ)
  | timeout
  | drop
  deriving DecidableEq, Repr

def MiddlewareCall.step (t : LoadShedTracker) :
    MiddlewareCall → MiddlewareInput → Option (LoadShedTracker × MiddlewareCall)
  | .accepted, .op => some (t.recordRequest, .running)
  | .running, .returns status => some (t, if status = 503 then .shedding else .responded false)
  | .running, .timeout => some (t, .shedding)
  | .running, .drop => some (t, .dropped)
  | .shedding, .op => some (t.recordShed, .responded true)
  | _, _ => none

/-- Where a `RedisLatencyTracker::record` of `us` microseconds is. -/
inductive LatencyRecord
  | count (us : ℕ)
  | sum (us : ℕ)
  | done (us : ℕ)
  deriving DecidableEq, Repr

def LatencyRecord.step (t : RedisLatencyTracker) :
    LatencyRecord → Option (RedisLatencyTracker × LatencyRecord)
  | .count us => some ({ t with count := t.count + 1 }, .sum us)
  | .sum us => some ({ t with sumUs := t.sumUs + us }, .done us)
  | .done _ => none

/-- The share of a window's requests that were shed. -/
def shedRate (deltaTotal deltaShed : ℕ) : Lib.F64 :=
  if 0 < deltaTotal then (.ofRat deltaShed : Lib.F64).div (.ofRat deltaTotal) else .fin 0

/-- `((sum_us as f64 / count as f64 * 1.7) / 1000.0).ceil() as u64` -/
def p95Estimate (count sumUs : ℕ) : ℕ :=
  ((((.ofRat sumUs : Lib.F64).div (.ofRat count)).mul (.ofRat (17 / 10))).div (.ofRat 1000)).ceilU64

/-- Where a turn of the feedback loop is. -/
inductive LoopPhase
  /-- awaits the tick, the load of `requests_total` comes next -/
  | tick
  /-- the load of `shed_total` comes next -/
  | snapshot (curTotal : ℕ)
  /-- in `set_load_shed_rate` -/
  | setRate
  /-- `drain`, the swap of the count comes next -/
  | drain
  /-- `drain`, the swap of the sum comes next -/
  | drainSum (count : ℕ)
  | updateP95 (ms : ℕ)
  deriving DecidableEq, Repr

structure FeedbackSystem (T : Type*) where
  hedge : HedgeSystem T
  p95Ms : ℕ
  loadShed : LoadShedTracker
  redisLatency : RedisLatencyTracker
  requests : List MiddlewareCall
  records : List LatencyRecord
  phase : LoopPhase
  prevTotal : ℕ
  prevShed : ℕ
  /-- the requests and sheds that each turn has computed its rate from -/
  windows : List (ℕ × ℕ)
  /-- the count and sum that each turn has drained -/
  drained : List (ℕ × ℕ)
  deriving DecidableEq, Repr

inductive FeedbackEvent (T : Type*)
  | hedgedCall
  | input (call : ℕ) (x : HedgeInput T)
  | request
  | middleware (i : ℕ) (x : MiddlewareInput)
  | record (us : ℕ)
  | recordOp (i : ℕ)
  /-- the next atomic operation of the feedback loop -/
  | loop
  deriving DecidableEq, Repr

namespace FeedbackSystem

variable {T : Type*}

def init (nominal : UInt64) : FeedbackSystem T where
  hedge := .init nominal
  p95Ms := 0
  loadShed := ⟨0, 0⟩
  redisLatency := ⟨0, 0⟩
  requests := []
  records := []
  phase := .tick
  prevTotal := 0
  prevShed := 0
  windows := []
  drained := []

/-- `RedisHedgeState::trigger` in milliseconds. -/
def trigger (s : FeedbackSystem T) : ℕ := max s.p95Ms 8

/-- The rate of the window that the snapshot ends, and the call of `set_load_shed_rate`. -/
def endWindow (s : FeedbackSystem T) (curTotal curShed : ℕ) : Option (FeedbackSystem T) :=
  let deltaTotal := curTotal - s.prevTotal
  let deltaShed := curShed - s.prevShed
  (s.hedge.step (.setLoadShedRate (shedRate deltaTotal deltaShed))).map fun hedge =>
    { s with
      hedge := hedge
      phase := .setRate
      prevTotal := curTotal
      prevShed := curShed
      windows := s.windows ++ [(deltaTotal, deltaShed)] }

/-- The next atomic operation of the loop. -/
def loopStep (s : FeedbackSystem T) : Option (FeedbackSystem T) :=
  match s.phase with
  | .tick => some { s with phase := .snapshot s.loadShed.requestsTotal }
  | .snapshot curTotal => s.endWindow curTotal s.loadShed.shedTotal
  | .setRate =>
    (s.hedge.step .feedback).map fun hedge =>
      { s with hedge := hedge, phase := if hedge.feedback = .idle then .drain else .setRate }
  | .drain =>
    some { s with
      redisLatency := { s.redisLatency with count := 0 }
      phase := .drainSum s.redisLatency.count }
  | .drainSum count =>
    some { s with
      redisLatency := { s.redisLatency with sumUs := 0 }
      drained := s.drained ++ [(count, s.redisLatency.sumUs)]
      -- an empty window leaves the estimate as it is
      phase := if 0 < count then .updateP95 (p95Estimate count s.redisLatency.sumUs) else .tick }
  | .updateP95 ms => some { s with p95Ms := ms, phase := .tick }

def step (s : FeedbackSystem T) : FeedbackEvent T → Option (FeedbackSystem T)
  | .hedgedCall => (s.hedge.step .hedgedCall).map fun hedge => { s with hedge := hedge }
  | .input i x => (s.hedge.step (.input i x)).map fun hedge => { s with hedge := hedge }
  | .request => some { s with requests := s.requests ++ [.accepted] }
  | .middleware i x =>
    (s.requests[i]?.bind (·.step s.loadShed x)).map fun r =>
      { s with loadShed := r.1, requests := s.requests.set i r.2 }
  | .record us => some { s with records := s.records ++ [.count us] }
  | .recordOp i =>
    (s.records[i]?.bind (·.step s.redisLatency)).map fun r =>
      { s with redisLatency := r.1, records := s.records.set i r.2 }
  | .loop => s.loopStep

abbrev Reached (nominal : UInt64) : List (FeedbackEvent T) → FeedbackSystem T → Prop :=
  Lib.Run (· = init nominal) (Lib.Steps step)

end FeedbackSystem

end RTB
