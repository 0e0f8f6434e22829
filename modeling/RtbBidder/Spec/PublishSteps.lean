import RtbBidder.Spec.KafkaIncident

/-! `KafkaEventPublisher::publish` of `bidder-server/src/kafka.rs`, the delivery callbacks of
its poll thread and the monitor, interleaved at single atomic operations, once the producer
has been created. The `u64` totals and the sample counter are natural numbers, taken to stay
below `2 ^ 64`. -/

namespace RTB

def RANDOM_SAMPLE_DENOMINATOR : ℕ := 10

/-- Where a call of `publish` is. -/
inductive PublishCall
  /-- the load of the effective policy comes next -/
  | load
  /-- the `fetch_add` on the sample counter comes next -/
  | sample
  /-- sampled out, `record_dropped` comes next -/
  | skip
  | skipped
  /-- `producer.send` comes next -/
  | send
  /-- the producer has not taken the event, `record_dropped` comes next -/
  | refused
  | failed
  /-- returned with the event in the producer's queue -/
  | enqueued
  deriving DecidableEq, Repr

namespace PublishCall

/-- The call has been told to leave its event out. -/
def sampledOut : PublishCall → Bool
  | .skip | .skipped => true
  | _ => false

/-- The call has asked the producer to take its event. -/
def asked : PublishCall → Bool
  | .refused | .failed | .enqueued => true
  | _ => false

/-- The call has returned. -/
def returned : PublishCall → Bool
  | .skipped | .failed | .enqueued => true
  | _ => false

end PublishCall

/-- Where a turn of the monitor is. -/
inductive MonitorPhase
  /-- awaits the tick, the load of `published_total` comes next -/
  | tick
  /-- the load of `dropped_total` comes next -/
  | snapshot (published : ℕ)
  /-- has decided; a policy that stays is not stored, which makes no difference -/
  | store (policy : EffectivePolicy)
  deriving DecidableEq, Repr

structure PublishSystem where
  state : KafkaIncidentState
  monitor : Monitor
  phase : MonitorPhase
  sampleCounter : ℕ
  calls : List PublishCall
  /-- the events in the producer whose delivery callback has not run -/
  inFlight : ℕ
  deriving DecidableEq, Repr

inductive PublishEvent
  /-- a new call of `publish` -/
  | publish
  /-- the next operation of a call; `result` is what `send` returns if it is that -/
  | op (call : ℕ) (result : SendResult)
  | delivery (acked : Bool)
  /-- the next operation of the monitor -/
  | monitor
  deriving DecidableEq, Repr

namespace PublishSystem

def init (policy : KafkaDropPolicy) : PublishSystem where
  state := .new policy
  monitor := ⟨(0, 0), 0, 0, false⟩
  phase := .tick
  sampleCounter := 0
  calls := []
  inFlight := 0

/-- The next operation of a call, and where the call is after it. -/
def callStep (s : PublishSystem) (result : SendResult) :
    PublishCall → Option (PublishSystem × PublishCall)
  | .load => some (s, if s.state.effective = .RandomSample then .sample else .send)
  | .sample =>
    let n := s.sampleCounter
    some ({ s with sampleCounter := n + 1 },
      if n % RANDOM_SAMPLE_DENOMINATOR ≠ 0 then .skip else .send)
  | .skip => some ({ s with state := s.state.recordDropped }, .skipped)
  | .send =>
    match result with
    | .enqueued => some ({ s with inFlight := s.inFlight + 1 }, .enqueued)
    | .queueFull | .enqueueError => some (s, .refused)
  | .refused => some ({ s with state := s.state.recordDropped }, .failed)
  | .skipped | .failed | .enqueued => none

def monitorStep (cfg : MonitorConfig) (s : PublishSystem) : PublishSystem :=
  match s.phase with
  | .tick => { s with phase := .snapshot s.state.publishedTotal }
  | .snapshot published =>
    let r := s.monitor.tick cfg { s.state with publishedTotal := published }
    { s with monitor := r.2, phase := .store r.1.effective }
  | .store policy => { s with state := { s.state with effective := policy }, phase := .tick }

def step (cfg : MonitorConfig) (s : PublishSystem) : PublishEvent → Option PublishSystem
  | .publish => some { s with calls := s.calls ++ [.load] }
  | .op i result =>
    (s.calls[i]?).bind fun c =>
      (s.callStep result c).map fun r => { r.1 with calls := r.1.calls.set i r.2 }
  | .delivery acked =>
    if s.inFlight = 0 then none
    else some { s with
      inFlight := s.inFlight - 1
      state := if acked then s.state.recordPublished else s.state.recordDropped }
  | .monitor => some (s.monitorStep cfg)

abbrev Reached (cfg : MonitorConfig) (policy : KafkaDropPolicy) :
    List PublishEvent → PublishSystem → Prop :=
  Lib.Run (· = init policy) (Lib.Steps (step cfg))

end PublishSystem

end RTB
