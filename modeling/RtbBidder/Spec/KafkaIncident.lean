import RtbBidder.Lib.Run

/-! The Kafka drop policy: the incident monitor of `bidder-core/src/kafka_incident.rs`
and the publisher of `bidder-server/src/kafka.rs` that it steers, as `main.rs` starts
them. A publish, a delivery callback and a tick of the monitor are one step each. The
drop rate is compared exactly, and the `u64` totals and the sample counter are taken to
stay below `2 ^ 64`. -/

namespace RTB

inductive KafkaDropPolicy
  | Newest
  | Oldest
  | RandomSample
  | IncidentMode
  deriving DecidableEq, Repr

inductive EffectivePolicy
  | Newest
  | Oldest
  | RandomSample
  deriving DecidableEq, Repr

def EffectivePolicy.ofDropPolicy : KafkaDropPolicy → EffectivePolicy
  | .Newest => .Newest
  | .Oldest => .Oldest
  | .RandomSample => .RandomSample
  | .IncidentMode => .Newest

structure KafkaIncidentState where
  basePolicy : EffectivePolicy
  effective : EffectivePolicy
  publishedTotal : ℕ
  droppedTotal : ℕ
  autoFlip : Bool
  deriving DecidableEq, Repr

namespace KafkaIncidentState

def new (base : KafkaDropPolicy) : KafkaIncidentState where
  basePolicy := .ofDropPolicy base
  effective := .ofDropPolicy base
  publishedTotal := 0
  droppedTotal := 0
  autoFlip := base = .IncidentMode

def recordPublished (st : KafkaIncidentState) : KafkaIncidentState :=
  { st with publishedTotal := st.publishedTotal + 1 }

def recordDropped (st : KafkaIncidentState) : KafkaIncidentState :=
  { st with droppedTotal := st.droppedTotal + 1 }

def snapshot (st : KafkaIncidentState) : ℕ × ℕ := (st.publishedTotal, st.droppedTotal)

end KafkaIncidentState

structure MonitorConfig where
  dwellTicks : UInt32
  threshold : ℚ

/-- What `main.rs` passes to `spawn_monitor`. -/
def MonitorConfig.production : MonitorConfig := ⟨10, 1 / 100⟩

/-- The local state of the loop of `spawn_monitor`. -/
structure Monitor where
  last : ℕ × ℕ
  overCount : ℕ
  underCount : ℕ
  inIncident : Bool
  deriving DecidableEq, Repr

namespace Monitor

/-- `u32::saturating_add(1)` -/
def saturatingSucc (n : ℕ) : ℕ := min (n + 1) (2 ^ 32 - 1)

/-- The share of dropped events between two snapshots. -/
def dropRate (last cur : ℕ × ℕ) : ℚ :=
  let pubDelta := cur.1 - last.1
  let dropDelta := cur.2 - last.2
  let total := pubDelta + dropDelta
  if total = 0 then 0 else (dropDelta : ℚ) / total

/-- The consecutive ticks over and under the threshold. -/
def countTick (cfg : MonitorConfig) (rate : ℚ) (m : Monitor) : Monitor :=
  if cfg.threshold < rate then
    { m with overCount := saturatingSucc m.overCount, underCount := 0 }
  else { m with underCount := saturatingSucc m.underCount, overCount := 0 }

/-- Start or end an incident once the counts have reached the dwell. -/
def flipPolicy (cfg : MonitorConfig) (st : KafkaIncidentState) (m : Monitor) :
    KafkaIncidentState × Monitor :=
  if m.inIncident = false ∧ cfg.dwellTicks.toNat ≤ m.overCount then
    ({ st with effective := .RandomSample }, { m with inIncident := true })
  else if m.inIncident = true ∧ cfg.dwellTicks.toNat ≤ m.underCount then
    ({ st with effective := st.basePolicy }, { m with inIncident := false })
  else (st, m)

/-- One turn of the loop. -/
def tick (cfg : MonitorConfig) (st : KafkaIncidentState) (m : Monitor) :
    KafkaIncidentState × Monitor :=
  let rate := dropRate m.last st.snapshot
  let m := { m with last := st.snapshot }
  if st.autoFlip = false then (st, m) else flipPolicy cfg st (countTick cfg rate m)

end Monitor

/-- What `producer.send` returns. -/
inductive SendResult
  | enqueued
  | queueFull
  | enqueueError
  deriving DecidableEq, Repr

/-- The publisher with its sample counter and the events the producer has enqueued and
not yet reported on, and the monitor. -/
structure IncidentSystem where
  state : KafkaIncidentState
  monitor : Monitor
  sampleCounter : ℕ
  inFlight : ℕ
  deriving DecidableEq, Repr

inductive IncidentEvent
  /-- a `publish`; `result` is what `send` returns if it is called -/
  | publish (result : SendResult)
  /-- the delivery callback of an enqueued event -/
  | delivery (acked : Bool)
  | tick
  deriving DecidableEq, Repr

namespace IncidentSystem

def init (policy : KafkaDropPolicy) : IncidentSystem where
  state := .new policy
  monitor := ⟨(0, 0), 0, 0, false⟩
  sampleCounter := 0
  inFlight := 0

def send (s : IncidentSystem) : SendResult → IncidentSystem
  | .enqueued => { s with inFlight := s.inFlight + 1 }
  | .queueFull => { s with state := s.state.recordDropped }
  | .enqueueError => { s with state := s.state.recordDropped }

def publish (s : IncidentSystem) (result : SendResult) : IncidentSystem :=
  if s.state.effective = .RandomSample then
    let n := s.sampleCounter
    let s := { s with sampleCounter := n + 1 }
    if n % 10 ≠ 0 then { s with state := s.state.recordDropped } else s.send result
  else s.send result

def step (cfg : MonitorConfig) (s : IncidentSystem) : IncidentEvent → Option IncidentSystem
  | .publish result => some (s.publish result)
  | .delivery acked =>
    if s.inFlight = 0 then none
    else some { s with
      inFlight := s.inFlight - 1
      state := if acked then s.state.recordPublished else s.state.recordDropped }
  | .tick =>
    let r := s.monitor.tick cfg s.state
    some { s with state := r.1, monitor := r.2 }

abbrev Reached (cfg : MonitorConfig) (policy : KafkaDropPolicy) :
    List IncidentEvent → IncidentSystem → Prop :=
  Lib.Run (· = init policy) (Lib.Steps (step cfg))

end IncidentSystem

/-- `char::is_whitespace` -/
def isWhitespace (c : Char) : Bool :=
  let n := c.toNat
  (9 ≤ n && n ≤ 13) || n == 0x20 || n == 0x85 || n == 0xA0 || n == 0x1680 ||
    (0x2000 ≤ n && n ≤ 0x200A) || n == 0x2028 || n == 0x2029 || n == 0x202F || n == 0x205F ||
    n == 0x3000

structure KafkaConfig where
  brokers : String
  queueCapacity : ℕ
  sendTimeoutMs : ℕ
  dropPolicy : KafkaDropPolicy
  deriving DecidableEq, Repr

/-- What `KafkaEventPublisher::new` asks of librdkafka and of the operating system. -/
structure KafkaClient where
  /-- the property names that librdkafka has -/
  known : String → Bool
  /-- `ClientConfig::create_with_context` -/
  create : List (String × String) → Except String Unit
  /-- `thread::Builder::spawn` of the poll thread -/
  spawnPollThread : Except String Unit
  /-- `rd_kafka_conf_set` fails on a name that librdkafka does not have -/
  create_unknown : ∀ conf, (∃ p ∈ conf, known p.1 = false) → ∃ err, create conf = .error err

/-- The `ClientConfig` of the producer. -/
def producerConfig (cfg : KafkaConfig) : List (String × String) :=
  [("bootstrap.servers", cfg.brokers),
    ("message.timeout.ms", toString cfg.sendTimeoutMs),
    ("queue.buffering.max.messages", toString cfg.queueCapacity),
    ("queue.buffering.max.ms", "5"),
    ("queue.full.behavior", "error")]

/-- `KafkaEventPublisher::new` -/
def KafkaEventPublisher.new (client : KafkaClient) (cfg : KafkaConfig) : Except String Unit :=
  -- `brokers.trim().is_empty()`
  if cfg.brokers.toList.all isWhitespace then
    .error "kafka.brokers is empty — Kafka publisher disabled by config"
  else do
    client.create (producerConfig cfg)
    client.spawnPollThread

/-- The implementations of `EventPublisher`. -/
inductive EventPublisher
  | kafka
  | noOp
  deriving DecidableEq, Repr

/-- The event publisher that `main.rs` serves bids with, and what it shares with the
monitor. -/
structure EventWiring where
  publisher : EventPublisher
  system : IncidentSystem
  deriving DecidableEq, Repr

namespace EventWiring

/-- The monitor is spawned in either case. -/
def start (client : KafkaClient) (cfg : KafkaConfig) : EventWiring where
  publisher :=
    match KafkaEventPublisher.new client cfg with
    | .ok _ => .kafka
    | .error _ => .noOp
  system := .init cfg.dropPolicy

def publish (w : EventWiring) (result : SendResult) : EventWiring :=
  match w.publisher with
  | .kafka => { w with system := w.system.publish result }
  | .noOp => w

def step (cfg : MonitorConfig) (w : EventWiring) : IncidentEvent → Option EventWiring
  | .publish result => some (w.publish result)
  | .delivery acked =>
    (w.system.step cfg (.delivery acked)).map fun system => { w with system := system }
  | .tick => (w.system.step cfg .tick).map fun system => { w with system := system }

abbrev Reached (client : KafkaClient) (kafka : KafkaConfig) (cfg : MonitorConfig) :
    List IncidentEvent → EventWiring → Prop :=
  Lib.Run (· = start client kafka) (Lib.Steps (step cfg))

end EventWiring

end RTB
