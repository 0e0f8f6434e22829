import RtbBidder.Lib.Channel
import RtbBidder.Lib.Run
import RtbBidder.Spec.Frequency

/-! The frequency-cap side of one bidder process with the in-process capper on:
the moka cache of per-user maps, the write-behind channel and its drain, the
impression recorder with its workers, and the Redis counters. Every shared access
of a call is a step of its own, so calls interleave in any order. -/

namespace RTB

/-- Campaign to (day, hour) counters of one user. -/
abbrev UserCapMap := HashMap CampaignId (ℤ × ℤ)

namespace UserCapMap

/-- `record_impression`: insert zero counters if there are none, then count. -/
def incr (m : UserCapMap) (c : CampaignId) : UserCapMap :=
  m.insert c (match m.lookup c with
    | some (day, hour) => (day + 1, hour + 1)
    | none => (1, 1))

/-- `warm_cache`: insert the counts, or raise the counters there to them. -/
def warm (m : UserCapMap) (c : CampaignId) (day hour : ℤ) : UserCapMap :=
  m.insert c (match m.lookup c with
    | some (d, h) => (max d day, max h hour)
    | none => (day, hour))

end UserCapMap

structure WriteBehindOp where
  userId : String
  campaignId : CampaignId
  window : CapWindow
  deriving DecidableEq, Repr

/-- A `record_impression` call: it holds the user's map, has counted, has sent the day
write, has returned. -/
inductive RecordPhase
  | got (map : ℕ)
  | counted
  | daySent
  | returned
  deriving DecidableEq, Repr

structure RecordCall where
  userId : String
  campaignId : CampaignId
  phase : RecordPhase
  deriving DecidableEq, Repr

/-- An `InProcessFrequencyCapper::check` call: looking up its candidates one by one,
about to ask the fallback for the cold ones, writing the fallback's results back (with
the user's map in hand for a result with counts), done. -/
inductive CheckPhase
  | lookups (todo : List AdCandidate)
  | fallback
  | warming (todo : List CapResult) (map : Option ℕ)
  | returned

structure CheckCall where
  userId : String
  results : List CapResult
  cold : List AdCandidate
  phase : CheckPhase

/-- An impression event in the hands of a worker. -/
structure Write where
  event : ImpressionEvent
  hourDone : Bool

structure CapSystem where
  /-- every per-user map ever allocated, with the user it was allocated for -/
  maps : List (String × UserCapMap)
  cache : String → Option ℕ
  /-- maps removed from the cache whose eviction listener has not run -/
  evicted : List (String × ℕ)
  writes : Lib.Channel WriteBehindOp
  recorder : Lib.Channel ImpressionEvent
  workers : List Write
  redis : String → Option ℤ
  records : List RecordCall
  checks : List CheckCall
  /-- what the drain has handed to the recorder -/
  forwarded : List ImpressionEvent

inductive CapEvent
  /-- a call of `record_impression` gets the user's map -/
  | callRecord (userId : String) (campaignId : CampaignId)
  | stepRecord (i : ℕ)
  | callCheck (userId : String) (candidates : List AdCandidate)
  | stepCheck (i : ℕ)
  /-- the fallback of a check returns without counts -/
  | skipFallback (i : ℕ)
  | evict (userId : String)
  /-- the eviction listener runs for the `i`-th evicted map -/
  | flush (i : ℕ)
  /-- one turn of `in_process_write_behind_drain` -/
  | drain
  /-- the win handler records an accepted notice -/
  | win (event : ImpressionEvent)
  /-- a worker takes an event off the recorder's channel -/
  | take
  /-- a worker runs its next counter script -/
  | write (i : ℕ)

namespace CapSystem

def init (writeBufferSize : ℕ) (redis : String → Option ℤ) : CapSystem where
  maps := []
  cache := fun _ => none
  evicted := []
  writes := .empty writeBufferSize
  recorder := .empty 65536
  workers := []
  redis := redis
  records := []
  checks := []
  forwarded := []

def mapAt (s : CapSystem) (i : ℕ) : Option UserCapMap := (s.maps[i]?).map Prod.snd

def lookup (s : CapSystem) (userId : String) (c : CampaignId) : Option (ℤ × ℤ) :=
  (s.cache userId).bind fun i => (s.mapAt i).bind (·.lookup c)

/-- `get_with_by_ref`: the user's map, a fresh one if there is none. -/
def getWith (s : CapSystem) (userId : String) : ℕ × CapSystem :=
  match s.cache userId with
  | some i => (i, s)
  | none => (s.maps.length, { s with maps := s.maps ++ [(userId, ∅)],
                                     cache := Function.update s.cache userId s.maps.length })

def modifyMap (s : CapSystem) (i : ℕ) (f : UserCapMap → UserCapMap) : CapSystem :=
  { s with maps := s.maps.modify i fun m => (m.1, f m.2) }

def trySend (s : CapSystem) (op : WriteBehindOp) : CapSystem :=
  { s with writes := (s.writes.trySend op).2 }

def stepRecord (s : CapSystem) (r : RecordCall) : RecordCall × CapSystem :=
  match r.phase with
  | .got i => ({ r with phase := .counted }, s.modifyMap i (·.incr r.campaignId))
  | .counted => ({ r with phase := .daySent }, s.trySend ⟨r.userId, r.campaignId, .Day⟩)
  | .daySent => ({ r with phase := .returned }, s.trySend ⟨r.userId, r.campaignId, .Hour⟩)
  | .returned => (r, s)

def stepCheck (s : CapSystem) (c : CheckCall) : CheckCall × CapSystem :=
  match c.phase with
  | .lookups (cand :: todo) =>
    let found := s.lookup c.userId cand.campaignId
    ({ c with
        results := c.results ++ [InProcessFrequencyCapper.lookupResult found cand]
        cold := if found.isNone then c.cold ++ [cand] else c.cold
        phase := .lookups todo }, s)
  | .lookups [] => ({ c with phase := if c.cold.isEmpty then .returned else .fallback }, s)
  | .fallback =>
    match RedisFrequencyCapper.check s.redis c.userId c.cold with
    | .Checked fbs => ({ c with phase := .warming fbs none }, s)
    | _ => ({ c with phase := .returned }, s)
  | .warming (fb :: todo) none =>
    if fb.dayCount.isSome ∧ fb.hourCount.isSome then
      let r := s.getWith c.userId
      ({ c with phase := .warming (fb :: todo) (some r.1) }, r.2)
    else
      ({ c with results := InProcessFrequencyCapper.patch fb c.results
                phase := .warming todo none }, s)
  | .warming (fb :: todo) (some i) =>
    ({ c with results := InProcessFrequencyCapper.patch fb c.results, phase := .warming todo none },
      s.modifyMap i (·.warm fb.campaignId (fb.dayCount.getD 0) (fb.hourCount.getD 0)))
  | .warming [] _ => ({ c with phase := .returned }, s)
  | .returned => (c, s)

/-- The writes the eviction listener sends for a map. -/
def flushOps (userId : String) (m : UserCapMap) : List WriteBehindOp :=
  m.keys.flatMap fun c => [⟨userId, c, .Day⟩, ⟨userId, c, .Hour⟩]

/-- The event that the drain makes of a day write. -/
def drainEvent (op : WriteBehindOp) : ImpressionEvent := ⟨op.userId, op.campaignId, 0, 0, 0⟩

/-- The next script of `write_impression_counters`: first the hour key, then the day key. -/
def Write.key (w : Write) : String :=
  fcKey w.event.userId "c" w.event.campaignId (if w.hourDone then .Day else .Hour)

/-- `INCR`, with no key expiring. -/
def incr (redis : String → Option ℤ) (key : String) : String → Option ℤ :=
  Function.update redis key (some ((redis key).getD 0 + 1))

def step (s : CapSystem) : CapEvent → Option CapSystem
  | .callRecord userId c =>
    let r := s.getWith userId
    some { r.2 with records := r.2.records ++ [⟨userId, c, .got r.1⟩] }
  | .stepRecord i =>
    (s.records[i]?).map fun r =>
      let n := s.stepRecord r
      { n.2 with records := n.2.records.set i n.1 }
  | .callCheck userId candidates =>
    some { s with checks := s.checks ++ [⟨userId, [], [], .lookups candidates⟩] }
  | .stepCheck i =>
    (s.checks[i]?).map fun c =>
      let n := s.stepCheck c
      { n.2 with checks := n.2.checks.set i n.1 }
  | .skipFallback i =>
    match s.checks[i]? with
    | some ⟨u, results, cold, .fallback⟩ =>
      some { s with checks := s.checks.set i ⟨u, results, cold, .returned⟩ }
    | _ => none
  | .evict userId =>
    (s.cache userId).map fun i =>
      { s with cache := Function.update s.cache userId none, evicted := s.evicted ++ [(userId, i)] }
  | .flush k =>
    (s.evicted[k]?).map fun e =>
      { s with writes := s.writes.sendAll (((s.mapAt e.2).map (flushOps e.1)).getD [])
               evicted := s.evicted.eraseIdx k }
  | .drain =>
    s.writes.recv.map fun r =>
      if r.1.window = .Day then
        let sent := s.recorder.trySend (drainEvent r.1)
        { s with writes := r.2, recorder := sent.2
                 forwarded := if sent.1 then s.forwarded ++ [drainEvent r.1] else s.forwarded }
      else { s with writes := r.2 }
  | .win event => some { s with recorder := (s.recorder.trySend event).2 }
  | .take =>
    s.recorder.recv.map fun r => { s with recorder := r.2, workers := s.workers ++ [⟨r.1, false⟩] }
  | .write i =>
    (s.workers[i]?).map fun w =>
      { s with redis := incr s.redis (Write.key w)
               workers := if w.hourDone then s.workers.eraseIdx i
                          else s.workers.set i ⟨w.event, true⟩ }

/-- Started with an empty cache and empty queues over counters `redis`. -/
def Reached (writeBufferSize : ℕ) (redis : String → Option ℤ) (evs : List CapEvent)
    (s : CapSystem) : Prop :=
  Lib.Run (· = init writeBufferSize redis) (Lib.Steps step) evs s

/-- What a check of the in-process capper returns when it runs by itself now. -/
def check (s : CapSystem) (userId : String) (candidates : List AdCandidate) : FreqCapOutcome :=
  InProcessFrequencyCapper.check (s.lookup userId) (RedisFrequencyCapper.check s.redis userId)
    candidates

end CapSystem

end RTB
