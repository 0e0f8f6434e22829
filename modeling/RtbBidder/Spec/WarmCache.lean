import RtbBidder.Lib.Run
import RtbBidder.Lib.Tasks

/-! The counters of one (user, campaign) entry of the in-process capper, at the
granularity of single atomic operations: `warm_cache` holds the entry guard of the map
from its `entry` call to its end, and `record_impression` only while it clones the two
counters, which it then increments. Nothing is evicted. -/

namespace RTB

inductive CapCounter
  | day
  | hour
  deriving DecidableEq, Repr

/-- Where the `warm_cache` call that holds the guard is. -/
inductive WarmPhase
  | load (c : CapCounter)
  /-- it has loaded a smaller value, after `before` increments of the counter in all -/
  | store (c : CapCounter) (loaded : Int64) (before : ℕ)
  | release
  deriving DecidableEq, Repr

structure WarmCall where
  day : Int64
  hour : Int64
  phase : WarmPhase
  deriving DecidableEq, Repr

namespace WarmCall

def target (w : WarmCall) : CapCounter → Int64
  | .day => w.day
  | .hour => w.hour

def afterCounter : CapCounter → WarmPhase
  | .day => .load .hour
  | .hour => .release

end WarmCall

/-- A `record_impression` call that has cloned the counters: the next one to increment. -/
inductive RecordIncr
  | incr (c : CapCounter)
  | returned
  deriving DecidableEq, Repr

def RecordIncr.afterCounter : CapCounter → RecordIncr
  | .day => .incr .hour
  | .hour => .returned

structure CapEntry where
  counters : Option (CapCounter → Int64)
  warming : Option WarmCall
  records : List RecordIncr
  /-- how often each counter has been incremented -/
  incrs : CapCounter → ℕ

inductive CapEntryEvent
  /-- a `warm_cache` call gets the guard -/
  | warm (day hour : Int64)
  /-- its next atomic operation, or the release of the guard -/
  | stepWarm
  /-- a `record_impression` call gets the guard, clones the counters and drops it -/
  | record
  /-- a `record_impression` call's next increment -/
  | stepRecord (i : ℕ)
  deriving DecidableEq, Repr

namespace CapEntry

def init : CapEntry := ⟨none, none, [], fun _ => 0⟩

/-- `entry(campaign_id).or_insert_with` -/
def orInsert (s : CapEntry) (values : CapCounter → Int64) : CapEntry :=
  { s with counters := s.counters.or (some values) }

/-- Store to one counter. -/
def put (s : CapEntry) (c : CapCounter) (v : Int64) : CapEntry :=
  { s with counters := s.counters.map (Function.update · c v) }

def stepWarm (s : CapEntry) (w : WarmCall) : Option CapEntry :=
  match w.phase with
  | .load c =>
    s.counters.map fun v =>
      { s with warming := some { w with
          phase := if v c < w.target c then .store c (v c) (s.incrs c) else WarmCall.afterCounter c } }
  | .store c _ _ =>
    some { s.put c (w.target c) with warming := some { w with phase := WarmCall.afterCounter c } }
  | .release => some { s with warming := none }

/-- `AtomicCounter::incr`, which wraps around. -/
def incr (s : CapEntry) (c : CapCounter) : CapEntry :=
  { s with counters := s.counters.map fun v => Function.update v c (v c + 1)
           incrs := Function.update s.incrs c (s.incrs c + 1) }

def step (s : CapEntry) : CapEntryEvent → Option CapEntry
  | .warm day hour =>
    if s.warming.isSome then none
    else
      let w : WarmCall := ⟨day, hour, .load .day⟩
      some { s.orInsert w.target with warming := some w }
  | .stepWarm => s.warming.bind s.stepWarm
  | .record =>
    if s.warming.isSome then none
    else some { s.orInsert (fun _ => 0) with records := s.records ++ [.incr .day] }
  | .stepRecord i =>
    match s.records[i]? with
    | some (.incr c) =>
      some { s.incr c with records := s.records.set i (RecordIncr.afterCounter c) }
    | _ => none

abbrev Reached : List CapEntryEvent → CapEntry → Prop := Lib.Run (· = init) (Lib.Steps step)

end CapEntry

end RTB
