import RtbBidder.Lib.Tasks
import RtbBidder.Spec.Model
import RtbBidder.Spec.RedisCalls
import RtbBidder.Spec.WinNotice

/-! The segment lookups of `UserEnrichmentStage`: `SegmentCache::get_or_fetch` over
`RedisSegmentRepo::segments_for`. The cache is moka's `try_get_with`: of the requests
that miss on one user, one runs the fetch and the others wait for it, and the result is
stored if it is `Ok`. Requests interleave at their awaits and can be dropped there.
Redis contents, evictions and what the other calls do to the shared breaker are events. -/

namespace RTB

def segKey (userId : String) : String := "v1:seg:\x7bu:" ++ userId ++ "\x7d"

/-- `u32::from_le_bytes` over `chunks_exact(4)`. -/
def segmentIdsOf : Bytes → List SegmentId
  | a :: b :: c :: d :: rest =>
    UInt32.ofNat (a.toNat + 2 ^ 8 * b.toNat + 2 ^ 16 * c.toNat + 2 ^ 24 * d.toNat) ::
      segmentIdsOf rest
  | _ => []

/-- What `segments_for` makes of the reply to its `GET`. -/
def decodeSegments (userId : String) : Option Bytes → Except String (List SegmentId)
  | none => .ok []
  | some bytes =>
    if bytes.length % 4 ≠ 0 then
      .error ("segment value for " ++ segKey userId ++ " has length " ++ toString bytes.length ++
        " — not a multiple of 4")
    else .ok (segmentIdsOf bytes)

/-- How the hedged `GET` of a fetch ends: with the `k`-th of the values the server read
for it, or with an error. -/
inductive GetReply
  | answer (k : ℕ)
  | failed (error : String)
  deriving DecidableEq, Repr

/-- A `segments_for` call, with the values the server has read for it so far and, once
the `GET` is over, what it returned. -/
structure Fetch where
  call : RedisCall
  answers : List (Option Bytes)
  got : Option (Except String (Option Bytes))

namespace Fetch

def new : Fetch := ⟨.admission, [], none⟩

/-- What `segments_for` returns at the end of the call. -/
def result (userId : String) (f : Fetch) : Except String (List SegmentId) :=
  match f.got with
  -- the breaker refused the call
  | none => .ok []
  | some (.error e) => .error e
  | some (.ok reply) => decodeSegments userId reply

/-- The next step of the call. It is over once there is no next state. -/
def step (cfg : BreakerConfig) (now : ℕ) (b : CircuitBreaker) (reply : GetReply) (duration : ℕ)
    (f : Fetch) : Option (CircuitBreaker × Option Fetch) :=
  match f.call with
  | .running =>
    match reply with
    | .failed e => some (b, some { f with call := .record true duration, got := some (.error e) })
    | .answer k =>
      (f.answers[k]?).map fun v =>
        (b, some { f with call := .record false duration, got := some (.ok v) })
  | call =>
    let r := call.step cfg now b .answered duration
    some (r.1, r.2.map fun c => { f with call := c })

end Fetch

/-- Where the enrichment of a request is. -/
inductive SegmentTask
  /-- the cache lookup comes next -/
  | lookup
  /-- runs the fetch for its user -/
  | fetching (f : Fetch)
  /-- waits for the request that runs the fetch for its user -/
  | waiting
  | returned (result : Except String (List SegmentId))
  | dropped

structure SegmentRequest where
  userId : String
  task : SegmentTask

namespace SegmentRequest

def fetches (userId : String) (r : SegmentRequest) : Bool :=
  match r.task with
  | .fetching _ => r.userId = userId
  | _ => false

/-- A request that waits for the fetch of `userId` goes on to `task`. -/
def wake (userId : String) (task : SegmentTask) (r : SegmentRequest) : SegmentRequest :=
  match r.task with
  | .waiting => if r.userId = userId then { r with task := task } else r
  | _ => r

end SegmentRequest

/-- A cached value. The code keeps the segments only; `source` is the reply they were
decoded from, `none` if they come from no reply. -/
structure SegmentEntry where
  segments : List SegmentId
  source : Option (Option Bytes)
  deriving DecidableEq, Repr

structure SegmentSystem where
  now : ℕ
  breaker : CircuitBreaker
  redis : String → Option Bytes
  cache : String → Option SegmentEntry
  requests : List SegmentRequest
  /-- every `GET` the server has executed for `segments_for`, with what it read -/
  reads : List (String × Option Bytes)

inductive SegmentEvent
  | advance (d : ℕ)
  /-- a segment key is written or deleted -/
  | redis (key : String) (value : Option Bytes)
  /-- the frequency cappers' calls leave the shared breaker in this state -/
  | breaker (b : CircuitBreaker)
  /-- an entry expires or is evicted -/
  | evict (userId : String)
  | request (userId : String)
  /-- the server executes a `GET` that the fetch of a request has sent -/
  | serve (i : ℕ)
  | step (i : ℕ) (reply : GetReply) (duration : ℕ)
  | drop (i : ℕ)
  deriving DecidableEq, Repr

namespace SegmentSystem

def init : SegmentSystem where
  now := 0
  breaker := .new
  redis := fun _ => none
  cache := fun _ => none
  requests := []
  reads := []

def setRequest (s : SegmentSystem) (i : ℕ) (r : SegmentRequest) : SegmentSystem :=
  { s with requests := s.requests.set i r }

/-- Wake the requests that wait for the fetch of `userId`. -/
def wakeAll (s : SegmentSystem) (userId : String) (task : SegmentTask) : SegmentSystem :=
  { s with requests := s.requests.map (·.wake userId task) }

/-- The fetch of request `i` is over: an `Ok` result is stored, and the request and those
that wait for it return it. -/
def finish (s : SegmentSystem) (i : ℕ) (r : SegmentRequest) (f : Fetch) : SegmentSystem :=
  let result := f.result r.userId
  let stored := match result with
    | .ok segments =>
      { s with cache := Function.update s.cache r.userId
                 (some ⟨segments, f.got.bind Except.toOption⟩) }
    | .error _ => s
  (stored.setRequest i { r with task := .returned result }).wakeAll r.userId (.returned result)

def lookup (s : SegmentSystem) (r : SegmentRequest) : SegmentTask :=
  match s.cache r.userId with
  | some entry => .returned (.ok entry.segments)
  | none => if s.requests.any (·.fetches r.userId) then .waiting else .fetching .new

def stepRequest (cfg : BreakerConfig) (s : SegmentSystem) (i : ℕ) (r : SegmentRequest)
    (reply : GetReply) (duration : ℕ) : Option SegmentSystem :=
  match r.task with
  | .lookup => some (s.setRequest i { r with task := s.lookup r })
  | .fetching f =>
    (f.step cfg s.now s.breaker reply duration).map fun n =>
      let s := { s with breaker := n.1 }
      match n.2 with
      | some f' => s.setRequest i { r with task := .fetching f' }
      | none => s.finish i r f
  | _ => none

def serve (s : SegmentSystem) (i : ℕ) (r : SegmentRequest) : Option SegmentSystem :=
  match r.task with
  | .fetching f =>
    if f.call = .running then
      let value := s.redis (segKey r.userId)
      let s := { s with reads := s.reads ++ [(r.userId, value)] }
      some (s.setRequest i { r with task := .fetching { f with answers := f.answers ++ [value] } })
    else none
  | _ => none

/-- The request is dropped; if it ran the fetch, those that wait for it start over. -/
def drop (s : SegmentSystem) (i : ℕ) (r : SegmentRequest) : Option SegmentSystem :=
  match r.task with
  | .fetching _ => some ((s.setRequest i { r with task := .dropped }).wakeAll r.userId .lookup)
  | .returned _ => none
  | _ => some (s.setRequest i { r with task := .dropped })

def step (cfg : BreakerConfig) (s : SegmentSystem) : SegmentEvent → Option SegmentSystem
  | .advance d => some { s with now := s.now + d }
  | .redis key value => some { s with redis := Function.update s.redis key value }
  | .breaker b => some { s with breaker := b }
  | .evict userId => some { s with cache := Function.update s.cache userId none }
  | .request userId => some { s with requests := s.requests ++ [⟨userId, .lookup⟩] }
  | .serve i => (s.requests[i]?).bind (s.serve i)
  | .step i reply duration => (s.requests[i]?).bind fun r => s.stepRequest cfg i r reply duration
  | .drop i => (s.requests[i]?).bind (s.drop i)

/-- The runs of any number of requests from an empty cache and a new breaker. -/
abbrev Reached (cfg : BreakerConfig) : List SegmentEvent → SegmentSystem → Prop :=
  Lib.Run (· = init) (Lib.Steps (step cfg))

end SegmentSystem

end RTB
