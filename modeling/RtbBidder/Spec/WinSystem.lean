import RtbBidder.Lib.Channel
import RtbBidder.Lib.Run
import RtbBidder.Spec.Frequency
import RtbBidder.Spec.WinNotice

/-! The win path of a bidder: the `win` handlers of
`bidder-server/src/server/handlers.rs`, the dedup keys and frequency counters on
the Redis server with their expiry, and the impression workers of
`bidder-server/src/freq_cap.rs`. Time is in milliseconds. A `SET` that was sent may
be executed at any later time, more than once if the client retries it, or never. A
counter script is taken to run once for each window written, or to fail: no retry of the
client's runs it again. -/

namespace RTB

/-- A `win` handler: about to check the token, waiting for the dedup `SET`, past both
gates, past the impression record, returned; or dropped by the HTTP timeout. -/
inductive WinPhase
  | received
  | waiting
  | accepted
  | recorded
  | returned (gate : WinNoticeGate)
  | cancelled
  deriving DecidableEq, Repr

structure WinEvent where
  requestId : String
  impId : String
  campaignId : CampaignId
  creativeId : CreativeId
  clearingPriceMicros : Int64
  timestampMs : Int64
  userId : String
  deriving DecidableEq, Repr

/-- `current_hour_of_day` -/
def currentHourOfDay (now : ℕ) : UInt8 := UInt8.ofNat (now / 1000 % 86400 / 3600)

namespace WinParams

/-- The impression to record, unless the notice names no user. -/
def impression (p : WinParams) (now : ℕ) : Option ImpressionEvent :=
  (p.userId.filter fun uid => decide (uid ≠ "")).map fun uid =>
    ⟨uid, p.campaignId, p.creativeId, 0, currentHourOfDay now⟩

def winEvent (p : WinParams) (now : ℕ) : WinEvent :=
  ⟨p.requestId, p.impId, p.campaignId, p.creativeId, p.clearingPriceMicros, Int64.ofNat now,
    p.userId.getD ""⟩

end WinParams

structure WinHandler where
  params : WinParams
  phase : WinPhase
  /-- when the server applied its `SET`, and what it has answered to it -/
  applied : List ℕ
  replies : List SetReply
  /-- its calls of `try_record` and `publish` -/
  recordCalls : List ImpressionEvent
  published : List WinEvent
  deriving DecidableEq, Repr

namespace WinHandler

def new (params : WinParams) : WinHandler := ⟨params, .received, [], [], [], []⟩

def key (w : WinHandler) : String :=
  WinNoticeGateService.dedupKey w.params.requestId w.params.impId

/-- Its `SET` has been sent. -/
def sent (w : WinHandler) : Bool :=
  match w.phase with
  | .received => false
  | .returned .AuthFailed => false
  | _ => true

/-- It goes on to the side effects. -/
def proceeds (w : WinHandler) : Bool :=
  match w.phase with
  | .accepted => true
  | .recorded => true
  | .returned .Accept => true
  | _ => false

end WinHandler

/-- The windows of `write_impression_counters` with their expiry in seconds. -/
def counterWindows : List (CapWindow × ℕ) := [(.Hour, 3600), (.Day, 86400)]

/-- A recorded impression with the handler it comes from. -/
structure Impression where
  handler : ℕ
  event : ImpressionEvent
  deriving DecidableEq, Repr

/-- `write_impression_counters` with the windows it has yet to write. -/
structure CounterWrite where
  handler : ℕ
  event : ImpressionEvent
  todo : List (CapWindow × ℕ)
  deriving DecidableEq, Repr

namespace CounterWrite

def key (w : CounterWrite) (window : CapWindow) : String :=
  fcKey w.event.userId "c" w.event.campaignId window

/-- What is left to write after the next window. -/
def next (w : CounterWrite) : Option CounterWrite :=
  match w.todo.tail with
  | [] => none
  | todo => some { w with todo := todo }

end CounterWrite

def Impression.write (a : Impression) : CounterWrite := ⟨a.handler, a.event, counterWindows⟩

structure CountedWin where
  handler : ℕ
  time : ℕ
  deriving DecidableEq, Repr

/-- A counter, with the wins counted since the key was created. -/
structure Counter where
  count : ℤ
  wins : List CountedWin
  deriving DecidableEq, Repr

/-- The counter script: `INCR`, then `EXPIRE` if the result is 1. -/
def incrExpire (counters : Lib.Keyspace String Counter) (now : ℕ) (key : String) (ttlSecs : ℕ)
    (win : CountedWin) : Lib.Keyspace String Counter :=
  match counters.live now key with
  | some (c, expires) =>
    let current := c.count + 1
    counters.put key ⟨current, c.wins ++ [win]⟩
      (if current = 1 then now + ttlSecs * 1000 else expires)
  | none => counters.put key ⟨1, [win]⟩ (now + ttlSecs * 1000)

structure WinSystem where
  now : ℕ
  dedup : Lib.Keyspace String Unit
  counters : Lib.Keyspace String Counter
  handlers : List WinHandler
  recorder : Lib.Channel Impression
  workers : List CounterWrite

inductive WinStep
  | tick (ms : ℕ)
  | receive (params : WinParams)
  | authenticate (i : ℕ)
  /-- the server executes the `SET` of a handler -/
  | serve (i : ℕ)
  | reply (i : ℕ) (reply : SetReply)
  /-- an error or timeout of the `SET`, whatever becomes of it on the server -/
  | fail (i : ℕ)
  | cancel (i : ℕ)
  | record (i : ℕ)
  | publish (i : ℕ)
  | take
  | write (j : ℕ)
  /-- a counter script that fails -/
  | writeFails (j : ℕ)
  deriving DecidableEq, Repr

namespace WinSystem

def init : WinSystem where
  now := 0
  dedup := .empty
  counters := .empty
  handlers := []
  recorder := .empty 65536
  workers := []

def handlerIn (s : WinSystem) (i : ℕ) (phase : WinPhase) : Option WinHandler :=
  (s.handlers[i]?).filter fun w => decide (w.phase = phase)

/-- Handler `i` becomes `w`. -/
def setHandler (s : WinSystem) (i : ℕ) (w : WinHandler) : WinSystem :=
  { s with handlers := s.handlers.set i w }

/-- Where a handler goes from the gate. -/
def afterGate : WinNoticeGate → WinPhase
  | .Accept => .accepted
  | gate => .returned gate

/-- A handler whose `SET` the server has executed. -/
def served (svc : WinNoticeGateService) (s : WinSystem) (w : WinHandler) : WinHandler :=
  let r := (svc.serveSet s.dedup s.now w.key).1
  { w with
    applied := if r = .ok then w.applied ++ [s.now] else w.applied
    replies := w.replies ++ [r] }

def serve (svc : WinNoticeGateService) (s : WinSystem) (i : ℕ) (w : WinHandler) : WinSystem :=
  { s.setHandler i (s.served svc w) with dedup := (svc.serveSet s.dedup s.now w.key).2 }

/-- `try_record`, if there is a user to record it for. -/
def record (s : WinSystem) (i : ℕ) (w : WinHandler) : WinSystem :=
  match w.params.impression s.now with
  | some event =>
    { s.setHandler i { w with phase := .recorded, recordCalls := w.recordCalls ++ [event] } with
      recorder := (s.recorder.trySend ⟨i, event⟩).2 }
  | none => s.setHandler i { w with phase := .recorded }

def publish (s : WinSystem) (i : ℕ) (w : WinHandler) : WinSystem :=
  s.setHandler i { w with
    phase := .returned .Accept, published := w.published ++ [w.params.winEvent s.now] }

/-- The worker is done with a window, and gone after its last one. -/
def finishWindow (s : WinSystem) (j : ℕ) (w : CounterWrite) : WinSystem :=
  { s with workers := match w.next with
      | none => s.workers.eraseIdx j
      | some w' => s.workers.set j w' }

def writeCounter (s : WinSystem) (w : CounterWrite) : WinSystem :=
  match w.todo with
  | [] => s
  | (window, ttlSecs) :: _ =>
    { s with counters := incrExpire s.counters s.now (w.key window) ttlSecs ⟨w.handler, s.now⟩ }

def step (h : Hmac) (svc : WinNoticeGateService) (s : WinSystem) : WinStep → Option WinSystem
  | .tick ms => some { s with now := s.now + ms }
  | .receive params => some { s with handlers := s.handlers ++ [.new params] }
  | .authenticate i =>
    (s.handlerIn i .received).map fun w => s.setHandler i { w with
      phase := if svc.authenticates h w.params then .waiting else .returned .AuthFailed }
  | .serve i => ((s.handlers[i]?).filter WinHandler.sent).map (s.serve svc i)
  | .reply i reply =>
    ((s.handlerIn i .waiting).filter fun w => decide (reply ∈ w.replies)).map fun w =>
      s.setHandler i { w with phase := afterGate (WinNoticeGateService.gateOf reply) }
  | .fail i =>
    (s.handlerIn i .waiting).map fun w =>
      s.setHandler i { w with phase := afterGate (WinNoticeGateService.gateOf .failed) }
  | .cancel i =>
    (s.handlerIn i .waiting).map fun w => s.setHandler i { w with phase := .cancelled }
  | .record i => (s.handlerIn i .accepted).map (s.record i)
  | .publish i => (s.handlerIn i .recorded).map (s.publish i)
  | .take =>
    s.recorder.recv.map fun r => { s with recorder := r.2, workers := s.workers ++ [r.1.write] }
  | .write j => (s.workers[j]?).map fun w => (s.writeCounter w).finishWindow j w
  | .writeFails j => (s.workers[j]?).map fun w => s.finishWindow j w

/-- Every interleaving of the handlers, the server and the workers. -/
def Reached (h : Hmac) (svc : WinNoticeGateService) (evs : List WinStep) (s : WinSystem) : Prop :=
  Lib.Run (· = init) (Lib.Steps (step h svc)) evs s

end WinSystem

end RTB
