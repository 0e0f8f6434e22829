import RtbBidder.Lib.Run

/-! The file watch of `MLScorer` in `bidder-core/src/scoring/ml.rs`: the poller that sends
its events into a channel and the task that rebuilds the session pool. Writers of the file,
the poller and the task run at their own pace, and a build reads the file once for each
session. What a file holds and what a session is made of are any types. -/

namespace RTB

/-- The kinds of events of the `notify` crate, as far as the task tells them apart. -/
inductive EventKind
  | Create
  | Modify
  | Other
  deriving DecidableEq, Repr

structure FileEvent where
  kind : EventKind
  paths : List String
  deriving DecidableEq, Repr

/-- A snapshot: its pool of sessions of type `M`. -/
structure ModelSnapshot (M : Type) where
  sessions : List M
  nonempty : sessions ≠ []

/-- `ModelSnapshot::pick`: `n` is what `fetch_add` on the snapshot's counter returns. -/
def ModelSnapshot.pick {M : Type} (snap : ModelSnapshot M) (n : UInt64) : M :=
  snap.sessions.get ⟨n.toNat % snap.sessions.length,
    Nat.mod_lt _ (List.length_pos_iff.2 snap.nonempty)⟩

theorem ModelSnapshot.pick_mem {M : Type} (snap : ModelSnapshot M) (n : UInt64) :
    snap.pick n ∈ snap.sessions := List.get_mem ..

/-- What the watcher uses of `MLScorerConfig`, with the check of `validate`. -/
structure WatchConfig where
  modelPath : String
  poolSize : ℕ
  poolSize_pos : 0 < poolSize

/-- An event that the task rebuilds the pool for. -/
def FileEvent.interesting (cfg : WatchConfig) (ev : FileEvent) : Bool :=
  ev.paths.any (· == cfg.modelPath) && (ev.kind = .Modify || ev.kind = .Create)

/-- Where the task of `start_watcher` is. -/
inductive WatchPhase (M : Type)
  | recv
  /-- in the sleep -/
  | debounce
  /-- in the `try_recv` loop -/
  | drain
  /-- in `ModelSnapshot::build`, with the sessions built so far -/
  | build (built : List M)

structure ModelWatch (F M : Type) where
  file : F
  /-- the file was written since the poller looked at it -/
  changed : Bool
  queue : List FileEvent
  phase : WatchPhase M
  /-- the current snapshot -/
  snapshot : ModelSnapshot M

inductive WatchEvent (F : Type)
  | write (file : F)
  /-- the poller notices the change and sends an event for it -/
  | poll
  /-- the poller looks at a file whose modification time is still the old one -/
  | overlook
  /-- any other event in the directory -/
  | notify (ev : FileEvent)
  /-- the next step of the task -/
  | task

namespace ModelWatch

variable {F M : Type}

/-- `commit_from_file` for the next session, or the store of the full pool. -/
def buildStep (cfg : WatchConfig) (load : F → Except String M) (s : ModelWatch F M)
    (built : List M) : ModelWatch F M :=
  if hfull : built.length = cfg.poolSize then
    { s with phase := .recv
             snapshot := ⟨built, List.length_pos_iff.1 (hfull ▸ cfg.poolSize_pos)⟩ }
  else
    match load s.file with
    | .ok session => { s with phase := .build (built ++ [session]) }
    -- staying on the previous model
    | .error _ => { s with phase := .recv }

def taskStep (cfg : WatchConfig) (load : F → Except String M) (s : ModelWatch F M) :
    Option (ModelWatch F M) :=
  match s.phase, s.queue with
  | .recv, [] => none
  | .recv, ev :: queue =>
    some { s with queue := queue, phase := if ev.interesting cfg then .debounce else .recv }
  | .debounce, _ => some { s with phase := .drain }
  | .drain, [] => some { s with phase := .build [] }
  | .drain, _ :: queue => some { s with queue := queue }
  | .build built, _ => some (s.buildStep cfg load built)

def step (cfg : WatchConfig) (load : F → Except String M) (s : ModelWatch F M) :
    WatchEvent F → Option (ModelWatch F M)
  | .write file => some { s with file := file, changed := true }
  | .poll =>
    if s.changed then
      some { s with changed := false, queue := s.queue ++ [⟨.Modify, [cfg.modelPath]⟩] }
    else none
  | .overlook => some { s with changed := false }
  | .notify ev => some { s with queue := s.queue ++ [ev] }
  | .task => s.taskStep cfg load

/-- After `MLScorer::new`, which builds the first pool before it starts the watcher. -/
def Started (cfg : WatchConfig) (load : F → Except String M) (s : ModelWatch F M) : Prop :=
  (∃ session, load s.file = .ok session ∧
    s.snapshot.sessions = List.replicate cfg.poolSize session) ∧
    s.changed = false ∧ s.queue = [] ∧ s.phase = .recv

abbrev Reached (cfg : WatchConfig) (load : F → Except String M) :
    List (WatchEvent F) → ModelWatch F M → Prop :=
  Lib.Run (Started cfg load) (Lib.Steps (step cfg load))

end ModelWatch

end RTB
