import RtbBidder.Lib.Run
import RtbBidder.Lib.Tasks
import RtbBidder.Spec.ModelWatch
import RtbBidder.Spec.Scoring

/-! `MLScorer::score_all` calls beside the watcher task that swaps the model snapshot.
Each chunk of a call loads the snapshot, picks one of its sessions, waits for it and runs
the inference; calls interleave at these steps and can be dropped where they wait. -/

namespace RTB

/-- A snapshot in the `ArcSwap`; the version says which one of those stored there it is. -/
structure StoredSnapshot extends ModelSnapshot Inference where
  version : ℕ

inductive ScorePhase
  /-- `self.snapshot.load()` of the next chunk comes next -/
  | load
  /-- the chunk has loaded a snapshot, `pick` comes next -/
  | pick (snap : StoredSnapshot)
  /-- the chunk waits for the lock of its session, or its inference is not over -/
  | infer (snap : StoredSnapshot) (session : Inference)
  /-- returned with the scores of its chunks -/
  | scored
  /-- returned after a failed chunk, with its scores wiped -/
  | fellBack
  | dropped

/-- A chunk with the scores that a session of a snapshot gave it. -/
structure ScoredChunk where
  scored : List AdCandidate
  snap : StoredSnapshot
  session : Inference

structure ScoreCall where
  candidates : List AdCandidate
  ctx : ScoringContext
  /-- the chunks scored so far -/
  done : List ScoredChunk
  /-- the chunks not scored yet -/
  todo : List (List AdCandidate)
  phase : ScorePhase
  /-- the snapshots that have been current during the call -/
  current : List StoredSnapshot
  /-- the reloads between its first load and a load still to come -/
  overtaken : ℕ

/-- The scorer: its configuration, the logarithm and the snapshot built at startup. -/
structure MLScorer where
  cfg : MLScorerConfig
  ln : Ln
  initial : ModelSnapshot Inference

namespace ScoreCall

def new (m : MLScorer) (cs : List AdCandidate) (ctx : ScoringContext) (snap : StoredSnapshot) :
    ScoreCall :=
  let todo := Lib.chunks m.cfg.maxBatch cs
  ⟨cs, ctx, [], todo, if todo.isEmpty then .scored else .load, [snap], 0⟩

/-- The call has loaded a snapshot and is to load one again. -/
def betweenLoads (c : ScoreCall) : Bool :=
  match c.phase with
  | .load => !c.done.isEmpty
  | .pick _ | .infer .. => 1 < c.todo.length
  | _ => false

def active (c : ScoreCall) : Bool :=
  match c.phase with
  | .load | .pick _ | .infer .. => true
  | _ => false

/-- A reload stores `snap` during the call. -/
def onReload (snap : StoredSnapshot) (c : ScoreCall) : ScoreCall :=
  if c.active then
    { c with current := c.current ++ [snap]
             overtaken := if c.betweenLoads then c.overtaken + 1 else c.overtaken }
  else c

/-- The end of `score_batch`: of the chunk's inference, or of the call if it failed. -/
def onInfer (m : MLScorer) (fault : Bool) (c : ScoreCall) : Option ScoreCall :=
  match c.phase, c.todo with
  | .infer snap session, chunk :: rest =>
    match if fault then .error "ONNX inference failed"
      else m.cfg.scoreBatch m.ln c.ctx session chunk with
    | .error _ => some { c with phase := .fellBack }
    | .ok scored =>
      some { c with done := c.done ++ [⟨scored, snap, session⟩], todo := rest
                    phase := if rest.isEmpty then .scored else .load }
  | _, _ => none

def onLoad (snap : StoredSnapshot) (c : ScoreCall) : Option ScoreCall :=
  match c.phase with
  | .load => some { c with phase := .pick snap }
  | _ => none

/-- The snapshot that the call is about to pick a session of. -/
def picking (c : ScoreCall) : Option StoredSnapshot :=
  match c.phase with
  | .pick snap => some snap
  | _ => none

/-- `n` is the count of the snapshot's picks so far. -/
def onPick (n : UInt64) (c : ScoreCall) : Option ScoreCall :=
  c.picking.map fun snap => { c with phase := .infer snap (snap.pick n) }

/-- Nothing is awaited between the load and the pick. -/
def onDrop (c : ScoreCall) : Option ScoreCall :=
  if c.active ∧ c.picking.isNone then some { c with phase := .dropped } else none

/-- What a call that returns leaves in the candidate vector. -/
def result (fallback : Option FeatureWeightedScorer) (c : ScoreCall) : Option (List AdCandidate) :=
  match c.phase with
  | .scored => some (c.done.map (·.scored)).flatten
  | .fellBack =>
    let reset := resetScores c.candidates
    some (fallback.elim reset fun f => f.scoreAll reset c.ctx)
  | _ => none

end ScoreCall

inductive ReloadEvent
  /-- `score_all` is called -/
  | call (cs : List AdCandidate) (ctx : ScoringContext)
  | load (i : ℕ)
  | pick (i : ℕ)
  /-- the inference of the `i`-th call ends; it may fail whatever the model -/
  | infer (i : ℕ) (fault : Bool)
  | drop (i : ℕ)
  /-- the watcher has built a snapshot of the new file, or failed to -/
  | reload (built : Option (ModelSnapshot Inference))

structure ReloadSystem where
  snapshot : StoredSnapshot
  /-- the round-robin counter `next` of each snapshot, by its version -/
  next : ℕ → UInt64
  calls : List ScoreCall

namespace ReloadSystem

def init (m : MLScorer) : ReloadSystem := ⟨⟨m.initial, 0⟩, fun _ => 0, []⟩

/-- The `i`-th call makes a step of its own. -/
def move (s : ReloadSystem) (i : ℕ) (f : ScoreCall → Option ScoreCall) : Option ReloadSystem :=
  (s.calls[i]?.bind f).map fun c => { s with calls := s.calls.set i c }

def step (m : MLScorer) (s : ReloadSystem) : ReloadEvent → Option ReloadSystem
  | .call cs ctx => some { s with calls := s.calls ++ [.new m cs ctx s.snapshot] }
  | .load i => s.move i (·.onLoad s.snapshot)
  | .pick i =>
    (s.calls[i]?.bind (·.picking)).bind fun snap =>
      (s.move i (·.onPick (s.next snap.version))).map fun s' =>
        { s' with next := Function.update s.next snap.version (s.next snap.version + 1) }
  | .infer i fault => s.move i (·.onInfer m fault)
  | .drop i => s.move i (·.onDrop)
  -- a failed build stays on the previous model
  | .reload none => some s
  | .reload (some built) =>
    let snap : StoredSnapshot := ⟨built, s.snapshot.version + 1⟩
    some { s with snapshot := snap, calls := s.calls.map (·.onReload snap) }

abbrev Reached (m : MLScorer) : List ReloadEvent → ReloadSystem → Prop :=
  Lib.Run (· = init m) (Lib.Steps (step m))

/-- No reload is stored while a call is between two loads. -/
def Quiet (s : ReloadSystem) : ReloadEvent → Prop
  | .reload (some _) => ∀ c ∈ s.calls, c.betweenLoads = false
  | _ => True

abbrev QuietRun (m : MLScorer) : List ReloadEvent → ReloadSystem → Prop :=
  Lib.Run (· = init m) (Lib.Guarded Quiet (Lib.Steps (step m)))

end ReloadSystem

end RTB
