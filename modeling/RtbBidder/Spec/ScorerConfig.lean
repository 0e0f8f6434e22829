import RtbBidder.Spec.Scoring

/-! How `main.rs` builds the scorer from the `[scoring]` section of the config, with the
checks that `MLScorer::new_with_fallback` makes of a model before it serves. The sessions of
the ONNX runtime and the files are those of a `ModelHost`; the model file does not change
while the scorer is built. -/

namespace RTB

section Config

inductive ScoringKind
  | FeatureWeighted
  | Ml
  | Cascade
  | AbTest
  deriving DecidableEq, Repr

/-- The fields that may be left out have their `serde` defaults. -/
structure MLConfig where
  modelPath : String
  parityPath : Option String := none
  inputTensorName : String := "features"
  outputTensorName : String := "pctr"
  poolSize : ℕ := 2
  maxBatch : ℕ := 64
  batchPadTo : ℕ := 8
  deriving DecidableEq, Repr

structure CascadeConfig where
  stage1 : ScoringKind
  stage2 : ScoringKind
  topK : ℕ := 0
  threshold : F32 := .fin 0
  deriving DecidableEq, Repr

structure ABTestConfig where
  control : ScoringKind
  treatment : ScoringKind
  treatmentShare : F32
  hashSeed : String
  deriving DecidableEq, Repr

structure ScoringConfig where
  kind : ScoringKind
  ml : Option MLConfig := none
  cascade : Option CascadeConfig := none
  abTest : Option ABTestConfig := none
  deriving DecidableEq, Repr

end Config

/-- An `anyhow` error: its contexts, the outermost first, and the cause. -/
abbrev Report := List String

/-- `Context::context` -/
def context {α : Type} (c : String) (r : Except Report α) : Except Report α :=
  r.mapError (c :: ·)

/-- A line of the parity file, trimmed and parsed. -/
inductive ParityLine
  | blank
  | malformed (error : String)
  | pair (input : List F32) (expectedScore : F32)
  deriving DecidableEq, Repr

/-- Runs a batch of rows and reads the output tensor. -/
abbrev Session := List (List F32) → Except Report (List F32)

/-- The files of the host. Two loads of one model, and two reads of one parity file, have
the same outcome. -/
structure ModelHost where
  /-- the `i`-th session that is opened for the model file -/
  session : MLConfig → ℕ → Except Report Session
  /-- `read_to_string` of the parity file -/
  parityLines : String → Except String (List ParityLine)
  /-- `Display` of an `f32` -/
  display : F32 → String

section Model

/-- `MLScorerConfig::validate` -/
def MLConfig.validate (ml : MLConfig) : Except Report MLScorerConfig :=
  if ml.poolSize = 0 then .error ["MLScorerConfig.pool_size must be >= 1"]
  else if hbatch : ml.maxBatch = 0 then .error ["MLScorerConfig.max_batch must be >= 1"]
  else if hpad : ml.batchPadTo = 0 then .error ["MLScorerConfig.batch_pad_to must be >= 1"]
  else .ok ⟨ml.maxBatch, ml.batchPadTo, Nat.pos_of_ne_zero hbatch, Nat.pos_of_ne_zero hpad⟩

variable (host : ModelHost)

/-- `ModelSnapshot::build` -/
def buildSnapshot (ml : MLConfig) : Except Report (List Session) :=
  (List.range ml.poolSize).mapM (host.session ml)

/-- `drift > 1e-4` -/
def drifts (computed expectedScore : F32) : Bool :=
  (computed.sub expectedScore).abs.partialCmp (.ofRat (1 / 10000)) = some .gt

/-- The checks of one record. -/
def verifyPair (run : Session) (lineNo : ℕ) (input : List F32) (expectedScore : F32) :
    Except Report Unit :=
  if input.length ≠ FEATURE_COUNT then
    .error ["parity line " ++ toString lineNo ++ ": input has " ++ toString input.length ++
      " features, expected " ++ toString FEATURE_COUNT]
  else
    match run [input] with
    | .error e => .error e
    | .ok [] => .error ["empty output"]
    | .ok (computed :: _) =>
      if drifts computed expectedScore then
        .error ["parity drift on line " ++ toString lineNo ++ ": computed=" ++
          host.display computed ++ " expected=" ++ host.display expectedScore ++ " drift=" ++
          host.display (computed.sub expectedScore).abs]
      else .ok ()

/-- The loop of `verify_parity` from line `i` on; the number of records is counted. -/
def verifyLines (path : String) (run : Session) : ℕ → ℕ → List ParityLine → Except Report ℕ
  | _, count, [] => .ok count
  | i, count, .blank :: lines => verifyLines path run (i + 1) count lines
  | i, _, .malformed e :: _ =>
    .error ["parse parity line " ++ toString (i + 1) ++ " in " ++ path, e]
  | i, count, .pair input expectedScore :: lines =>
    (verifyPair host run (i + 1) input expectedScore).bind fun _ =>
      verifyLines path run (i + 1) (count + 1) lines

def verifyParity (path : String) (run : Session) : Except Report Unit :=
  match host.parityLines path with
  | .error e => .error ["read " ++ path, e]
  | .ok lines =>
    (verifyLines host path run 0 0 lines).bind fun count =>
      if count = 0 then .error ["parity file " ++ path ++ " contained zero records"] else .ok ()

/-- The parity check of `new_with_fallback`, where the config asks for one. It uses the first
session; there is one, as the pool size has been checked. -/
def checkParity (ml : MLConfig) (sessions : List Session) : Except Report Unit :=
  match ml.parityPath, sessions with
  | some path, run :: _ =>
    context ("scoring parity check against " ++ path) (verifyParity host path run)
  | _, _ => .ok ()

/-- `MLScorer::new_with_fallback` -/
def newWithFallback (ml : MLConfig) (fallback : Scorer) : Except Report Scorer :=
  ml.validate.bind fun cfg =>
    (context "MLScorer initial model load failed (libonnxruntime missing? run tools/install-onnxruntime.sh)"
      (buildSnapshot host ml)).bind fun sessions =>
        (checkParity host ml sessions).bind fun _ => .ok (.mlWithFallback cfg fallback)

end Model

section Build

variable (host : ModelHost) (cfg : ScoringConfig)

def buildMl : Except Report Scorer :=
  match cfg.ml with
  | none =>
    .error ["[scoring] kind=ml or referenced by decorator but [scoring.ml] missing"]
  | some ml => newWithFallback host ml (.featureWeighted .default)

def buildLeaf (kind : ScoringKind) (whereInConfig : String) : Except Report Scorer :=
  match kind with
  | .FeatureWeighted => .ok (.featureWeighted .default)
  | .Ml => buildMl host cfg
  | .Cascade | .AbTest =>
    .error ["[scoring." ++ whereInConfig ++ "] cannot be cascade or ab_test — " ++
      "only leaf scorers (feature_weighted, ml) are allowed inside cascade"]

def buildCascade : Except Report Scorer :=
  match cfg.cascade with
  | none => .error ["[scoring] kind=cascade but [scoring.cascade] missing"]
  | some c =>
    (buildLeaf host cfg c.stage1 "cascade.stage1").bind fun stage1 =>
      (buildLeaf host cfg c.stage2 "cascade.stage2").bind fun stage2 =>
        .ok (.cascade stage1 stage2 c.topK c.threshold)

def buildLeafOrCascade (kind : ScoringKind) (whereInConfig : String) : Except Report Scorer :=
  match kind with
  | .FeatureWeighted => .ok (.featureWeighted .default)
  | .Ml => buildMl host cfg
  | .Cascade => buildCascade host cfg
  | .AbTest =>
    .error ["[scoring." ++ whereInConfig ++ "] cannot be ab_test — " ++
      "ab_test cannot nest ab_test (concurrent experiments go via the experiment platform)"]

def buildAbTest : Except Report Scorer :=
  match cfg.abTest with
  | none => .error ["[scoring] kind=ab_test but [scoring.ab_test] missing"]
  | some a =>
    (buildLeafOrCascade host cfg a.control "ab_test.control").bind fun control =>
      (buildLeafOrCascade host cfg a.treatment "ab_test.treatment").bind fun treatment =>
        .ok (.abTest control treatment a.treatmentShare a.hashSeed)

def buildScorerRoot : Except Report Scorer :=
  match cfg.kind with
  | .FeatureWeighted => .ok (.featureWeighted .default)
  | .Ml => buildMl host cfg
  | .Cascade => buildCascade host cfg
  | .AbTest => buildAbTest host cfg

end Build

end RTB
