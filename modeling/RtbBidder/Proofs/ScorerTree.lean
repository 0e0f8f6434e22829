import RtbBidder.Proofs.ScoreRange
import RtbBidder.Spec.Production
import RtbBidder.Spec.ScorerConfig

/-! Which scorer `build_scorer_root` makes of a config: the trees of the documented nesting
rules and no others, with a model in them only if its checks pass. -/

namespace RTB

section Fallible

variable {ε α β : Type}

theorem bind_eq_ok {x : Except ε α} {f : α → Except ε β} {b : β} :
    x.bind f = .ok b ↔ ∃ a, x = .ok a ∧ f a = .ok b := by
  cases x <;> simp [Except.bind]

theorem context_eq_ok {c : String} {r : Except Report α} {a : α} :
    context c r = .ok a ↔ r = .ok a := by
  cases r <;> simp [context, Except.mapError]

theorem mapM_eq_ok {f : α → Except ε β} {l : List α} {l' : List β} :
    l.mapM f = .ok l' ↔ List.Forall₂ (fun a b => f a = .ok b) l l' := by
  induction l generalizing l' with
  | nil =>
    cases l' <;> simp [pure, Except.pure]
  | cons a l ih =>
    rw [List.mapM_cons, List.forall₂_cons_left_iff]
    simp only [← ih]
    change (f a).bind _ = _ ↔ _
    rw [bind_eq_ok]
    constructor
    · rintro ⟨b, hb, hrest⟩
      obtain ⟨bs, hbs, heq⟩ := bind_eq_ok.1 hrest
      exact ⟨b, bs, hb, hbs, (Except.ok.inj heq).symm⟩
    · rintro ⟨b, bs, hb, hbs, rfl⟩
      exact ⟨b, hb, bind_eq_ok.2 ⟨bs, hbs, rfl⟩⟩

theorem exists_mapM_eq_ok {f : α → Except ε β} {l : List α} :
    (∃ l', l.mapM f = .ok l') ↔ ∀ a ∈ l, ∃ b, f a = .ok b := by
  simp only [mapM_eq_ok]
  induction l with
  | nil => simp
  | cons a l ih =>
    simp only [List.forall₂_cons_left_iff, List.forall_mem_cons, ← ih]
    constructor
    · rintro ⟨_, b, bs, hb, hbs, -⟩
      exact ⟨⟨b, hb⟩, bs, hbs⟩
    · rintro ⟨⟨b, hb⟩, bs, hbs⟩
      exact ⟨_, b, bs, hb, hbs, rfl⟩

end Fallible

section Parity

variable {host : ModelHost} {path : String} {run : Session}

/-- The session answers the record's row with a score that has not drifted. -/
def RecordHolds (run : Session) (input : List F32) (expectedScore : F32) : Prop :=
  input.length = FEATURE_COUNT ∧
    ∃ computed rest, run [input] = .ok (computed :: rest) ∧ drifts computed expectedScore = false

def LineHolds (run : Session) : ParityLine → Prop
  | .blank => True
  | .malformed _ => False
  | .pair input expectedScore => RecordHolds run input expectedScore

def ParityLine.isPair : ParityLine → Bool
  | .pair _ _ => true
  | _ => false

/-- The parity file can be read, has a record, and all its records hold. -/
def ParityHolds (host : ModelHost) (path : String) (run : Session) : Prop :=
  ∃ lines, host.parityLines path = .ok lines ∧ (∀ l ∈ lines, LineHolds run l) ∧
    ∃ l ∈ lines, l.isPair = true

theorem verifyPair_eq_ok {lineNo : ℕ} {input : List F32} {expectedScore : F32} :
    verifyPair host run lineNo input expectedScore = .ok () ↔
      RecordHolds run input expectedScore := by
  unfold verifyPair RecordHolds
  by_cases hlen : input.length = FEATURE_COUNT
  · rw [if_neg (not_not.2 hlen)]
    cases hrun : run [input] with
    | error e => simp
    | ok out =>
      cases out with
      | nil => simp
      | cons computed rest => cases hdrift : drifts computed expectedScore <;> simp [hlen, hdrift]
  · simp [hlen]

theorem verifyLines_eq_ok {i count total : ℕ} {lines : List ParityLine} :
    verifyLines host path run i count lines = .ok total ↔
      (∀ l ∈ lines, LineHolds run l) ∧ total = count + lines.countP ParityLine.isPair := by
  induction lines generalizing i count with
  | nil => simp [verifyLines, eq_comm]
  | cons l lines ih =>
    cases l with
    | blank => simp [verifyLines, ih, LineHolds, ParityLine.isPair]
    | malformed e => simp [verifyLines, LineHolds]
    | pair input expectedScore =>
      have hcount : (ParityLine.pair input expectedScore :: lines).countP ParityLine.isPair =
          lines.countP ParityLine.isPair + 1 := List.countP_cons_of_pos rfl
      rw [verifyLines, bind_eq_ok, List.forall_mem_cons, hcount]
      constructor
      · rintro ⟨_, hpair, hlines⟩
        obtain ⟨hrest, rfl⟩ := ih.1 hlines
        exact ⟨⟨verifyPair_eq_ok.1 hpair, hrest⟩, by omega⟩
      · rintro ⟨⟨hpair, hrest⟩, rfl⟩
        exact ⟨(), verifyPair_eq_ok.2 hpair, ih.2 ⟨hrest, by omega⟩⟩

theorem verifyParity_eq_ok : verifyParity host path run = .ok () ↔ ParityHolds host path run := by
  unfold verifyParity ParityHolds
  cases hread : host.parityLines path with
  | error e => simp
  | ok lines =>
    have hpos : lines.countP ParityLine.isPair ≠ 0 ↔ ∃ l ∈ lines, l.isPair = true := by
      rw [← Nat.pos_iff_ne_zero, List.countP_pos_iff]
    simp only [Except.ok.injEq, exists_eq_left', ← hpos, bind_eq_ok]
    constructor
    · rintro ⟨count, hlines, hcount⟩
      obtain ⟨hall, rfl⟩ := verifyLines_eq_ok.1 hlines
      refine ⟨hall, fun h0 => ?_⟩
      rw [h0, if_pos rfl] at hcount
      cases hcount
    · rintro ⟨hall, hne⟩
      refine ⟨_, verifyLines_eq_ok.2 ⟨hall, rfl⟩, ?_⟩
      rw [zero_add, if_neg hne]

end Parity

section Model

variable {host : ModelHost} {ml : MLConfig} {m : MLScorerConfig}

/-- The model of a config passes the checks that are made before it serves as `m`. -/
structure Serves (host : ModelHost) (ml : MLConfig) (m : MLScorerConfig) : Prop where
  poolSize : 0 < ml.poolSize
  maxBatch : m.maxBatch = ml.maxBatch
  batchPadTo : m.batchPadTo = ml.batchPadTo
  sessions : ∀ i < ml.poolSize, ∃ run, host.session ml i = .ok run
  parity : ∀ path ∈ ml.parityPath, ∃ run, host.session ml 0 = .ok run ∧ ParityHolds host path run

theorem validate_eq_ok : ml.validate = .ok m ↔
    0 < ml.poolSize ∧ m.maxBatch = ml.maxBatch ∧ m.batchPadTo = ml.batchPadTo := by
  unfold MLConfig.validate
  have hb := m.maxBatch_pos
  have hp := m.batchPadTo_pos
  split_ifs with h1 h2 h3
  · simp [h1]
  · simp [h2, hb.ne']
  · simp [h3, hp.ne']
  · simp only [Except.ok.injEq, Nat.pos_of_ne_zero h1, true_and]
    constructor
    · rintro rfl
      exact ⟨rfl, rfl⟩
    · rintro ⟨h, h'⟩
      cases m
      simp_all

/-- The pool starts with the session that the parity check uses. -/
theorem buildSnapshot_head {sessions : List Session} (hpool : 0 < ml.poolSize)
    (hs : buildSnapshot host ml = .ok sessions) :
    ∃ run rest, sessions = run :: rest ∧ host.session ml 0 = .ok run := by
  obtain ⟨n, hn⟩ := Nat.exists_eq_succ_of_ne_zero hpool.ne'
  rw [buildSnapshot, hn, List.range_succ_eq_map, mapM_eq_ok, List.forall₂_cons_left_iff] at hs
  obtain ⟨run, rest, hrun, -, rfl⟩ := hs
  exact ⟨run, rest, rfl, hrun⟩

theorem checkParity_eq_ok {sessions : List Session} (hpool : 0 < ml.poolSize)
    (hs : buildSnapshot host ml = .ok sessions) : checkParity host ml sessions = .ok () ↔
      ∀ path ∈ ml.parityPath, ∃ run, host.session ml 0 = .ok run ∧ ParityHolds host path run := by
  obtain ⟨run, rest, rfl, hrun⟩ := buildSnapshot_head hpool hs
  cases hpath : ml.parityPath with
  | none => simp [checkParity, hpath]
  | some path => simp [checkParity, hpath, hrun, context_eq_ok, verifyParity_eq_ok]

theorem newWithFallback_eq_ok {fallback scorer : Scorer} :
    newWithFallback host ml fallback = .ok scorer ↔
      ∃ m, Serves host ml m ∧ scorer = .mlWithFallback m fallback := by
  have hopen : (∃ sessions, buildSnapshot host ml = .ok sessions) ↔
      ∀ i < ml.poolSize, ∃ run, host.session ml i = .ok run := by
    rw [buildSnapshot, exists_mapM_eq_ok]
    simp only [List.mem_range]
  simp only [newWithFallback, bind_eq_ok, context_eq_ok]
  constructor
  · rintro ⟨m, hvalid, sessions, hs, _, hparity, hscorer⟩
    obtain ⟨hpool, hbatch, hpad⟩ := validate_eq_ok.1 hvalid
    exact ⟨m, ⟨hpool, hbatch, hpad, hopen.1 ⟨sessions, hs⟩, (checkParity_eq_ok hpool hs).1 hparity⟩,
      (Except.ok.inj hscorer).symm⟩
  · rintro ⟨m, ⟨hpool, hbatch, hpad, hsessions, hparity⟩, rfl⟩
    obtain ⟨sessions, hs⟩ := hopen.2 hsessions
    exact ⟨m, validate_eq_ok.2 ⟨hpool, hbatch, hpad⟩, sessions, hs, (),
      (checkParity_eq_ok hpool hs).2 hparity, rfl⟩

end Model

section Build

variable {host : ModelHost} {cfg : ScoringConfig} {kind : ScoringKind}
  {scorer : Scorer}

/-- The scorers that a kind stands for where only a leaf is allowed. A model always has the
feature-weighted scorer to fall back to. -/
inductive LeafOf (host : ModelHost) (cfg : ScoringConfig) : ScoringKind → Scorer → Prop
  | featureWeighted : LeafOf host cfg .FeatureWeighted (.featureWeighted .default)
  | ml {c : MLConfig} {m : MLScorerConfig} (hc : cfg.ml = some c) (hm : Serves host c m) :
      LeafOf host cfg .Ml (.mlWithFallback m (.featureWeighted .default))

/-- Where a cascade is allowed too. -/
inductive ArmOf (host : ModelHost) (cfg : ScoringConfig) : ScoringKind → Scorer → Prop
  | leaf {kind : ScoringKind} {s : Scorer} (h : LeafOf host cfg kind s) : ArmOf host cfg kind s
  | cascade {c : CascadeConfig} {s₁ s₂ : Scorer} (hc : cfg.cascade = some c)
      (h₁ : LeafOf host cfg c.stage1 s₁) (h₂ : LeafOf host cfg c.stage2 s₂) :
      ArmOf host cfg .Cascade (.cascade s₁ s₂ c.topK c.threshold)

/-- The trees of the nesting rules. -/
inductive RootOf (host : ModelHost) (cfg : ScoringConfig) : Scorer → Prop
  | arm {s : Scorer} (h : ArmOf host cfg cfg.kind s) : RootOf host cfg s
  | abTest {a : ABTestConfig} {s t : Scorer} (hk : cfg.kind = .AbTest) (ha : cfg.abTest = some a)
      (hs : ArmOf host cfg a.control s) (ht : ArmOf host cfg a.treatment t) :
      RootOf host cfg (.abTest s t a.treatmentShare a.hashSeed)

theorem buildMl_eq_ok : buildMl host cfg = .ok scorer ↔ LeafOf host cfg .Ml scorer := by
  unfold buildMl
  constructor
  · intro h
    split at h
    · cases h
    · rename_i ml hml
      obtain ⟨m, hm, rfl⟩ := newWithFallback_eq_ok.1 h
      exact .ml hml hm
  · intro h
    cases h with
    | ml hc hm =>
      rw [hc]
      exact newWithFallback_eq_ok.2 ⟨_, hm, rfl⟩

theorem buildLeaf_eq_ok (whereInConfig : String) :
    buildLeaf host cfg kind whereInConfig = .ok scorer ↔ LeafOf host cfg kind scorer := by
  cases kind with
  | FeatureWeighted =>
    constructor
    · rintro ⟨⟩
      exact .featureWeighted
    · rintro ⟨⟩
      rfl
  | Ml => exact buildMl_eq_ok
  | Cascade | AbTest => exact ⟨nofun, nofun⟩

theorem buildCascade_eq_ok :
    buildCascade host cfg = .ok scorer ↔ ArmOf host cfg .Cascade scorer := by
  unfold buildCascade
  constructor
  · intro h
    split at h
    · cases h
    · rename_i c hc
      simp only [bind_eq_ok, buildLeaf_eq_ok] at h
      obtain ⟨s₁, h₁, s₂, h₂, hs⟩ := h
      obtain rfl := Except.ok.inj hs
      exact .cascade hc h₁ h₂
  · rintro (⟨⟨⟩⟩ | ⟨hc, h₁, h₂⟩)
    rw [hc]
    simp only [bind_eq_ok, buildLeaf_eq_ok]
    exact ⟨_, h₁, _, h₂, rfl⟩

theorem armOf_iff (hk : kind ≠ .Cascade) : ArmOf host cfg kind scorer ↔ LeafOf host cfg kind scorer := by
  refine ⟨?_, .leaf⟩
  intro h
  cases h with
  | leaf h => exact h
  | cascade => exact absurd rfl hk

theorem buildLeafOrCascade_eq_ok (whereInConfig : String) :
    buildLeafOrCascade host cfg kind whereInConfig = .ok scorer ↔ ArmOf host cfg kind scorer := by
  cases kind with
  | Cascade => exact buildCascade_eq_ok
  | FeatureWeighted | Ml =>
    rw [armOf_iff (by decide), ← buildLeaf_eq_ok whereInConfig]
    rfl
  | AbTest =>
    rw [armOf_iff (by decide)]
    exact ⟨nofun, nofun⟩

theorem buildAbTest_eq_ok (hk : cfg.kind = .AbTest) :
    buildAbTest host cfg = .ok scorer ↔ RootOf host cfg scorer := by
  unfold buildAbTest
  constructor
  · intro h
    split at h
    · cases h
    · rename_i a ha
      simp only [bind_eq_ok, buildLeafOrCascade_eq_ok] at h
      obtain ⟨s, hs, t, ht, heq⟩ := h
      obtain rfl := Except.ok.inj heq
      exact .abTest hk ha hs ht
  · intro h
    cases h with
    | arm h =>
      rw [hk, armOf_iff (by decide)] at h
      cases h
    | abTest hk ha hs ht =>
      rw [ha]
      simp only [bind_eq_ok, buildLeafOrCascade_eq_ok]
      exact ⟨_, hs, _, ht, rfl⟩

theorem rootOf_iff (hk : cfg.kind ≠ .AbTest) :
    RootOf host cfg scorer ↔ ArmOf host cfg cfg.kind scorer := by
  refine ⟨?_, .arm⟩
  intro h
  cases h with
  | arm h => exact h
  | abTest hab => exact absurd hab hk

/-- A scorer is built exactly if it is a tree of the nesting rules. -/
theorem buildScorerRoot_eq_ok : buildScorerRoot host cfg = .ok scorer ↔ RootOf host cfg scorer := by
  by_cases hk : cfg.kind = .AbTest
  · rw [← buildAbTest_eq_ok hk, buildScorerRoot, hk]
  · have hroot : buildScorerRoot host cfg = buildLeafOrCascade host cfg cfg.kind "" := by
      unfold buildScorerRoot buildLeafOrCascade
      cases hkind : cfg.kind with
      | AbTest => exact absurd hkind hk
      | FeatureWeighted | Ml | Cascade => rfl
    rw [hroot, buildLeafOrCascade_eq_ok, rootOf_iff hk]

/-- The builder computes the one scorer that the rules describe, and fails exactly if they
describe none. -/
theorem scorer_build_decides (host : ModelHost) (cfg : ScoringConfig) :
    match buildScorerRoot host cfg with
    | .ok scorer => ∀ s, RootOf host cfg s ↔ s = scorer
    | .error _ => ∀ s, ¬ RootOf host cfg s := by
  cases hb : buildScorerRoot host cfg with
  | ok scorer =>
    intro s
    rw [← buildScorerRoot_eq_ok, hb, Except.ok.injEq, eq_comm]
  | error e =>
    intro s hs
    rw [← buildScorerRoot_eq_ok, hb] at hs
    cases hs

end Build

section Drift

open Lib.Format (binary32)

/-- The stored `1e-4`. -/
theorem drift_limit : (.ofRat (1 / 10000) : F32) = .fin (13743895 / 137438953472) := by decide +kernel

theorem drifts_of_infinite {computed : F32} (h : computed = .posInf ∨ computed = .negInf)
    (expected : ℚ) : drifts computed (.fin expected) = true := by
  rw [drifts, drift_limit]
  rcases h with rfl | rfl <;> exact decide_eq_true rfl

/-- Scores that are far apart are found to drift, also where the difference overflows. -/
theorem drifts_of_far {computed expected : ℚ} (h : 1001 / 10000000 ≤ |computed - expected|) :
    drifts (.fin computed) (.fin expected) = true := by
  have hstep : (13743895 / 137438953472 : ℚ) < binary32.nearest (1001 / 10000000) := by decide +kernel
  have hfar : (13743895 / 137438953472 : ℚ) < |binary32.nearest (computed + -expected)| := by
    rw [← sub_eq_add_neg, binary32.abs_nearest]
    exact hstep.trans_le (binary32.nearest_mono h)
  have hsub : (.fin computed : F32).sub (.fin expected) = .ofRat (computed + -expected) := rfl
  rw [drifts, drift_limit, hsub, decide_eq_true_eq]
  rcases Lib.Binary.ofRat_cases (computed + -expected) with hr | hr | hr
  · rw [hr]
    exact congrArg some (compare_gt_iff_gt.2 hfar)
  · rw [hr]
    rfl
  · rw [hr]
    rfl

/-- The expected score itself passes. -/
theorem not_drifts_self (q : ℚ) : drifts (.fin q) (.fin q) = false := by
  have hsub : (.fin q : F32).sub (.fin q) = .fin 0 := by
    calc (.fin q : F32).sub (.fin q) = .ofRat (q + -q) := rfl
      _ = .ofRat (0 : ℕ) := by rw [add_neg_cancel, Nat.cast_zero]
      _ = .fin 0 := by rw [Lib.Binary.ofRat_natCast (by norm_num), Nat.cast_zero]
  rw [drifts, drift_limit, hsub, decide_eq_false_iff_not]
  intro hgt
  have hlt : (13743895 / 137438953472 : ℚ) < |0| := compare_gt_iff_gt.1 (Option.some.inj hgt)
  norm_num at hlt

/-- What the check lets pass for a finite expected score. -/
theorem near_of_not_drifts {computed : F32} {expected : ℚ}
    (h : drifts computed (.fin expected) = false) :
    computed = .nan ∨ ∃ c, computed = .fin c ∧ |c - expected| < 1001 / 10000000 := by
  cases computed with
  | nan => exact .inl rfl
  | fin c =>
    refine .inr ⟨c, rfl, ?_⟩
    by_contra hfar
    rw [drifts_of_far (not_lt.1 hfar)] at h
    cases h
  | posInf =>
    rw [drifts_of_infinite (.inl rfl)] at h
    cases h
  | negInf =>
    rw [drifts_of_infinite (.inr rfl)] at h
    cases h

end Drift

section Served

variable {host : ModelHost} {cfg : ScoringConfig} {ml : MLConfig} {path : String} {scorer : Scorer}

/-- There is a model in the tree. -/
def Scorer.usesModel : Scorer → Bool
  | .featureWeighted _ => false
  | .ml _ | .mlWithFallback _ _ => true
  | .cascade s₁ s₂ _ _ => s₁.usesModel || s₂.usesModel
  | .abTest s t _ _ => s.usesModel || t.usesModel

theorem LeafOf.serves {kind : ScoringKind} (h : LeafOf host cfg kind scorer)
    (hu : scorer.usesModel = true) : ∃ c m, cfg.ml = some c ∧ Serves host c m := by
  cases h with
  | featureWeighted => cases hu
  | ml hc hm => exact ⟨_, _, hc, hm⟩

theorem ArmOf.serves {kind : ScoringKind} (h : ArmOf host cfg kind scorer)
    (hu : scorer.usesModel = true) : ∃ c m, cfg.ml = some c ∧ Serves host c m := by
  cases h with
  | leaf h => exact h.serves hu
  | cascade _ h₁ h₂ =>
    rcases Bool.or_eq_true_iff.1 hu with hu | hu
    · exact h₁.serves hu
    · exact h₂.serves hu

theorem RootOf.serves (h : RootOf host cfg scorer) (hu : scorer.usesModel = true) :
    ∃ c m, cfg.ml = some c ∧ Serves host c m := by
  cases h with
  | arm h => exact h.serves hu
  | abTest _ _ hs ht =>
    rcases Bool.or_eq_true_iff.1 hu with hu | hu
    · exact hs.serves hu
    · exact ht.serves hu

/-- A model that is built into a scorer has answered every record of its parity file, and for
each with a score that is near the expected one or not a number. -/
theorem served_model_parity (hb : buildScorerRoot host cfg = .ok scorer)
    (hu : scorer.usesModel = true) (hml : cfg.ml = some ml) (hp : ml.parityPath = some path) :
    ∃ lines run, host.parityLines path = .ok lines ∧ host.session ml 0 = .ok run ∧
      (∃ l ∈ lines, l.isPair = true) ∧
      ∀ input expected, .pair input (.fin expected) ∈ lines → input.length = FEATURE_COUNT ∧
        ∃ computed rest, run [input] = .ok (computed :: rest) ∧
          (computed = .nan ∨ ∃ c, computed = .fin c ∧ |c - expected| < 1001 / 10000000) := by
  obtain ⟨c, m, hc, hs⟩ := (buildScorerRoot_eq_ok.1 hb).serves hu
  obtain rfl : ml = c := Option.some.inj (hml.symm.trans hc)
  obtain ⟨run, hrun, lines, hread, hall, hsome⟩ := hs.parity path hp
  refine ⟨lines, run, hread, hrun, hsome, ?_⟩
  intro input expected hmem
  obtain ⟨hlen, computed, rest, hans, hdrift⟩ := hall _ hmem
  exact ⟨hlen, computed, rest, hans, near_of_not_drifts hdrift⟩

/-- A host whose model scores every row with a half. -/
def halfHost : ModelHost where
  session _ _ := .ok fun rows => .ok (rows.map fun _ => .fin (1 / 2))
  parityLines _ := .ok [.blank, .pair (List.replicate 13 (.fin 0)) (.fin (1 / 2))]
  display _ := ""

/-- A tenth of the users go to a cascade into the model. -/
def rolloutConfig : ScoringConfig where
  kind := .AbTest
  ml := some { modelPath := "model.onnx", parityPath := some "parity.jsonl" }
  cascade := some { stage1 := .FeatureWeighted, stage2 := .Ml, topK := 10 }
  abTest := some ⟨.FeatureWeighted, .Cascade, .ofRat (1 / 10), "rollout"⟩

/-- The batch sizes that the config leaves to their defaults. -/
def defaultBatches : MLScorerConfig := ⟨64, 8, by norm_num, by norm_num⟩

def rolloutScorer : Scorer :=
  .abTest (.featureWeighted .default)
    (.cascade (.featureWeighted .default)
      (.mlWithFallback defaultBatches (.featureWeighted .default)) 10 (.fin 0))
    (.ofRat (1 / 10)) "rollout"

theorem rollout_rootOf : RootOf halfHost rolloutConfig rolloutScorer := by
  have hserves : Serves halfHost
      { modelPath := "model.onnx", parityPath := some "parity.jsonl" } defaultBatches := by
    refine ⟨by decide, rfl, rfl, fun _ _ => ⟨_, rfl⟩, ?_⟩
    rintro path ⟨⟩
    refine ⟨_, rfl, _, rfl, ?_, _, List.mem_cons_of_mem _ List.mem_cons_self, rfl⟩
    simp only [List.forall_mem_cons]
    exact ⟨trivial, ⟨rfl, _, _, rfl, not_drifts_self _⟩, nofun⟩
  have htreatment : ArmOf halfHost rolloutConfig .Cascade
      (.cascade (.featureWeighted .default)
        (.mlWithFallback defaultBatches (.featureWeighted .default)) 10 (.fin 0)) :=
    ArmOf.cascade (c := { stage1 := .FeatureWeighted, stage2 := .Ml, topK := 10 }) rfl
      .featureWeighted (.ml rfl hserves)
  exact RootOf.abTest (a := ⟨.FeatureWeighted, .Cascade, .ofRat (1 / 10), "rollout"⟩) rfl rfl
    (.leaf .featureWeighted) htreatment

theorem served_model_parity_rollout :
    ∃ lines run, halfHost.parityLines "parity.jsonl" = .ok lines ∧
      halfHost.session { modelPath := "model.onnx", parityPath := some "parity.jsonl" } 0 = .ok run ∧
      (∃ l ∈ lines, l.isPair = true) ∧
      ∀ input expected, .pair input (.fin expected) ∈ lines → input.length = FEATURE_COUNT ∧
        ∃ computed rest, run [input] = .ok (computed :: rest) ∧
          (computed = .nan ∨ ∃ c, computed = .fin c ∧ |c - expected| < 1001 / 10000000) :=
  served_model_parity (buildScorerRoot_eq_ok.2 rollout_rootOf) rfl rfl rfl

end Served

end RTB
