import RtbBidder.Proofs.ScorerTree

/-! What a scorer that was built from the config does to a list of candidates, whichever arm,
stages and fallbacks come into play: only scores change, they stay between 0 and 1 if the
model keeps its own there, and the number of inferences is bounded by the batches of two
passes. -/

namespace RTB

variable {ln : Ln} {infer : ℕ → Inference} {ctx : ScoringContext} {cs scored : List AdCandidate}
  {k : ℕ} {m : MLScorerConfig}

section Range

def UnitScores (cs : List AdCandidate) : Prop := ∀ c ∈ cs, c.score.InUnit

theorem unitScores_nil : UnitScores [] := List.forall_mem_nil _

def Priced (cs : List AdCandidate) : Prop := ∀ c ∈ cs, 0 ≤ c.bidPriceCents.toInt

/-- The sessions answer with scores between 0 and 1, where they do not fail. -/
def UnitAnswers (infer : ℕ → Inference) : Prop :=
  ∀ k rows out, infer k rows = .ok out → ∀ x ∈ out, x.InUnit

theorem Priced.of_unscored (h : Priced cs) (hu : scored.map (·.unscored) = cs.map (·.unscored)) :
    Priced scored := by
  intro c hc
  have hmem : c.unscored ∈ cs.map (·.unscored) := hu ▸ List.mem_map_of_mem hc
  obtain ⟨c', hc', heq⟩ := List.mem_map.1 hmem
  have hprice : c'.unscored.bidPriceCents = c.unscored.bidPriceCents :=
    congrArg AdCandidate.bidPriceCents heq
  have hpos : 0 ≤ c'.unscored.bidPriceCents.toInt := h c' hc'
  rwa [hprice] at hpos

theorem zipWith_unitScores {data : List F32} (h : ∀ x ∈ data, x.InUnit) :
    UnitScores (cs.zipWith (fun c score => { c with score := score }) data) := by
  induction cs generalizing data with
  | nil => exact unitScores_nil
  | cons c cs ih =>
    cases data with
    | nil => exact unitScores_nil
    | cons x data =>
      obtain ⟨hx, hdata⟩ := List.forall_mem_cons.1 h
      exact List.forall_mem_cons.2 ⟨hx, ih hdata⟩

theorem scoreBatch_unitScores (hi : UnitAnswers infer)
    (h : m.scoreBatch ln ctx (infer k) cs = .ok scored) : UnitScores scored := by
  unfold MLScorerConfig.scoreBatch at h
  cases hrun : infer k (m.input ln ctx cs) with
  | error e => simp [hrun] at h
  | ok data =>
    simp only [hrun] at h
    split_ifs at h
    obtain rfl := Except.ok.inj h
    exact zipWith_unitScores (hi _ _ _ hrun)

theorem scoreChunks_unitScores {chunks : List (List AdCandidate)} (hi : UnitAnswers infer)
    (h : (m.scoreChunks ln infer ctx chunks k).1 = .ok scored) : UnitScores scored := by
  induction chunks generalizing k scored with
  | nil =>
    cases h
    exact unitScores_nil
  | cons chunk chunks ih =>
    unfold MLScorerConfig.scoreChunks at h
    cases hbatch : m.scoreBatch ln ctx (infer k) chunk with
    | error e => simp [hbatch] at h
    | ok first =>
      simp only [hbatch] at h
      cases hrest : (m.scoreChunks ln infer ctx chunks (k + 1)).1 with
      | error e => simp [hrest, Except.map] at h
      | ok rest =>
        simp only [hrest, Except.map, Except.ok.injEq] at h
        subst h
        exact List.forall_mem_append.2 ⟨scoreBatch_unitScores hi hbatch, ih hrest⟩

theorem writeBackScores_unitScores {batch : List AdCandidate} (hb : UnitScores batch)
    (hc : UnitScores cs) : UnitScores (writeBackScores batch cs) := by
  intro c hmem
  obtain ⟨c₀, hc₀, rfl⟩ := List.mem_map.1 hmem
  cases hfind : batch.reverse.find? (·.key = c₀.key) with
  | none => exact hc c₀ hc₀
  | some b => exact hb b (List.mem_reverse.1 (List.mem_of_find?_eq_some hfind))

/-- Every feature-weighted scorer of the tree has the default weights. -/
def Scorer.HasDefaults : Scorer → Prop
  | .featureWeighted s => s = .default
  | .ml _ => True
  | .mlWithFallback _ fallback => fallback.HasDefaults
  | .cascade s₁ s₂ _ _ => s₁.HasDefaults ∧ s₂.HasDefaults
  | .abTest s t _ _ => s.HasDefaults ∧ t.HasDefaults

theorem Scorer.scoreAll_unitScores {scorer : Scorer} (hd : scorer.HasDefaults)
    (hi : UnitAnswers infer) (hp : Priced cs) :
    UnitScores (scorer.scoreAll ln infer cs ctx k).1 := by
  induction scorer generalizing cs k with
  | featureWeighted s =>
    cases hd
    intro c hc
    obtain ⟨c₀, hc₀, rfl⟩ := List.mem_map.1 hc
    exact FeatureWeightedScorer.default_score_inUnit ctx (hp c₀ hc₀)
  | ml m =>
    simp only [Scorer.scoreAll]
    cases hr : (m.scoreModel ln infer cs ctx k).1 with
    | ok scored => exact scoreChunks_unitScores hi hr
    | error e =>
      intro c hc
      obtain ⟨c₀, -, rfl⟩ := List.mem_map.1 hc
      exact ⟨le_rfl, zero_le_one⟩
  | mlWithFallback m fallback ih =>
    simp only [Scorer.scoreAll]
    cases hr : (m.scoreModel ln infer cs ctx k).1 with
    | ok scored => exact scoreChunks_unitScores hi hr
    | error e => exact ih hd (hp.of_unscored (resetScores_unscored cs))
  | cascade s₁ s₂ topK threshold ih₁ ih₂ =>
    simp only [Scorer.scoreAll]
    split_ifs with hempty hkeys
    · rw [List.isEmpty_iff.1 hempty]
      exact unitScores_nil
    · exact ih₁ hd.1 hp
    · have hstage := hp.of_unscored (s₁.scoreAll_unscored ln infer cs ctx k)
      exact writeBackScores_unitScores
        (ih₂ hd.2 fun c hc => hstage c (List.mem_of_mem_filter hc)) (ih₁ hd.1 hp)
  | abTest s t share seed ihs iht =>
    simp only [Scorer.scoreAll]
    cases pickArm share seed ctx.userId with
    | Control => exact ihs hd.1 hp
    | Treatment => exact iht hd.2 hp

end Range

section Inferences

theorem scoreChunks_inferences (chunks : List (List AdCandidate)) :
    (m.scoreChunks ln infer ctx chunks k).2 ≤ k + chunks.length := by
  induction chunks generalizing k with
  | nil => exact le_rfl
  | cons chunk chunks ih =>
    unfold MLScorerConfig.scoreChunks
    rw [List.length_cons]
    cases m.scoreBatch ln ctx (infer k) chunk with
    | error e => exact Nat.add_le_add_left (Nat.le_add_left 1 _) k
    | ok first =>
      have hrest := ih (k := k + 1)
      dsimp only
      omega

variable {host : ModelHost} {cfg : ScoringConfig} {kind : ScoringKind} {scorer : Scorer}

/-- The batches that the model of the config takes for `n` candidates. -/
def ScoringConfig.batches (cfg : ScoringConfig) (n : ℕ) : ℕ :=
  cfg.ml.elim 0 fun ml => (n + ml.maxBatch - 1) / ml.maxBatch

theorem ScoringConfig.batches_mono (cfg : ScoringConfig) : Monotone cfg.batches := by
  intro n n' h
  unfold batches
  cases cfg.ml with
  | none => exact le_rfl
  | some ml => exact Nat.div_le_div_right (by omega)

theorem LeafOf.inferences (h : LeafOf host cfg kind scorer) (ln : Ln) (infer : ℕ → Inference)
    (cs : List AdCandidate) (ctx : ScoringContext) (k : ℕ) :
    (scorer.scoreAll ln infer cs ctx k).2 ≤ k + cfg.batches cs.length := by
  cases h with
  | featureWeighted => exact Nat.le_add_right ..
  | @ml c m hc hm =>
    have hbatches : cfg.batches cs.length = (Lib.chunks m.maxBatch cs).length := by
      rw [Lib.length_chunks m.maxBatch_pos, hm.maxBatch, ScoringConfig.batches, hc]
      rfl
    have hmodel : (m.scoreModel ln infer cs ctx k).2 ≤ k + cfg.batches cs.length :=
      hbatches ▸ scoreChunks_inferences (Lib.chunks m.maxBatch cs)
    simp only [Scorer.scoreAll]
    cases (m.scoreModel ln infer cs ctx k).1 <;> exact hmodel

theorem ArmOf.inferences (h : ArmOf host cfg kind scorer) :
    (scorer.scoreAll ln infer cs ctx k).2 ≤ k + 2 * cfg.batches cs.length := by
  cases h with
  | leaf h =>
    have hleaf := h.inferences ln infer cs ctx k
    omega
  | @cascade c s₁ s₂ hc h₁ h₂ =>
    have hfirst := h₁.inferences ln infer cs ctx k
    simp only [Scorer.scoreAll]
    split_ifs with hempty hkeys
    · exact Nat.le_add_right ..
    · omega
    · -- the batch of stage 2 is no longer than that of stage 1
      generalize hr : s₁.scoreAll ln infer cs ctx k = r at hfirst ⊢
      have hlen : (r.1.filter (·.key ∈ advanceKeys c.topK c.threshold r.1)).length ≤ cs.length := by
        have hsame := congrArg List.length (s₁.scoreAll_unscored ln infer cs ctx k)
        rw [List.length_map, List.length_map, hr] at hsame
        exact hsame ▸ List.length_filter_le ..
      have hbatches := cfg.batches_mono hlen
      have hsecond := h₂.inferences ln infer
        (r.1.filter (·.key ∈ advanceKeys c.topK c.threshold r.1)) ctx r.2
      dsimp only
      omega

theorem RootOf.inferences (h : RootOf host cfg scorer) :
    (scorer.scoreAll ln infer cs ctx k).2 ≤ k + 2 * cfg.batches cs.length := by
  cases h with
  | arm h => exact h.inferences
  | @abTest a s t hk ha hs ht =>
    simp only [Scorer.scoreAll]
    cases pickArm a.treatmentShare a.hashSeed ctx.userId with
    | Control => exact hs.inferences
    | Treatment => exact ht.inferences

end Inferences

section Built

variable {host : ModelHost} {cfg : ScoringConfig} {kind : ScoringKind} {scorer : Scorer}

theorem LeafOf.hasDefaults (h : LeafOf host cfg kind scorer) : scorer.HasDefaults := by
  cases h with
  | featureWeighted => rfl
  | ml => rfl

theorem ArmOf.hasDefaults (h : ArmOf host cfg kind scorer) : scorer.HasDefaults := by
  cases h with
  | leaf h => exact h.hasDefaults
  | cascade _ h₁ h₂ => exact ⟨h₁.hasDefaults, h₂.hasDefaults⟩

theorem RootOf.hasDefaults (h : RootOf host cfg scorer) : scorer.HasDefaults := by
  cases h with
  | arm h => exact h.hasDefaults
  | abTest _ _ hs ht => exact ⟨hs.hasDefaults, ht.hasDefaults⟩

/-- With any scorer that the config may ask for, scoring changes only scores and leaves them
between 0 and 1, with inferences for at most two passes over the list. -/
theorem built_scores_in_unit (ln : Ln) (ctx : ScoringContext) (k : ℕ)
    (hb : buildScorerRoot host cfg = .ok scorer) (hi : UnitAnswers infer)
    (hp : ∀ c ∈ cs, 0 ≤ c.bidPriceCents.toInt) :
    (scorer.scoreAll ln infer cs ctx k).1.map (·.unscored) = cs.map (·.unscored) ∧
      (∀ c ∈ (scorer.scoreAll ln infer cs ctx k).1, c.score.InUnit) ∧
      (scorer.scoreAll ln infer cs ctx k).2 ≤ k + 2 * cfg.batches cs.length := by
  have hroot := buildScorerRoot_eq_ok.1 hb
  exact ⟨scorer.scoreAll_unscored ln infer cs ctx k,
    Scorer.scoreAll_unitScores hroot.hasDefaults hi hp, hroot.inferences⟩

/-- The model fails at its first inference. -/
def flakyModel : ℕ → Inference := fun k rows =>
  if k = 0 then .error "ONNX inference failed" else .ok (rows.map fun _ => .fin (1 / 2))

theorem flakyModel_unitAnswers : UnitAnswers flakyModel := by
  intro k rows out hout x hx
  simp only [flakyModel] at hout
  split_ifs at hout
  obtain rfl := Except.ok.inj hout
  obtain ⟨-, -, rfl⟩ := List.mem_map.1 hx
  exact ⟨by norm_num, by norm_num⟩

def treatedContext : ScoringContext := ⟨[7], none, none, 12, false, "user-15", false⟩

def treatedCandidates : List AdCandidate := [⟨3, 1, 250, .fin 0, 5, 5⟩, ⟨8, 2, 1500, .fin 0, 5, 5⟩]

theorem built_scores_in_unit_treatment :
    (rolloutScorer.scoreAll id flakyModel treatedCandidates treatedContext 0).1.map (·.unscored) =
        treatedCandidates.map (·.unscored) ∧
      (∀ c ∈ (rolloutScorer.scoreAll id flakyModel treatedCandidates treatedContext 0).1,
        c.score.InUnit) ∧
      (rolloutScorer.scoreAll id flakyModel treatedCandidates treatedContext 0).2 ≤
        0 + 2 * rolloutConfig.batches treatedCandidates.length :=
  built_scores_in_unit id treatedContext 0 (buildScorerRoot_eq_ok.2 rollout_rootOf)
    flakyModel_unitAnswers (by decide)

end Built

end RTB
