import RtbBidder.Lib.Nearest
import RtbBidder.Proofs.BidSound
import RtbBidder.Spec.Production
import RtbBidder.Spec.ScoreAll

/-! `MLScorer::score_all` chunk by chunk: it returns what the model gives for each row, or
what the fallback makes of the whole list. -/

namespace RTB

section FeatureWeighted

/-- The scorer that production falls back to gives no NaN. -/
theorem FeatureWeightedScorer.default_score_ne_nan (ctx : ScoringContext) (c : AdCandidate) :
    FeatureWeightedScorer.default.score ctx c ≠ .nan := by
  have hone : (.ofRat 1 : F32) = .fin 1 := Lib.Binary.ofRat_one
  -- The overlap term takes eleven values, which are evaluated.
  obtain ⟨hprice, hoverlap, hhalf⟩ :
      FeatureWeightedScorer.default.weightPrice = .fin (13421773 / 33554432) ∧
      (∀ n < 10, (FeatureWeightedScorer.default.weightSegmentOverlap.mul
        (((.ofRat (n : ℕ) : F32).div (.ofRat 10)).min (.ofRat 1))).Finite) ∧
      (FeatureWeightedScorer.default.weightSegmentOverlap.mul (.ofRat (1 / 2))).Finite := by
    decide +kernel
  refine Lib.Binary.add_ne_nan ?_ ?_
  · rw [hprice, hone]
    exact Lib.Binary.mul_min_ne_nan (by norm_num) _
  · split_ifs
    · refine hoverlap (c.campaignId % 10).toNat ?_
      rw [UInt32.toNat_mod]
      exact Nat.mod_lt _ (by decide)
    · exact hhalf

end FeatureWeighted

namespace MLScorerConfig

variable {cfg : MLScorerConfig} {ln : Ln} {infer : ℕ → Inference} {ctx : ScoringContext}
  {fallback : Option (DynScorer ℕ)} {cs : List AdCandidate} {k : ℕ}

section Chunks

/-- Scores that are wiped do not matter. -/
theorem fallBack_congr {cs' : List AdCandidate} (h : cs'.map (·.unscored) = cs.map (·.unscored)) :
    fallBack fallback cs' ctx k = fallBack fallback cs ctx k := by
  have hreset : resetScores cs' = resetScores cs := h
  unfold fallBack
  rw [hreset]

theorem scoreChunks_cons (chunk : List AdCandidate) (chunks : List (List AdCandidate)) :
    cfg.scoreChunks ln infer ctx (chunk :: chunks) k =
      match cfg.scoreBatch ln ctx (infer k) chunk with
      | .error e => (.error e, k + 1)
      | .ok scored =>
        let rest := cfg.scoreChunks ln infer ctx chunks (k + 1)
        (rest.1.map (scored ++ ·), rest.2) := rfl

/-- The slice of a round is the next chunk. -/
theorem drop_take_min (n start : ℕ) :
    (cs.take (min (start + n) cs.length)).drop start = (cs.drop start).take n := by
  rw [List.drop_take, List.take_eq_take_iff, List.length_drop]
  omega

theorem drop_min_length (m : ℕ) : cs.drop (min m cs.length) = cs.drop m := by
  rcases le_total m cs.length with h | h
  · rw [Nat.min_eq_left h]
  · rw [Nat.min_eq_right h, List.drop_length, List.drop_of_length_le h]

/-- The list after a round: the scored slice stands in its place, the rest is as it was. -/
theorem round_written {run : Inference} {start stop : ℕ} {scored : List AdCandidate}
    (hb : cfg.scoreBatch ln ctx run ((cs.take stop).drop start) = .ok scored)
    (hstart : start ≤ stop) (hstop : stop ≤ cs.length) :
    (cs.take start ++ scored ++ cs.drop stop).take stop = cs.take start ++ scored ∧
      (cs.take start ++ scored ++ cs.drop stop).drop stop = cs.drop stop ∧
      (cs.take start ++ scored ++ cs.drop stop).map (·.unscored) = cs.map (·.unscored) := by
  have hlen : (cs.take start ++ scored).length = stop := by
    rw [List.length_append, scoreBatch_length hb, List.length_drop, List.length_take,
      List.length_take]
    omega
  have hsplit : cs.take start ++ (cs.take stop).drop start ++ cs.drop stop = cs := by
    rw [← Nat.min_eq_left hstart, ← List.take_take, Nat.min_eq_left hstart,
      List.take_append_drop, List.take_append_drop]
  refine ⟨List.take_left' hlen, List.drop_left' hlen, ?_⟩
  rw [List.map_append, List.map_append, scoreBatch_unscored hb, ← List.map_append,
    ← List.map_append, hsplit]

/-- The loop over indices is the recursion over chunks. -/
theorem scoreAllFrom_eq {start : ℕ} (hstart : start ≤ cs.length) :
    cfg.scoreAllFrom ln infer fallback ctx start cs k =
      let r := cfg.scoreChunks ln infer ctx (Lib.chunks cfg.maxBatch (cs.drop start)) k
      match r.1 with
      | .ok scored => (cs.take start ++ scored, r.2)
      | .error _ => fallBack fallback cs ctx r.2 := by
  fun_induction cfg.scoreAllFrom ln infer fallback ctx start cs k with
  | case1 start cs k hlt stop e hb =>
    have hne : cs.drop start ≠ [] := mt List.drop_eq_nil_iff.1 (not_le.2 hlt)
    rw [drop_take_min] at hb
    rw [Lib.chunks_of_ne_nil cfg.maxBatch_pos hne, scoreChunks_cons, hb]
  | case2 start cs k hlt stop scored hb ih =>
    have hne : cs.drop start ≠ [] := mt List.drop_eq_nil_iff.1 (not_le.2 hlt)
    obtain ⟨htake, hdrop, hfields⟩ := round_written hb (by omega) (Nat.min_le_right _ _)
    have hlen := congrArg List.length hfields
    rw [List.length_map, List.length_map] at hlen
    have hnext : cs.drop stop = (cs.drop start).drop cfg.maxBatch := by
      rw [drop_min_length, List.drop_drop]
    rw [ih (by omega), htake, hdrop.trans hnext]
    rw [drop_take_min] at hb
    rw [Lib.chunks_of_ne_nil cfg.maxBatch_pos hne, scoreChunks_cons, hb]
    dsimp only
    cases cfg.scoreChunks ln infer ctx (Lib.chunks cfg.maxBatch _) (k + 1) with
    | mk rest k' =>
      cases rest with
      | ok rest => simp [Except.map]
      | error e => exact fallBack_congr hfields
  | case3 start cs k hlt =>
    rw [List.drop_of_length_le (not_lt.1 hlt), List.take_of_length_le (not_lt.1 hlt)]
    simp [scoreChunks]

theorem scoreAll_of_ok {scored : List AdCandidate}
    (h : (cfg.scoreModel ln infer cs ctx k).1 = .ok scored) :
    cfg.scoreAll ln infer fallback cs ctx k = (scored, (cfg.scoreModel ln infer cs ctx k).2) := by
  rw [scoreAll, scoreAllFrom_eq (Nat.zero_le _), List.drop_zero]
  unfold scoreModel at h ⊢
  simp only [h, List.take_zero, List.nil_append]

theorem scoreAll_of_error {e : String} (h : (cfg.scoreModel ln infer cs ctx k).1 = .error e) :
    cfg.scoreAll ln infer fallback cs ctx k =
      fallBack fallback cs ctx (cfg.scoreModel ln infer cs ctx k).2 := by
  rw [scoreAll, scoreAllFrom_eq (Nat.zero_le _), List.drop_zero]
  unfold scoreModel at h ⊢
  simp only [h]

/-- The ML scorers among the shipped ones. -/
theorem scoreAll_ml : (Scorer.ml cfg).scoreAll ln infer cs ctx k =
    cfg.scoreAll ln infer none cs ctx k := by
  rw [Scorer.scoreAll]
  cases h : (cfg.scoreModel ln infer cs ctx k).1 with
  | ok scored => rw [scoreAll_of_ok h]
  | error e =>
    rw [scoreAll_of_error h]
    rfl

theorem scoreAll_mlWithFallback (scorer : Scorer) :
    (Scorer.mlWithFallback cfg scorer).scoreAll ln infer cs ctx k =
      cfg.scoreAll ln infer (some (scorer.scoreAll ln infer)) cs ctx k := by
  rw [Scorer.scoreAll]
  cases h : (cfg.scoreModel ln infer cs ctx k).1 with
  | ok scored => rw [scoreAll_of_ok h]
  | error e =>
    rw [scoreAll_of_error h]
    rfl

theorem scoreBatch_eq_ok_iff {run : Inference} {chunk scored : List AdCandidate} :
    cfg.scoreBatch ln ctx run chunk = .ok scored ↔ ∃ data, run (cfg.input ln ctx chunk) = .ok data ∧
      chunk.length ≤ data.length ∧
        chunk.zipWith (fun c score => { c with score := score }) data = scored := by
  unfold scoreBatch
  cases run (cfg.input ln ctx chunk) with
  | error e => simp
  | ok data =>
    by_cases hlen : data.length < chunk.length
    · simp [hlen]
    · simp [hlen, not_lt.1 hlen]

variable {chunks : List (List AdCandidate)}

/-- All chunks were scored, in order. -/
theorem scoreChunks_of_ok {scored : List AdCandidate}
    (h : (cfg.scoreChunks ln infer ctx chunks k).1 = .ok scored) :
    ∃ parts : List (List AdCandidate), parts.flatten = scored ∧ parts.length = chunks.length ∧
      ∀ (j : ℕ) (chunk : List AdCandidate), chunks[j]? = some chunk →
        ∃ part, parts[j]? = some part ∧ cfg.scoreBatch ln ctx (infer (k + j)) chunk = .ok part := by
  induction chunks generalizing k scored with
  | nil =>
    obtain rfl := Except.ok.inj h
    exact ⟨[], rfl, rfl, nofun⟩
  | cons chunk chunks ih =>
    rw [scoreChunks_cons] at h
    cases hb : cfg.scoreBatch ln ctx (infer k) chunk with
    | error e =>
      rw [hb] at h
      cases h
    | ok part =>
      rw [hb] at h
      cases hrest : (cfg.scoreChunks ln infer ctx chunks (k + 1)).1 with
      | error e =>
        simp only [hrest] at h
        cases h
      | ok rest =>
        simp only [hrest] at h
        obtain rfl := Except.ok.inj h
        obtain ⟨parts, rfl, hlen, hparts⟩ := ih hrest
        refine ⟨part :: parts, rfl, congrArg Nat.succ hlen, ?_⟩
        intro j c hc
        cases j with
        | zero =>
          obtain rfl : chunk = c := by simpa using hc
          exact ⟨part, rfl, hb⟩
        | succ j =>
          obtain ⟨p, hp, hbatch⟩ := hparts j c (by simpa using hc)
          refine ⟨p, by simpa using hp, ?_⟩
          rwa [Nat.add_assoc, Nat.add_comm 1] at hbatch

/-- The first chunk that fails ends the loop. -/
theorem scoreChunks_of_error {e : String}
    (h : (cfg.scoreChunks ln infer ctx chunks k).1 = .error e) :
    ∃ (j : ℕ) (chunk : List AdCandidate), chunks[j]? = some chunk ∧
      cfg.scoreBatch ln ctx (infer (k + j)) chunk = .error e ∧
      (∀ j' < j, ∀ chunk', chunks[j']? = some chunk' →
        ∃ part, cfg.scoreBatch ln ctx (infer (k + j')) chunk' = .ok part) ∧
      (cfg.scoreChunks ln infer ctx chunks k).2 = k + j + 1 := by
  induction chunks generalizing k with
  | nil => cases h
  | cons chunk chunks ih =>
    rw [scoreChunks_cons] at h ⊢
    cases hb : cfg.scoreBatch ln ctx (infer k) chunk with
    | error e' =>
      rw [hb] at h
      obtain rfl := Except.error.inj h
      exact ⟨0, chunk, rfl, hb, nofun, rfl⟩
    | ok part =>
      rw [hb] at h
      cases hrest : (cfg.scoreChunks ln infer ctx chunks (k + 1)).1 with
      | ok rest =>
        simp only [hrest] at h
        cases h
      | error e' =>
        simp only [hrest] at h
        obtain rfl := Except.error.inj h
        obtain ⟨j, c, hc, hfail, hbefore, hk⟩ := ih hrest
        refine ⟨j + 1, c, by simpa using hc, ?_, ?_, ?_⟩
        · rwa [Nat.add_comm j, ← Nat.add_assoc]
        · intro j' hj' c' hc'
          cases j' with
          | zero =>
            obtain rfl : chunk = c' := by simpa using hc'
            exact ⟨part, hb⟩
          | succ j' =>
            rw [Nat.add_comm j', ← Nat.add_assoc]
            exact hbefore j' (by omega) c' (by simpa using hc')
        · refine hk.trans ?_
          omega

end Chunks

section RowWise

variable {g : List F32 → F32}

/-- The candidate with the model's output on its own row. -/
def scoredBy (ln : Ln) (g : List F32 → F32) (ctx : ScoringContext) (c : AdCandidate) : AdCandidate :=
  { c with score := g (featureRow ln ctx c) }

theorem zipWith_map_append {α β γ : Type} (f : α → β → γ) (h : α → β) (l : List α) (rest : List β) :
    l.zipWith f (l.map h ++ rest) = l.map fun a => f a (h a) := by
  induction l with
  | nil => rfl
  | cons a l ih => rw [List.map_cons, List.cons_append, List.zipWith_cons_cons, ih, List.map_cons]

/-- The rows of zeros come last, and their outputs are not read. -/
theorem scoreBatch_rowwise {run : Inference} {chunk : List AdCandidate}
    (h : run (cfg.input ln ctx chunk) = .ok ((cfg.input ln ctx chunk).map g)) :
    cfg.scoreBatch ln ctx run chunk = .ok (chunk.map (scoredBy ln g ctx)) := by
  refine scoreBatch_eq_ok_iff.2 ⟨_, h, ?_, ?_⟩
  · rw [List.length_map, input, List.length_append, List.length_map]
    omega
  · rw [input, List.map_append, List.map_map, zipWith_map_append]
    rfl

theorem scoreChunks_map {chunks : List (List AdCandidate)} {f : AdCandidate → AdCandidate}
    (h : ∀ (j : ℕ) (chunk : List AdCandidate), chunks[j]? = some chunk →
      cfg.scoreBatch ln ctx (infer (k + j)) chunk = .ok (chunk.map f)) :
    (cfg.scoreChunks ln infer ctx chunks k).1 = .ok (chunks.flatten.map f) := by
  induction chunks generalizing k with
  | nil => rfl
  | cons chunk chunks ih =>
    have hfirst := h 0 chunk rfl
    have hrest : (cfg.scoreChunks ln infer ctx chunks (k + 1)).1 = .ok (chunks.flatten.map f) := by
      apply ih
      intro j chunk' hc
      rw [Nat.add_assoc, Nat.add_comm 1]
      exact h (j + 1) chunk' (by simpa using hc)
    rw [Nat.add_zero] at hfirst
    simp only [scoreChunks_cons, hfirst, hrest, Except.map, List.flatten_cons, List.map_append]

theorem scoreAll_all_or_nothing (cfg : MLScorerConfig) (ln : Ln) (infer : ℕ → Inference)
    (fallback : Option (DynScorer ℕ)) (cs : List AdCandidate) (ctx : ScoringContext) (k : ℕ)
    (g : List F32 → F32) (hmodel : ∀ k rows out, infer k rows = .ok out → out = rows.map g) :
    let chunks := Lib.chunks cfg.maxBatch cs
    let wiped := cs.map fun c => { c with score := .fin 0 }
    ((∀ (j : ℕ) (chunk : List AdCandidate), chunks[j]? = some chunk →
        ∃ out, infer (k + j) (cfg.input ln ctx chunk) = .ok out) →
      (cfg.scoreAll ln infer fallback cs ctx k).1 =
        cs.map fun c => { c with score := g (featureRow ln ctx c) }) ∧
    ((∃ (j : ℕ) (chunk : List AdCandidate) (e : String), chunks[j]? = some chunk ∧
        infer (k + j) (cfg.input ln ctx chunk) = .error e) →
      ∃ k', cfg.scoreAll ln infer fallback cs ctx k =
        fallback.elim (wiped, k') fun scoreAll => scoreAll wiped ctx k') := by
  intro chunks wiped
  constructor
  · intro hok
    have hmap : (cfg.scoreModel ln infer cs ctx k).1 = .ok (cs.map (scoredBy ln g ctx)) := by
      refine (scoreChunks_map ?_).trans
        (congrArg _ (congrArg _ (Lib.flatten_chunks cfg.maxBatch_pos cs)))
      intro j chunk hc
      obtain ⟨out, hout⟩ := hok j chunk hc
      exact scoreBatch_rowwise (hmodel _ _ _ hout ▸ hout)
    rw [scoreAll_of_ok hmap]
    rfl
  · rintro ⟨j, chunk, e, hc, he⟩
    cases hr : (cfg.scoreModel ln infer cs ctx k).1 with
    | ok scored =>
      obtain ⟨parts, -, -, hparts⟩ := scoreChunks_of_ok hr
      obtain ⟨part, -, hpart⟩ := hparts j chunk hc
      obtain ⟨data, hdata, -⟩ := scoreBatch_eq_ok_iff.1 hpart
      rw [he] at hdata
      cases hdata
    | error e' =>
      refine ⟨(cfg.scoreModel ln infer cs ctx k).2, (scoreAll_of_error hr).trans ?_⟩
      cases fallback <;> rfl

/-- Chunks of two, padded to four rows. -/
def sampleConfig : MLScorerConfig := ⟨2, 4, by decide, by decide⟩

def sampleList : List AdCandidate :=
  [⟨1, 1, 100, .fin 0, 5, 5⟩, ⟨2, 1, 250, .fin 0, 5, 5⟩, ⟨3, 1, 500, .fin 0, 5, 5⟩]

def sampleContext : ScoringContext := ⟨[], none, none, 12, false, "u", false⟩

/-- The model's output is the first feature; it fails from the second inference on. -/
def failingModel : ℕ → Inference := fun k rows =>
  if k = 0 then .ok (rows.map fun row => row.headD .nan) else .error "ONNX inference failed"

theorem scoreAll_all_or_nothing_three :
    (sampleConfig.scoreAll id (fun _ rows => .ok (rows.map fun row => row.headD .nan)) none
      sampleList sampleContext 0).1.map (·.score) =
        sampleList.map (fun c => (featureRow id sampleContext c).headD .nan) ∧
    (sampleConfig.scoreAll id failingModel none sampleList sampleContext 0).1 = sampleList := by
  have hok := (scoreAll_all_or_nothing sampleConfig id
    (fun _ rows => .ok (rows.map fun row => row.headD .nan)) none sampleList sampleContext 0
    (fun row => row.headD .nan) (fun _ _ _ h => (Except.ok.inj h).symm)).1 (fun _ _ _ => ⟨_, rfl⟩)
  have hmodel : ∀ k rows out, failingModel k rows = .ok out →
      out = rows.map fun row => row.headD .nan := by
    intro k rows out h
    unfold failingModel at h
    split_ifs at h
    exact (Except.ok.inj h).symm
  obtain ⟨k', hfail⟩ := (scoreAll_all_or_nothing sampleConfig id failingModel none sampleList
    sampleContext 0 _ hmodel).2 ⟨1, [⟨3, 1, 500, .fin 0, 5, 5⟩], _, by decide, rfl⟩
  refine ⟨?_, ?_⟩
  · rw [hok, List.map_map]
    rfl
  · rw [hfail]
    rfl

end RowWise

section NaN

variable {scoreFallback : DynScorer ℕ}

/-- The inference for the `j`-th chunk fails, or returns too few values. -/
def ChunkFails (cfg : MLScorerConfig) (ln : Ln) (infer : ℕ → Inference) (ctx : ScoringContext)
    (k j : ℕ) (chunk : List AdCandidate) : Prop :=
  ∀ data, infer (k + j) (cfg.input ln ctx chunk) = .ok data → data.length < chunk.length

/-- The model answers for the candidates of the `j`-th chunk, with numbers only. -/
def ChunkScored (cfg : MLScorerConfig) (ln : Ln) (infer : ℕ → Inference) (ctx : ScoringContext)
    (k j : ℕ) (chunk : List AdCandidate) : Prop :=
  ∃ data, infer (k + j) (cfg.input ln ctx chunk) = .ok data ∧ chunk.length ≤ data.length ∧
    .nan ∉ data.take chunk.length

def NaNFree (cs : List AdCandidate) : Prop := ∀ c ∈ cs, c.score ≠ .nan

theorem zipWith_nanFree {chunk : List AdCandidate} {data : List F32}
    (hlen : chunk.length ≤ data.length) :
    NaNFree (chunk.zipWith (fun c score => { c with score := score }) data) ↔
      Lib.Binary.nan ∉ data.take chunk.length := by
  induction chunk generalizing data with
  | nil => simp [NaNFree]
  | cons c chunk ih =>
    cases data with
    | nil => cases hlen
    | cons x data =>
      have hrest := ih (Nat.le_of_succ_le_succ hlen)
      rw [NaNFree, List.zipWith_cons_cons, List.forall_mem_cons, List.length_cons,
        List.take_succ_cons, List.mem_cons, not_or]
      exact and_congr ne_comm hrest

theorem chunkFails_of_error {j : ℕ} {chunk : List AdCandidate} {e : String}
    (h : cfg.scoreBatch ln ctx (infer (k + j)) chunk = .error e) :
    ChunkFails cfg ln infer ctx k j chunk := by
  intro data hdata
  by_contra hlen
  rw [scoreBatch_eq_ok_iff.2 ⟨data, hdata, not_lt.1 hlen, rfl⟩] at h
  cases h

theorem not_chunkFails_of_ok {j : ℕ} {chunk part : List AdCandidate}
    (h : cfg.scoreBatch ln ctx (infer (k + j)) chunk = .ok part) :
    ¬ ChunkFails cfg ln infer ctx k j chunk := by
  obtain ⟨data, hdata, hlen, -⟩ := scoreBatch_eq_ok_iff.1 h
  exact fun hfails => absurd (hfails data hdata) (not_lt.2 hlen)

theorem nanFree_iff_of_ok {j : ℕ} {chunk part : List AdCandidate}
    (h : cfg.scoreBatch ln ctx (infer (k + j)) chunk = .ok part) :
    NaNFree part ↔ ChunkScored cfg ln infer ctx k j chunk := by
  obtain ⟨data, hdata, hlen, rfl⟩ := scoreBatch_eq_ok_iff.1 h
  rw [zipWith_nanFree hlen]
  constructor
  · exact fun hnan => ⟨data, hdata, hlen, hnan⟩
  · rintro ⟨data', hdata', -, hnan⟩
    rw [hdata] at hdata'
    obtain rfl := Except.ok.inj hdata'
    exact hnan

theorem scoreChunks_nanFree_iff {chunks : List (List AdCandidate)} {scored : List AdCandidate}
    (h : (cfg.scoreChunks ln infer ctx chunks k).1 = .ok scored) :
    NaNFree scored ↔ ∀ (j : ℕ) (chunk : List AdCandidate), chunks[j]? = some chunk →
      ChunkScored cfg ln infer ctx k j chunk := by
  obtain ⟨parts, rfl, hlen, hparts⟩ := scoreChunks_of_ok h
  constructor
  · intro hnan j chunk hc
    obtain ⟨part, hpart, hbatch⟩ := hparts j chunk hc
    refine (nanFree_iff_of_ok hbatch).1 fun c hmem => hnan c ?_
    exact List.mem_flatten.2 ⟨part, List.mem_of_getElem? hpart, hmem⟩
  · intro hscored c hmem
    obtain ⟨part, hpart, hmem⟩ := List.mem_flatten.1 hmem
    obtain ⟨j, hj, rfl⟩ := List.mem_iff_getElem.1 hpart
    have hc := List.getElem?_eq_getElem (hlen ▸ hj)
    obtain ⟨part, hpart, hbatch⟩ := hparts j _ hc
    obtain rfl : parts[j] = part := by simpa [List.getElem?_eq_getElem hj] using hpart
    exact (nanFree_iff_of_ok hbatch).2 (hscored j _ hc) c hmem

/-- The `j`-th chunk is the first one that fails. -/
def FirstFails (cfg : MLScorerConfig) (ln : Ln) (infer : ℕ → Inference) (ctx : ScoringContext)
    (k : ℕ) (chunks : List (List AdCandidate)) (j : ℕ) : Prop :=
  ∃ chunk, chunks[j]? = some chunk ∧ ChunkFails cfg ln infer ctx k j chunk ∧
    ∀ j' < j, ∀ chunk', chunks[j']? = some chunk' → ¬ ChunkFails cfg ln infer ctx k j' chunk'

theorem FirstFails.unique {chunks : List (List AdCandidate)} {i j : ℕ}
    (hi : FirstFails cfg ln infer ctx k chunks i) (hj : FirstFails cfg ln infer ctx k chunks j) :
    i = j := by
  obtain ⟨chunk, hc, hfails, hbefore⟩ := hi
  obtain ⟨chunk', hc', hfails', hbefore'⟩ := hj
  rcases lt_trichotomy i j with h | h | h
  · exact absurd hfails (hbefore' i h chunk hc)
  · exact h
  · exact absurd hfails' (hbefore j h chunk' hc')

theorem firstFails_of_error {chunks : List (List AdCandidate)} {e : String}
    (h : (cfg.scoreChunks ln infer ctx chunks k).1 = .error e) :
    ∃ j, FirstFails cfg ln infer ctx k chunks j ∧
      (cfg.scoreChunks ln infer ctx chunks k).2 = k + j + 1 := by
  obtain ⟨j, chunk, hc, hfail, hbefore, hk⟩ := scoreChunks_of_error h
  refine ⟨j, ⟨chunk, hc, chunkFails_of_error hfail, ?_⟩, hk⟩
  intro j' hj' chunk' hc'
  obtain ⟨part, hpart⟩ := hbefore j' hj' chunk' hc'
  exact not_chunkFails_of_ok hpart

theorem scoreAll_nanFree_iff (cs : List AdCandidate) :
    NaNFree (cfg.scoreAll ln infer (some scoreFallback) cs ctx k).1 ↔
      (∀ (j : ℕ) (chunk : List AdCandidate), (Lib.chunks cfg.maxBatch cs)[j]? = some chunk →
        ChunkScored cfg ln infer ctx k j chunk) ∨
      ∃ (j : ℕ) (chunk : List AdCandidate), (Lib.chunks cfg.maxBatch cs)[j]? = some chunk ∧
        ChunkFails cfg ln infer ctx k j chunk ∧
        (∀ j' < j, ∀ chunk', (Lib.chunks cfg.maxBatch cs)[j']? = some chunk' →
          ¬ ChunkFails cfg ln infer ctx k j' chunk') ∧
        NaNFree (scoreFallback (resetScores cs) ctx (k + j + 1)).1 := by
  cases hr : (cfg.scoreModel ln infer cs ctx k).1 with
  | ok scored =>
    rw [scoreAll_of_ok hr, scoreChunks_nanFree_iff hr, or_iff_left]
    rintro ⟨j, chunk, hc, hfails, -⟩
    obtain ⟨parts, -, -, hparts⟩ := scoreChunks_of_ok hr
    obtain ⟨part, -, hbatch⟩ := hparts j chunk hc
    exact not_chunkFails_of_ok hbatch hfails
  | error e =>
    obtain ⟨j, hfirst, hk⟩ := firstFails_of_error hr
    obtain ⟨chunk, hc, hfails, hbefore⟩ := hfirst
    rw [scoreAll_of_error hr, scoreModel, hk, or_iff_right]
    · constructor
      · exact fun hnan => ⟨j, chunk, hc, hfails, hbefore, hnan⟩
      · rintro ⟨i, chunk', hc', hfails', hbefore', hnan⟩
        obtain rfl : i = j :=
          FirstFails.unique ⟨chunk', hc', hfails', hbefore'⟩ ⟨chunk, hc, hfails, hbefore⟩
        exact hnan
    · intro hscored
      obtain ⟨data, hdata, hlen, -⟩ := hscored j chunk hc
      exact absurd (hfails data hdata) (not_lt.2 hlen)

theorem winner_ge {out : List AdCandidate} (h : NaNFree out) (imps : List Imp)
    (pacer : LocalBudgetPacer) :
    ∀ w ∈ (rankAll imps 0 pacer [out]).1, ∀ c ∈ out, w.score.ge c.score = true := by
  intro w hw c hc
  unfold rankAll at hw
  cases hmax : maxBy rankCmp out with
  | none => simp [hmax, rankAll] at hw
  | some best =>
    obtain rfl : w = winnerOf imps 0 best := by simpa [hmax, rankAll] using hw
    have hbest := maxBy_best hmax h c hc
    have hmem := h best (maxBy_mem hmax)
    rw [Beats, Lib.Binary.partialCmp_eq hmem (h c hc), not_or] at hbest
    refine (Lib.Binary.ge_iff hmem (h c hc)).2 (not_lt.1 fun hlt => hbest.1 ?_)
    rw [compare_lt_iff_lt.2 hlt]

theorem no_nan_reaches_ranking_iff (cfg : MLScorerConfig) (ln : Ln) (infer : ℕ → Inference)
    (scoreFallback : DynScorer ℕ) (cs : List AdCandidate) (ctx : ScoringContext) (k : ℕ) :
    let chunks := Lib.chunks cfg.maxBatch cs
    let out := (cfg.scoreAll ln infer (some scoreFallback) cs ctx k).1
    ((∀ c ∈ out, c.score ≠ .nan) ∧ ∀ imps pacer, ∀ w ∈ (rankAll imps 0 pacer [out]).1,
        ∀ c ∈ out, w.score.ge c.score = true) ↔
      (∀ (j : ℕ) (chunk : List AdCandidate), chunks[j]? = some chunk →
        ChunkScored cfg ln infer ctx k j chunk) ∨
      ∃ (j : ℕ) (chunk : List AdCandidate), chunks[j]? = some chunk ∧
        ChunkFails cfg ln infer ctx k j chunk ∧
        (∀ j' < j, ∀ chunk', chunks[j']? = some chunk' →
          ¬ ChunkFails cfg ln infer ctx k j' chunk') ∧
        NaNFree (scoreFallback (resetScores cs) ctx (k + j + 1)).1 := by
  intro chunks out
  rw [← scoreAll_nanFree_iff]
  exact ⟨fun h => h.1, fun h => ⟨h, winner_ge h⟩⟩

/-- The model gives a number, a NaN and a number. -/
def nanModel : ℕ → Inference := fun _ _ =>
  .ok [.fin (9 / 10), .nan, .fin (1 / 10), .fin 0]

def featureWeightedFallback : DynScorer ℕ := fun cs ctx k =>
  (FeatureWeightedScorer.default.scoreAll cs ctx, k)

/-- The NaN stays, and the cheapest score of the list wins on price. -/
theorem nan_output_ranked :
    let out := (MLScorerConfig.scoreAll ⟨64, 4, by decide, by decide⟩ id nanModel
      (some featureWeightedFallback) sampleList sampleContext 0).1
    out.map (·.score) = [.fin (9 / 10), .nan, .fin (1 / 10)] ∧
      (rankAll [] 0 .new [out]).1.map (·.score) = [.fin (1 / 10)] := by
  intro out
  have hout : out = sampleList.zipWith (fun c score => { c with score := score })
      [.fin (9 / 10), .nan, .fin (1 / 10)] :=
    congrArg Prod.fst (scoreAll_of_ok rfl)
  rw [hout]
  decide +kernel

theorem no_nan_reaches_ranking_after_failure :
    let out := (MLScorerConfig.scoreAll ⟨64, 4, by decide, by decide⟩ id
      (fun _ _ => .error "ONNX inference failed") (some featureWeightedFallback) sampleList
      sampleContext 0).1
    (∀ c ∈ out, c.score ≠ .nan) ∧ ∀ imps pacer, ∀ w ∈ (rankAll imps 0 pacer [out]).1,
      ∀ c ∈ out, w.score.ge c.score = true := by
  refine (no_nan_reaches_ranking_iff _ id _ featureWeightedFallback sampleList sampleContext 0).2
    (.inr ⟨0, sampleList, rfl, nofun, nofun, ?_⟩)
  intro c hc
  obtain ⟨b, -, rfl⟩ := List.mem_map.1 hc
  exact FeatureWeightedScorer.default_score_ne_nan _ _

end NaN

end MLScorerConfig

end RTB
