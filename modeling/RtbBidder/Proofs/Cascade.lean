import RtbBidder.Lib.Selection
import RtbBidder.Proofs.BidSound
import RtbBidder.Spec.Production
import RtbBidder.Spec.ScoreAll

/-! Which candidates a cascade sends to stage 2 and what scores it leaves. Stage 1 gives no
NaN, so that the sort is by a total order and the truncation takes the best; keys are
distinct, so that the write-back finds each candidate again. -/

namespace RTB

namespace CascadeScorer

open Lib (Selects)

abbrev Entry := (CampaignId × CreativeId) × F32

def entryOf (c : AdCandidate) : Entry := (c.key, c.score)

/-- The order of the sort, for scores that are numbers. -/
def Above (p q : Entry) : Prop := q.2.rank ≤ p.2.rank

instance : DecidableRel Above := fun p q => inferInstanceAs (Decidable (q.2.rank ≤ p.2.rank))

instance : IsTrans Entry Above := ⟨fun _ _ _ hab hbc => le_trans hbc hab⟩

instance : Std.Total Above := ⟨fun _ _ => le_total ..⟩

variable {topK : ℕ} {threshold : F32} {cs : List AdCandidate}

/-- The entries that meet the threshold, best first. -/
def eligible (threshold : F32) (cs : List AdCandidate) : List Entry :=
  ((cs.map entryOf).insertionSort Above).filter fun p => p.2.ge threshold

theorem eligible_sorted : (eligible threshold cs).Pairwise Above :=
  (List.pairwise_insertionSort Above _).filter _

theorem eligible_perm :
    (eligible threshold cs).Perm ((cs.filter (·.score.ge threshold)).map entryOf) := by
  have hperm := (List.perm_insertionSort Above (cs.map entryOf)).filter fun p => p.2.ge threshold
  rwa [List.filter_map] at hperm

/-- How many of those advance at most. -/
def limitOf (topK : ℕ) (threshold : F32) (cs : List AdCandidate) : ℕ :=
  if topK = 0 then (eligible threshold cs).length else topK

theorem advanceKeys_eq (hnan : ∀ c ∈ cs, c.score ≠ .nan) :
    advanceKeys topK threshold cs =
      ((eligible threshold cs).take (limitOf topK threshold cs)).map Prod.fst := by
  have hsort : (cs.map entryOf).insertionSort (fun a b => (b.2.partialCmp a.2).getD .eq ≠ .gt) =
      (cs.map entryOf).insertionSort Above := by
    have hagree : ∀ p ∈ cs.map entryOf, ∀ q ∈ cs.map entryOf,
        (q.2.partialCmp p.2).getD .eq ≠ .gt ↔ Above p q := by
      intro p hp q hq
      obtain ⟨a, ha, rfl⟩ := List.mem_map.1 hp
      obtain ⟨b, hb, rfl⟩ := List.mem_map.1 hq
      have hcmp : b.score.partialCmp a.score = _ := Lib.Binary.partialCmp_eq (hnan b hb) (hnan a ha)
      rw [entryOf, entryOf, hcmp, Option.getD_some, ne_eq, compare_gt_iff_gt, not_lt]
      rfl
    have hid := List.map_insertionSort _ Above id (cs.map entryOf) hagree
    rwa [List.map_id, List.map_id] at hid
  have hkeys : advanceKeys topK threshold cs =
      let keys := (eligible threshold cs).map Prod.fst
      if 0 < topK ∧ topK < keys.length then keys.take topK else keys := by
    rw [eligible, ← hsort]
    rfl
  rw [hkeys, limitOf, List.map_take]
  dsimp only
  rw [List.length_map]
  split_ifs with h h0 h0
  · omega
  · rfl
  · exact (List.take_of_length_le (by simp)).symm
  · exact (List.take_of_length_le (by simp; omega)).symm

theorem limit_selects_eligible (topK : ℕ) (threshold : F32) (cs : List AdCandidate) :
    Selects Above (limitOf topK threshold cs) (eligible threshold cs)
      ((eligible threshold cs).take (limitOf topK threshold cs)) := .take eligible_sorted

/-- Distinct keys pick the entries back out of the list. -/
theorem filter_key_perm (hd : (cs.map (·.key)).Nodup) {taken : List Entry}
    (hsub : taken.Subperm (cs.map entryOf)) :
    ((cs.filter (·.key ∈ taken.map Prod.fst)).map entryOf).Perm taken := by
  have hentries : (cs.map entryOf).Nodup := by
    refine List.Nodup.of_map Prod.fst ?_
    rwa [List.map_map]
  have htaken : taken.Nodup := by
    obtain ⟨m, hperm, hm⟩ := hsub
    exact hperm.nodup_iff.1 (hm.nodup hentries)
  rw [List.perm_ext_iff_of_nodup ((List.filter_sublist.map _).nodup hentries) htaken]
  intro p
  constructor
  · intro hp
    obtain ⟨c, hc, rfl⟩ := List.mem_map.1 hp
    obtain ⟨hc, hkey⟩ := List.mem_filter.1 hc
    obtain ⟨q, hq, hqc⟩ := List.mem_map.1 (of_decide_eq_true hkey)
    obtain ⟨c', hc', rfl⟩ := List.mem_map.1 (hsub.subset hq)
    rwa [← List.inj_on_of_nodup_map hd hc' hc hqc]
  · intro hp
    obtain ⟨c, hc, rfl⟩ := List.mem_map.1 (hsub.subset hp)
    exact List.mem_map_of_mem (List.mem_filter.2
      ⟨hc, decide_eq_true (List.mem_map_of_mem (f := Prod.fst) hp)⟩)

variable {σ : Type} (self : CascadeScorer σ)

theorem stage2Batch_eq : self.stage2Batch cs =
    cs.filter (·.key ∈ advanceKeys self.topK self.threshold cs) := by
  rw [stage2Batch]
  apply List.filter_congr
  intro c _
  rw [Bool.eq_iff_iff, List.any_eq_true, decide_eq_true_iff]
  simp only [decide_eq_true_iff, exists_eq_right]

theorem stage2Batch_perm (hd : (cs.map (·.key)).Nodup) (hnan : ∀ c ∈ cs, c.score ≠ .nan) :
    ((self.stage2Batch cs).map entryOf).Perm
      ((eligible self.threshold cs).take (limitOf self.topK self.threshold cs)) := by
  have hsub : (eligible self.threshold cs).Subperm (cs.map entryOf) :=
    eligible_perm.subperm.trans (List.filter_sublist.map _).subperm
  rw [stage2Batch_eq, advanceKeys_eq hnan]
  exact filter_key_perm hd ((List.take_sublist ..).subperm.trans hsub)

theorem stage2Batch_length (hd : (cs.map (·.key)).Nodup) (hnan : ∀ c ∈ cs, c.score ≠ .nan) :
    (self.stage2Batch cs).length =
      if self.topK = 0 then (cs.filter (·.score.ge self.threshold)).length
      else min self.topK (cs.filter (·.score.ge self.threshold)).length := by
  have hlen := (stage2Batch_perm self hd hnan).length_eq
  have hm : (eligible self.threshold cs).length = (cs.filter (·.score.ge self.threshold)).length := by
    rw [eligible_perm.length_eq, List.length_map]
  rw [List.length_map, List.length_take, limitOf, hm] at hlen
  rw [hlen]
  split_ifs
  · exact Nat.min_self _
  · rfl

theorem stage2Batch_best (hd : (cs.map (·.key)).Nodup) (hnan : ∀ c ∈ cs, c.score ≠ .nan)
    {a : AdCandidate} (ha : a ∈ self.stage2Batch cs) : a.score.ge self.threshold = true ∧
      ∀ b ∈ cs, b.score.ge self.threshold = true → b ∉ self.stage2Batch cs →
        a.score.ge b.score = true := by
  have htaken := (stage2Batch_perm self hd hnan).subset (List.mem_map_of_mem ha)
  obtain ⟨dropped, hsplit, habove⟩ :=
    (limit_selects_eligible self.topK self.threshold cs).split
  refine ⟨(List.mem_filter.1 (List.mem_of_mem_take htaken)).2, ?_⟩
  intro b hb hmeets hout
  have helig : entryOf b ∈ eligible self.threshold cs :=
    eligible_perm.mem_iff.2 (List.mem_map_of_mem (List.mem_filter.2 ⟨hb, hmeets⟩))
  -- an entry that was taken has its candidate in the batch
  have hdropped : entryOf b ∈ dropped := by
    rcases List.mem_append.1 (hsplit.mem_iff.2 helig) with htaken' | hdropped
    · rw [stage2Batch_eq] at hout
      refine absurd (List.mem_filter.2 ⟨hb, decide_eq_true ?_⟩) hout
      rw [advanceKeys_eq hnan]
      exact List.mem_map_of_mem (f := Prod.fst) htaken'
    · exact hdropped
  exact (Lib.Binary.ge_iff (hnan a (List.mem_of_mem_filter ha)) (hnan b hb)).2
    (habove _ htaken _ hdropped)

theorem stage2Batch_eq_nil (hd : (cs.map (·.key)).Nodup) (hnan : ∀ c ∈ cs, c.score ≠ .nan) :
    (advanceKeys self.topK self.threshold cs).isEmpty = true ↔ self.stage2Batch cs = [] := by
  rw [List.isEmpty_iff, ← List.length_eq_zero_iff, ← List.length_eq_zero_iff, advanceKeys_eq hnan,
    List.length_map, ← (stage2Batch_perm self hd hnan).length_eq, List.length_map]

/-- The score of `c'` is the one returned for the key of `c`, or else that of `c`. -/
def Rescored (returned : List AdCandidate) (c c' : AdCandidate) : Prop :=
  (∀ b ∈ returned, b.key = c.key → c'.score = b.score) ∧
    ((∀ b ∈ returned, b.key ≠ c.key) → c'.score = c.score)

theorem writeBackScores_rescored {returned : List AdCandidate}
    (hd : (returned.map (·.key)).Nodup) :
    List.Forall₂ (Rescored returned) cs (writeBackScores returned cs) := by
  rw [writeBackScores, List.forall₂_map_right_iff, List.forall₂_same]
  intro c _
  cases hfind : returned.reverse.find? (·.key = c.key) with
  | none =>
    have hnone : ∀ b ∈ returned, b.key ≠ c.key := by
      simpa [List.find?_eq_none] using hfind
    exact ⟨fun b hb hkey => absurd hkey (hnone b hb), fun _ => rfl⟩
  | some b =>
    have hmem : b ∈ returned := List.mem_reverse.1 (List.mem_of_find?_eq_some hfind)
    have hkey : b.key = c.key := by simpa using List.find?_some hfind
    refine ⟨?_, fun hno => absurd hkey (hno b hmem)⟩
    intro b' hb' hkey'
    rw [List.inj_on_of_nodup_map hd hb' hmem (hkey'.trans hkey.symm)]

/-- The scorer sets scores and nothing else, none of them NaN. -/
def OnlyScores (scorer : DynScorer σ) : Prop :=
  ∀ cs ctx s, (scorer cs ctx s).1.map (·.unscored) = cs.map (·.unscored) ∧
    ∀ c ∈ (scorer cs ctx s).1, c.score ≠ .nan

/-- The scorer neither duplicates nor invents keys. -/
def KeepsKeys (scorer : DynScorer σ) : Prop :=
  ∀ cs ctx s, ((scorer cs ctx s).1.map (·.key)).Subperm (cs.map (·.key))

theorem map_key_of_unscored {cs' : List AdCandidate}
    (h : cs'.map (·.unscored) = cs.map (·.unscored)) : cs'.map (·.key) = cs.map (·.key) := by
  have hkeys := congrArg (List.map AdCandidate.key) h
  rwa [List.map_map, List.map_map] at hkeys

theorem scoreAll_eq (hd : (cs.map (·.key)).Nodup) (h1 : OnlyScores self.stage1)
    (ctx : ScoringContext) (s : σ) :
    let scored := self.stage1 cs ctx s
    (self.scoreAll cs ctx s).1 = if self.stage2Batch scored.1 = [] then scored.1
      else writeBackScores (self.stage2 (self.stage2Batch scored.1) ctx scored.2).1 scored.1 := by
  intro scored
  obtain ⟨hfields, hnan⟩ := h1 cs ctx s
  rw [← map_key_of_unscored hfields] at hd
  have hkeys := stage2Batch_eq_nil self hd hnan
  rw [scoreAll]
  by_cases hcs : cs = []
  · -- stage 1 is not called, and would return nothing
    have hnil : scored.1 = [] :=
      List.map_eq_nil_iff.1 (hfields.trans (by rw [hcs, List.map_nil]))
    simp [hcs, hnil, stage2Batch]
  · rw [if_neg (mt List.isEmpty_iff.1 hcs)]
    by_cases hbatch : self.stage2Batch scored.1 = []
    · rw [if_pos hbatch, if_pos (hkeys.2 hbatch)]
    · rw [if_neg hbatch, if_neg (mt hkeys.1 hbatch)]

theorem cascade_scores (self : CascadeScorer σ) (hd : (cs.map (·.key)).Nodup)
    (h1 : OnlyScores self.stage1) (h2 : KeepsKeys self.stage2) (ctx : ScoringContext) (s : σ) :
    let scored := self.stage1 cs ctx s
    let m := (scored.1.filter (·.score.ge self.threshold)).length
    let batch := self.stage2Batch scored.1
    let returned := if batch = [] then [] else (self.stage2 batch ctx scored.2).1
    let out := (self.scoreAll cs ctx s).1
    out.map (·.unscored) = cs.map (·.unscored) ∧
    batch.Sublist scored.1 ∧
    batch.length = (if self.topK = 0 then m else min self.topK m) ∧
    (∀ a ∈ batch, a.score.ge self.threshold = true ∧
      ∀ b ∈ scored.1, b.score.ge self.threshold = true → b ∉ batch → a.score.ge b.score = true) ∧
    List.Forall₂ (Rescored returned) scored.1 out := by
  intro scored m batch returned out
  obtain ⟨hfields, hnan⟩ := h1 cs ctx s
  have hd' : (scored.1.map (·.key)).Nodup := by
    rw [map_key_of_unscored hfields]
    exact hd
  have hout : out = if batch = [] then scored.1 else writeBackScores _ scored.1 :=
    scoreAll_eq self hd h1 ctx s
  have hsub : batch.Sublist scored.1 := List.filter_sublist
  rw [hout]
  refine ⟨?_, hsub, stage2Batch_length self hd' hnan, fun a ha => stage2Batch_best self hd' hnan ha, ?_⟩
  · split_ifs
    · exact hfields
    · exact (writeBackScores_unscored ..).trans hfields
  · by_cases hbatch : batch = []
    · simp only [returned, if_pos hbatch]
      exact List.forall₂_same.2 fun c _ => ⟨fun b hb => absurd hb List.not_mem_nil, fun _ => rfl⟩
    · simp only [returned, if_neg hbatch]
      apply writeBackScores_rescored
      obtain ⟨keys, hperm, hkeys⟩ := h2 batch ctx scored.2
      exact hperm.nodup_iff.1 (hkeys.nodup ((hsub.map _).nodup hd'))

/-- The cascades among the shipped scorers. -/
theorem scoreAll_cascade (stage1 stage2 : Scorer) (topK : ℕ) (threshold : F32) (ln : Ln)
    (infer : ℕ → Inference) (cs : List AdCandidate) (ctx : ScoringContext) (k : ℕ) :
    (Scorer.cascade stage1 stage2 topK threshold).scoreAll ln infer cs ctx k =
      (CascadeScorer.mk (stage1.scoreAll ln infer) (stage2.scoreAll ln infer) topK
        threshold).scoreAll cs ctx k := by
  rw [Scorer.scoreAll, CascadeScorer.scoreAll]
  simp only [CascadeScorer.stage2Batch_eq]

def sampleCandidates : List AdCandidate :=
  [1, 2, 3, 4, 5].map fun id => ⟨id, 1, 100, .fin 0, 5, 5⟩

def sampleScoring : ScoringContext := ⟨[], none, none, 12, false, "u", false⟩

/-- Stage 1 scores campaigns 2 and 4 alike; stage 2 drops the first of its batch, reverses the
others and scores them 2. -/
def sampleCascade : CascadeScorer Unit where
  stage1 cs _ s :=
    let score (c : AdCandidate) : ℚ := [3, 9, 5, 9, 7].getD (c.campaignId.toNat - 1) 0 / 10
    (cs.map fun c => { c with score := .fin (score c) }, s)
  stage2 cs _ s := (cs.tail.reverse.map fun c => { c with score := .fin 2 }, s)
  topK := 3
  threshold := .fin (1 / 2)

theorem sampleCascade_onlyScores : OnlyScores sampleCascade.stage1 := by
  intro cs ctx s
  refine ⟨?_, ?_⟩
  · rw [sampleCascade, List.map_map]
    rfl
  · intro c hc
    obtain ⟨b, -, rfl⟩ := List.mem_map.1 hc
    exact nofun

theorem sampleCascade_keepsKeys : KeepsKeys sampleCascade.stage2 := by
  intro cs ctx s
  have hkeys : (sampleCascade.stage2 cs ctx s).1.map (·.key) = cs.tail.reverse.map (·.key) := by
    rw [sampleCascade, List.map_map]
    rfl
  rw [hkeys]
  exact ((List.reverse_perm _).map _).subperm.trans ((List.tail_sublist cs).map _).subperm

theorem cascade_scores_with_tie :
    let out := (sampleCascade.scoreAll sampleCandidates sampleScoring ()).1
    (sampleCascade.stage2Batch (sampleCascade.stage1 sampleCandidates sampleScoring ()).1).length = 3 ∧
    out.map (·.unscored) = sampleCandidates ∧
    out.map (·.score) = [.fin (3 / 10), .fin (9 / 10), .fin (1 / 2), .fin 2, .fin 2] := by
  intro out
  obtain ⟨hfields, -, hlen, -⟩ := cascade_scores sampleCascade
    (show (sampleCandidates.map (·.key)).Nodup by decide) sampleCascade_onlyScores
    sampleCascade_keepsKeys sampleScoring ()
  refine ⟨hlen.trans (by decide +kernel), hfields.trans (by decide), by decide +kernel⟩

end CascadeScorer

end RTB
