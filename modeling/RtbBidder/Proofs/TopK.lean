import RtbBidder.Proofs.PipelineRun
import RtbBidder.Spec.CandidateLimit

/-! `CandidateLimitStage` keeps the best of each impression's candidates: the heap's order
is total, so that the heap always ejects a least one. The list the pipeline's model keeps in
the heap's place selects the same candidates. -/

namespace RTB

open Lib (Selects)

/-- The heap's order as one on pairs of numbers: the dearest first, then the lowest id. -/
def heapKey (c : AdCandidate) : ℤ ×ₗ ℕ := toLex (-c.bidPriceCents.toInt, c.campaignId.toNat)

theorem reverseLe_iff {a b : AdCandidate} :
    reverseLe a b ↔ b.bidPriceCents < a.bidPriceCents ∨
      b.bidPriceCents = a.bidPriceCents ∧ a.campaignId ≤ b.campaignId := by
  unfold reverseLe heapCmp
  rw [ne_eq, Ordering.then_eq_gt, Std.compare_eq_gt, Std.compare_eq_iff_eq, Std.compare_eq_gt,
    not_or, not_and, Int32.not_lt, UInt32.not_lt, Int32.le_iff_lt_or_eq]
  have hne (h : b.bidPriceCents < a.bidPriceCents) : b.bidPriceCents ≠ a.bidPriceCents :=
    Int32.ne_of_lt h
  tauto

theorem reverseLe_iff_heapKey {a b : AdCandidate} : reverseLe a b ↔ heapKey a ≤ heapKey b := by
  rw [reverseLe_iff, heapKey, heapKey, Prod.Lex.toLex_le_toLex, neg_lt_neg_iff, neg_inj,
    Int32.lt_iff_toInt_lt, UInt32.le_iff_toNat_le, Int32.toInt_inj, eq_comm]

instance : IsTrans AdCandidate reverseLe where
  trans a b c hab hbc := by
    rw [reverseLe_iff_heapKey] at *
    exact hab.trans hbc

instance : Std.Total reverseLe where
  total a b := by
    rw [reverseLe_iff_heapKey, reverseLe_iff_heapKey]
    exact le_total ..

/-- Ties are between candidates of one campaign only. -/
theorem reverseLe_antisymm {a b : AdCandidate} (hab : reverseLe a b) (hba : reverseLe b a) :
    a.campaignId = b.campaignId := by
  rw [reverseLe_iff_heapKey] at hab hba
  have hkey := toLex.injective (le_antisymm hab hba)
  exact UInt32.toNat_inj.1 (congrArg Prod.snd hkey)

theorem selects_perm {k : ℕ} {cs cs' kept kept' : List AdCandidate} (hd : Distinct cs)
    (hp : cs.Perm cs') (h : Selects reverseLe k cs kept) (h' : Selects reverseLe k cs' kept') :
    kept.Perm kept' :=
  h.perm h' hp fun _ ha _ hb hab hba =>
    List.inj_on_of_nodup_map hd ha hb (reverseLe_antisymm hab hba)

theorem limit_selects (self : CandidateLimitStage) (cs : List AdCandidate) :
    Selects reverseLe self.topK cs (self.limit cs) := by
  unfold CandidateLimitStage.limit
  split_ifs with h
  · exact ⟨by omega, [], by simp, by simp⟩
  · exact Lib.BinaryHeap.keepLeast_selects cs

theorem CandidateLimitStage.getElem?_execute (self : CandidateLimitStage) {ctx : BidContext} {i : ℕ}
    {cs : List AdCandidate} (h : ctx.candidates[i]? = some cs) :
    (self.execute ctx).candidates[i]? = some (self.limit cs) := by
  simp [CandidateLimitStage.execute, h]

/-- What the stage leaves of each impression's candidates, and that the order in which they
come makes no difference to it, in whichever contexts and at whichever places. -/
theorem limit_top_k (self : CandidateLimitStage) (ctx ctx' : BidContext) :
    List.Forall₂ (fun cs kept =>
      (cs.length ≤ self.topK → kept = cs) ∧
      (self.topK < cs.length → kept.length = self.topK ∧
        ∃ dropped, (kept ++ dropped).Perm cs ∧ ∀ x ∈ kept, ∀ y ∈ dropped,
          y.bidPriceCents < x.bidPriceCents ∨
            y.bidPriceCents = x.bidPriceCents ∧ x.campaignId ≤ y.campaignId))
      ctx.candidates (self.execute ctx).candidates ∧
    ∀ (i j : ℕ) (cs cs' : List AdCandidate), ctx.candidates[i]? = some cs →
      ctx'.candidates[j]? = some cs' → cs.Perm cs' → (cs.map (·.campaignId)).Nodup →
      ∃ kept kept', (self.execute ctx).candidates[i]? = some kept ∧
        (self.execute ctx').candidates[j]? = some kept' ∧ kept.Perm kept' := by
  constructor
  · rw [CandidateLimitStage.execute, List.forall₂_map_right_iff, List.forall₂_same]
    intro cs _
    refine ⟨fun h => if_pos h, fun h => ?_⟩
    have hs := limit_selects self cs
    obtain ⟨dropped, hsplit, hle⟩ := hs.split
    refine ⟨by rw [hs.length, Nat.min_eq_left h.le], dropped, hsplit, ?_⟩
    intro x hx y hy
    exact reverseLe_iff.1 (hle x hx y hy)
  · intro i j cs cs' hcs hcs' hp hd
    exact ⟨_, _, self.getElem?_execute hcs, self.getElem?_execute hcs',
      selects_perm hd hp (limit_selects self cs) (limit_selects self cs')⟩

section SortedList

/-- The list in the heap's place, with its least candidate first. -/
def Ascending (heap : List AdCandidate) : Prop := heap.Pairwise fun a b => reverseLe b a

theorem heapPush_ascending {heap : List AdCandidate} (h : Ascending heap) (c : AdCandidate) :
    Ascending (heapPush c heap) := by
  induction heap with
  | nil => exact List.pairwise_singleton ..
  | cons b heap ih =>
    obtain ⟨hb, hheap⟩ := List.pairwise_cons.1 h
    rw [heapPush]
    split_ifs with hgt
    · refine List.pairwise_cons.2 ⟨?_, ih hheap⟩
      intro x hx
      rcases List.mem_cons.1 ((heapPush_perm c heap).subset hx) with rfl | hx
      · exact (total_of reverseLe x b).resolve_right fun hbx => hbx hgt
      · exact hb x hx
    · refine List.pairwise_cons.2 ⟨?_, h⟩
      intro x hx
      rcases List.mem_cons.1 hx with rfl | hx
      · exact hgt
      · exact trans_of reverseLe (hb x hx) hgt

theorem topCandidates_selects (topK : ℕ) (cs : List AdCandidate) :
    Selects reverseLe topK cs (topCandidates topK cs) := by
  have hrun : Ascending (topCandidates topK cs) ∧
      Selects reverseLe topK cs (topCandidates topK cs) := by
    induction cs using List.reverseRecOn with
    | nil => exact ⟨List.Pairwise.nil, .nil⟩
    | append_singleton cs c ih =>
      obtain ⟨hasc, hsel⟩ := ih
      have hpush := heapPush_ascending hasc c
      have hperm := heapPush_perm c (topCandidates topK cs)
      have hle := hsel.length_le
      have hlen := hperm.length_eq
      rw [List.length_cons] at hlen
      rw [topCandidates, List.foldl_append, List.foldl_cons, List.foldl_nil, ← topCandidates]
      dsimp only
      cases hheap : heapPush c (topCandidates topK cs) with
      | nil => simp [hheap] at hlen
      | cons m rest =>
        rw [hheap] at hpush hperm hlen
        split_ifs with hk
        · refine ⟨hpush.tail, hsel.replace (by omega) hperm ?_⟩
          intro y hy
          rcases List.mem_cons.1 (hperm.mem_iff.2 hy) with rfl | hy
          · exact (total_of reverseLe y y).elim id id
          · exact (List.pairwise_cons.1 hpush).1 y hy
        · exact ⟨hpush, hsel.add (by omega) hperm⟩
  exact hrun.2

variable {τ : Type}

/-- The pipeline's stage leaves the candidates that the heap leaves. -/
theorem candidateLimit_perm (d : Deps τ) {ctx : BidContext} (w : World τ)
    (hd : ∀ cs ∈ ctx.candidates, Distinct cs) :
    List.Forall₂ List.Perm (candidateLimit d ctx w).1.candidates
      ((CandidateLimitStage.mk d.topK).execute ctx).candidates := by
  rw [candidateLimit, CandidateLimitStage.execute, List.forall₂_map_left_iff,
    List.forall₂_map_right_iff, List.forall₂_same]
  intro cs hcs
  split_ifs with h
  · rw [CandidateLimitStage.limit, if_pos h]
  · refine (d.heapOrder_perm _).trans ?_
    exact selects_perm (hd cs hcs) (.refl cs) (topCandidates_selects d.topK cs)
      (limit_selects ⟨d.topK⟩ cs)

end SortedList

end RTB
