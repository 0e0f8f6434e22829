import RtbBidder.Proofs.PacingLedger

/-! How the driver runs the production stages: the stages before budget pacing
leave the pacer alone, and hand over lists with one candidate per campaign. -/

namespace RTB

variable {τ : Type}

namespace Pipeline

variable {deadlineMs : ℕ} {elapsedMs : ℕ → ℕ} {k : ℕ} {ctx : BidContext} {w : World τ}

theorem execute_late (stage : Stage τ) (stages : List (Stage τ)) (h : deadlineMs ≤ elapsedMs k) :
    execute deadlineMs elapsedMs (stage :: stages) k ctx w =
      (.ok (), { ctx with outcome := .NoBid .PIPELINE_DEADLINE }, w) := if_pos h

theorem execute_ofBody (name : String) (body : BidContext → World τ → BidContext × World τ)
    (stages : List (Stage τ)) (h : elapsedMs k < deadlineMs) :
    execute deadlineMs elapsedMs (.ofBody name body :: stages) k ctx w =
      if (body ctx w).1.outcome.isNoBid then (.ok (), body ctx w)
      else execute deadlineMs elapsedMs stages (k + 1) (body ctx w).1 (body ctx w).2 :=
  if_neg (not_le.2 h)

/-- Stages that never fail. -/
theorem execute_ok {stages : List (Stage τ)}
    (h : ∀ stage ∈ stages, ∀ ctx w, (stage.execute ctx w).1 = .ok ()) :
    (execute deadlineMs elapsedMs stages k ctx w).1 = .ok () := by
  induction stages generalizing k ctx w with
  | nil => rfl
  | cons stage stages ih =>
    obtain ⟨hstage, hstages⟩ := List.forall_mem_cons.1 h
    unfold execute
    simp only [hstage ctx w]
    split_ifs
    · rfl
    · rfl
    · exact ih hstages

end Pipeline

/-- A stage body that decides nothing and takes no budget. -/
structure Neutral (body : BidContext → World τ → BidContext × World τ) : Prop where
  outcome : ∀ ctx w, (body ctx w).1.outcome = ctx.outcome
  request : ∀ ctx w, (body ctx w).1.request = ctx.request
  pacer : ∀ ctx w, (body ctx w).2.pacer = w.pacer

theorem userEnrichment_neutral (d : Deps τ) : Neutral (userEnrichment d) := by
  constructor <;> intro ctx w <;> simp only [userEnrichment] <;> split <;> try rfl
  all_goals split <;> rfl

theorem candidateRetrieval_neutral : Neutral (candidateRetrieval (τ := τ)) := by
  constructor <;> intro ctx w <;> simp only [candidateRetrieval] <;> split <;> try rfl
  all_goals split_ifs <;> rfl

theorem freqCap_neutral (d : Deps τ) : Neutral (freqCap d) := by
  constructor <;> intro ctx w <;> simp only [freqCap] <;> split <;> rfl

theorem middleStages_neutral (d : Deps τ) : ∀ s ∈ middleStages d, Neutral s.2 := by
  simp only [middleStages, List.forall_mem_cons]
  exact ⟨userEnrichment_neutral d, candidateRetrieval_neutral, ⟨fun _ _ => rfl, fun _ _ => rfl,
    fun _ _ => rfl⟩, ⟨fun _ _ => rfl, fun _ _ => rfl, fun _ _ => rfl⟩, freqCap_neutral d, by simp⟩

/-- Run stage bodies one after the other. -/
def runBodies (bodies : List (String × (BidContext → World τ → BidContext × World τ)))
    (ctx : BidContext) (w : World τ) : BidContext × World τ :=
  bodies.foldl (fun s b => b.2 s.1 s.2) (ctx, w)

section Driver

variable {bodies : List (String × (BidContext → World τ → BidContext × World τ))}
  {deadlineMs : ℕ} {elapsedMs : ℕ → ℕ} {stages : List (Stage τ)} {ctx : BidContext} {w : World τ}

theorem runBodies_neutral (hb : ∀ b ∈ bodies, Neutral b.2) (ctx : BidContext) (w : World τ) :
    (runBodies bodies ctx w).1.outcome = ctx.outcome ∧
      (runBodies bodies ctx w).1.request = ctx.request ∧
      (runBodies bodies ctx w).2.pacer = w.pacer := by
  induction bodies generalizing ctx w with
  | nil => exact ⟨rfl, rfl, rfl⟩
  | cons b bodies ih =>
    obtain ⟨hb, hbs⟩ := List.forall_mem_cons.1 hb
    obtain ⟨ho, hr, hp⟩ := ih hbs (b.2 ctx w).1 (b.2 ctx w).2
    exact ⟨ho.trans (hb.outcome ctx w), hr.trans (hb.request ctx w), hp.trans (hb.pacer ctx w)⟩

/-- With the deadline met at each of their checks, neutral stages just run. -/
theorem execute_bodies {k : ℕ} (hb : ∀ b ∈ bodies, Neutral b.2)
    (ho : ctx.outcome.isNoBid = false) (ht : ∀ j < bodies.length, elapsedMs (k + j) < deadlineMs) :
    Pipeline.execute deadlineMs elapsedMs (bodies.map (fun s => .ofBody s.1 s.2) ++ stages) k ctx w =
      Pipeline.execute deadlineMs elapsedMs stages (k + bodies.length)
        (runBodies bodies ctx w).1 (runBodies bodies ctx w).2 := by
  induction bodies generalizing k ctx w with
  | nil => rfl
  | cons b bodies ih =>
    obtain ⟨hb, hbs⟩ := List.forall_mem_cons.1 hb
    have ho' : (b.2 ctx w).1.outcome.isNoBid = false := (hb.outcome ctx w).symm ▸ ho
    rw [List.map_cons, List.cons_append,
      Pipeline.execute_ofBody _ _ _ (by simpa using ht 0 (by simp)), if_neg (by simp [ho']),
      ih hbs ho' fun j hj => by
        have := ht (j + 1) (by simpa using hj)
        rwa [show k + 1 + j = k + (j + 1) by omega]]
    simp only [List.length_cons, runBodies, List.foldl_cons]
    rw [show k + 1 + bodies.length = k + (bodies.length + 1) by omega]

/-- With the deadline missed at one of their checks, the run ends with the pacer as it was. -/
theorem execute_bodies_late {k : ℕ} (hb : ∀ b ∈ bodies, Neutral b.2)
    (ho : ctx.outcome.isNoBid = false)
    (ht : ∃ j, j ≤ bodies.length ∧ deadlineMs ≤ elapsedMs (k + j)) (hs : stages ≠ []) :
    (Pipeline.execute deadlineMs elapsedMs
      (bodies.map (fun s => .ofBody s.1 s.2) ++ stages) k ctx w).2.2.pacer = w.pacer := by
  induction bodies generalizing k ctx w with
  | nil =>
    obtain ⟨j, hj, hlate⟩ := ht
    obtain rfl : j = 0 := by simpa using hj
    obtain ⟨stage, rest, rfl⟩ := List.exists_cons_of_ne_nil hs
    rw [List.map_nil, List.nil_append, Pipeline.execute_late _ _ (by simpa using hlate)]
  | cons b bodies ih =>
    obtain ⟨hb, hbs⟩ := List.forall_mem_cons.1 hb
    rw [List.map_cons, List.cons_append]
    rcases le_or_gt deadlineMs (elapsedMs k) with hlate | hearly
    · rw [Pipeline.execute_late _ _ hlate]
    · have ho' : (b.2 ctx w).1.outcome.isNoBid = false := (hb.outcome ctx w).symm ▸ ho
      rw [Pipeline.execute_ofBody _ _ _ hearly, if_neg (by simp [ho']), ← hb.pacer ctx w]
      apply ih hbs ho'
      obtain ⟨j, hj, hlate⟩ := ht
      cases j with
      | zero => exact absurd hlate (not_le.2 hearly)
      | succ j =>
        exact ⟨j, by simpa using hj, by rwa [show k + 1 + j = k + (j + 1) by omega]⟩

/-- A run that does not end in a no-bid has met every deadline and run every body. -/
theorem execute_of_not_noBid {k : ℕ}
    (h : (Pipeline.execute deadlineMs elapsedMs (bodies.map fun s => .ofBody s.1 s.2)
      k ctx w).2.1.outcome.isNoBid = false) :
    Pipeline.execute deadlineMs elapsedMs (bodies.map fun s => .ofBody s.1 s.2) k ctx w =
      (.ok (), runBodies bodies ctx w) := by
  induction bodies generalizing k ctx w with
  | nil => rfl
  | cons b bodies ih =>
    rw [List.map_cons] at h ⊢
    rcases le_or_gt deadlineMs (elapsedMs k) with hlate | hearly
    · rw [Pipeline.execute_late _ _ hlate] at h
      cases h
    · rw [Pipeline.execute_ofBody _ _ _ hearly] at h ⊢
      cases hb : (b.2 ctx w).1.outcome.isNoBid with
      | true =>
        rw [if_pos hb, hb] at h
        cases h
      | false =>
        rw [if_neg (by simp [hb])] at h ⊢
        exact ih h

end Driver

/-- One candidate per campaign, none with a negative bid. -/
def WellFormed (cs : List AdCandidate) : Prop := Distinct cs ∧ NonnegBids cs

theorem WellFormed.of_subperm {l l' : List AdCandidate} (h : WellFormed l)
    (hs : (l'.map (·.unscored)).Subperm (l.map (·.unscored))) : WellFormed l' := by
  have hids : ∀ l : List AdCandidate, l.map (·.campaignId) =
      (l.map (·.unscored)).map (·.campaignId) := fun l => by simp [AdCandidate.unscored]
  refine ⟨?_, ?_⟩
  · have hd := h.1
    rw [Distinct, hids] at hd ⊢
    obtain ⟨m, hperm, hsub⟩ := hs
    exact (hperm.map _).nodup_iff.1 (hd.sublist (hsub.map _))
  · intro c hc
    obtain ⟨b, hb, he⟩ := List.mem_map.1 (hs.subset (List.mem_map_of_mem hc))
    have hprice : b.bidPriceCents = c.bidPriceCents := congrArg (·.bidPriceCents) he
    exact hprice ▸ h.2 b hb

theorem WellFormed.sublist {l l' : List AdCandidate} (h : WellFormed l) (hs : l'.Sublist l) :
    WellFormed l' := h.of_subperm (hs.map _).subperm

theorem WellFormed.nil : WellFormed [] := ⟨List.nodup_nil, fun _ h => by cases h⟩

section Candidates

variable {P : List AdCandidate → Prop}

/-- What a candidate carries of its campaign and of a creative of the format. -/
structure Retrieved (cat : CampaignCatalog) (format : Option AdFormat) (campaign : Campaign)
    (c : AdCandidate) : Prop where
  campaign_eq : cat.campaign c.campaignId = some campaign
  creative : ∃ cr ∈ cat.creativesFor c.campaignId,
    cr.id = c.creativeId ∧ ∀ f ∈ format, cr.adFormat = f
  price : c.bidPriceCents = campaign.bidFloorCents
  dailyCap : c.dailyCapImps = campaign.dailyCapImps
  hourlyCap : c.hourlyCapImps = campaign.hourlyCapImps
  unscored_eq : c.unscored = c

theorem candidateOf_retrieved {cat : CampaignCatalog} {format : Option AdFormat} {cid : CampaignId}
    {c : AdCandidate} (h : candidateOf cat format cid = some c) :
    c.campaignId = cid ∧ ∃ campaign, Retrieved cat format campaign c := by
  obtain ⟨campaign, hc, h⟩ := Option.bind_eq_some_iff.1 h
  obtain ⟨cr, hcr, rfl⟩ := Option.map_eq_some_iff.1 h
  refine ⟨rfl, campaign, hc, ⟨cr, List.mem_of_find?_eq_some hcr, rfl, ?_⟩, rfl, rfl, rfl, rfl⟩
  intro f hf
  have hformat := List.find?_some hcr
  rw [Option.mem_def.1 hf] at hformat
  exact of_decide_eq_true hformat

theorem mem_retrieve {cat : CampaignCatalog} {req : BidRequest} {segs : List SegmentId} {imp : Imp}
    {c : AdCandidate} (h : c ∈ retrieve cat req segs imp) :
    c.campaignId ∈ cat.candidatesFor ⟨segs, geoKeys req, deviceType req, impAdFormat imp⟩ ∧
      ∃ campaign, Retrieved cat (impAdFormat imp) campaign c := by
  obtain ⟨cid, hcid, h⟩ := List.mem_filterMap.1 h
  obtain ⟨rfl, hret⟩ := candidateOf_retrieved h
  exact ⟨hcid, hret⟩

theorem map_filterMap_sublist {α β γ : Type} {f : α → Option β} {g : β → γ} {k : α → γ}
    (h : ∀ {a b}, f a = some b → g b = k a) (l : List α) :
    ((l.filterMap f).map g).Sublist (l.map k) := by
  induction l with
  | nil => exact List.Sublist.refl _
  | cons a l ih =>
    cases ha : f a with
    | none =>
      rw [List.filterMap_cons_none ha]
      exact ih.cons _
    | some b =>
      rw [List.filterMap_cons_some ha, List.map_cons, List.map_cons, h ha]
      exact ih.cons_cons _

/-- The candidates of an impression come in the order of the bitmap. -/
theorem retrieve_sublist (cat : CampaignCatalog) (req : BidRequest) (segs : List SegmentId)
    (imp : Imp) : ((retrieve cat req segs imp).map (·.campaignId)).Sublist
      (cat.candidatesFor ⟨segs, geoKeys req, deviceType req, impAdFormat imp⟩).toList := by
  have h := map_filterMap_sublist (k := id) (fun h => (candidateOf_retrieved h).1)
    (cat.candidatesFor ⟨segs, geoKeys req, deviceType req, impAdFormat imp⟩).toList
      (f := candidateOf cat (impAdFormat imp))
  rwa [List.map_id] at h

theorem retrieve_wellFormed (cat : CampaignCatalog) (req : BidRequest) (segs : List SegmentId)
    (imp : Imp) : WellFormed (retrieve cat req segs imp) := by
  refine ⟨?_, ?_⟩
  · exact (Lib.SortedSet.nodup _).sublist (retrieve_sublist cat req segs imp)
  · intro c hc
    obtain ⟨-, campaign, hret⟩ := mem_retrieve hc
    rw [hret.price]
    exact campaign.bidFloorCents_nonneg

theorem heapPush_perm (c : AdCandidate) (heap : List AdCandidate) :
    (heapPush c heap).Perm (c :: heap) := by
  induction heap with
  | nil => exact List.Perm.refl _
  | cons b heap ih =>
    rw [heapPush]
    split_ifs
    · exact (ih.cons b).trans (List.Perm.swap c b heap)
    · exact List.Perm.refl _

theorem topCandidates_subperm (topK : ℕ) (cs : List AdCandidate) :
    (topCandidates topK cs).Subperm cs := by
  suffices h : ∀ heap : List AdCandidate, (cs.foldl (fun heap c =>
      let heap := heapPush c heap
      if topK < heap.length then heap.tail else heap) heap).Subperm (heap ++ cs) from h []
  induction cs with
  | nil =>
    intro heap
    rw [List.append_nil]
    exact List.Subperm.refl heap
  | cons c cs ih =>
    intro heap
    have hpush : (heapPush c heap ++ cs).Perm (heap ++ c :: cs) :=
      ((heapPush_perm c heap).append_right cs).trans List.perm_middle.symm
    rw [List.foldl_cons]
    refine (ih _).trans ((List.Sublist.subperm ?_).trans hpush.subperm)
    dsimp only
    split_ifs
    · exact (List.tail_sublist _).append_right _
    · exact List.Sublist.refl _

theorem foldl_set_forall {α : Type} (g : α → List AdCandidate) (hg : ∀ a, P (g a)) (l : List (α × ℕ))
    {css : List (List AdCandidate)} (h : ∀ cs ∈ css, P cs) :
    ∀ cs ∈ l.foldl (fun css (a, i) => css.set i (g a)) css, P cs := by
  induction l generalizing css with
  | nil => exact h
  | cons a l ih =>
    apply ih
    intro cs hcs
    rcases List.mem_or_eq_of_mem_set hcs with hcs | rfl
    · exact h cs hcs
    · exact hg a.1

theorem foldl_zipIdx_set {α β : Type} (g : α → β) (l : List α) (k : ℕ) {css : List β}
    (h : k + l.length = css.length) :
    (l.zipIdx k).foldl (fun css (a, i) => css.set i (g a)) css = css.take k ++ l.map g := by
  induction l generalizing k css with
  | nil => simp [List.take_of_length_le (show css.length ≤ k by simp at h; omega)]
  | cons a l ih =>
    have hk : k < css.length := by simp at h; omega
    rw [List.zipIdx_cons, List.foldl_cons, ih (k + 1) (by simp at h ⊢; omega)]
    rw [List.take_succ_eq_append_getElem (by simpa using hk)]
    simp [List.take_set_of_le]

/-- With as many lists as impressions, retrieval fills each with its candidates. -/
theorem candidateRetrieval_candidates {ctx : BidContext} {cat : CampaignCatalog} (w : World τ)
    (hcat : ctx.catalog = some cat) (hne : cat.isEmpty = false) (himp : ctx.request.imp ≠ [])
    (hlen : ctx.candidates.length = ctx.request.imp.length) :
    (candidateRetrieval ctx w).1.candidates =
      ctx.request.imp.map (retrieve cat ctx.request ctx.segmentIds) := by
  have hmax : max ctx.request.imp.length 1 = ctx.request.imp.length :=
    max_eq_left (List.length_pos_of_ne_nil himp)
  have hsized : resize ctx.candidates ctx.request.imp.length [] = ctx.candidates := by
    simp [resize, ← hlen]
  simp only [candidateRetrieval, hcat, hne, Bool.false_eq_true, if_false, hmax, hsized]
  exact foldl_zipIdx_set _ _ 0 (by simpa using hlen.symm)

theorem mapIdxState_forall {α β σ : Type} {A : α → Prop} {B : β → Prop} {f : ℕ → α → σ → β × σ}
    (hf : ∀ i a s, A a → B (f i a s).1) {l : List α} (h : ∀ a ∈ l, A a) (i : ℕ) (s : σ) :
    ∀ b ∈ (mapIdxState f i l s).1, B b := by
  induction l generalizing i s with
  | nil => simp [mapIdxState]
  | cons a l ih =>
    obtain ⟨ha, hl⟩ := List.forall_mem_cons.1 h
    exact List.forall_mem_cons.2 ⟨hf i a s ha, ih hl (i + 1) _⟩

end Candidates

/-- A stage body that keeps the candidate lists well formed. -/
def KeepsWellFormed (body : BidContext → World τ → BidContext × World τ) : Prop :=
  ∀ ctx w, (∀ cs ∈ ctx.candidates, WellFormed cs) → ∀ cs ∈ (body ctx w).1.candidates, WellFormed cs

theorem userEnrichment_keeps (d : Deps τ) : KeepsWellFormed (userEnrichment d) := by
  intro ctx w h
  simp only [userEnrichment]
  split
  · exact h
  · split <;> exact h

theorem candidateRetrieval_keeps : KeepsWellFormed (candidateRetrieval (τ := τ)) := by
  intro ctx w h
  simp only [candidateRetrieval]
  split
  · exact h
  · split_ifs
    · exact h
    · apply foldl_set_forall _ (fun imp => retrieve_wellFormed _ _ _ imp)
      intro cs hcs
      rcases List.mem_append.1 hcs with hcs | hcs
      · exact h cs (List.mem_of_mem_take hcs)
      · obtain rfl := List.eq_of_mem_replicate hcs
        exact WellFormed.nil

theorem candidateLimit_keeps (d : Deps τ) : KeepsWellFormed (candidateLimit d) := by
  intro ctx w h cs hcs
  obtain ⟨l, hl, rfl⟩ := List.mem_map.1 hcs
  split_ifs
  · exact h l hl
  · obtain ⟨m, hperm, hsub⟩ :=
      (d.heapOrder_perm _).subperm.trans (topCandidates_subperm d.topK l)
    exact (h l hl).of_subperm ⟨m.map _, hperm.map _, hsub.map _⟩

theorem scoring_keeps (d : Deps τ) : KeepsWellFormed (scoring d) := by
  intro ctx w h
  refine mapIdxState_forall (fun i cs env hcs => ?_) h 0 w.env
  split_ifs
  · exact hcs
  · exact hcs.of_subperm (d.scoreAll_subperm cs _ env)

theorem capImp_wellFormed (d : Deps τ) (user : String) (device hour : UInt8) (i : ℕ)
    {cs : List AdCandidate} (env : τ) (h : WellFormed cs) :
    WellFormed (capImp d user device hour i cs env).1.1 := by
  simp only [capImp]
  split_ifs
  · exact h
  · split
    · exact h.sublist List.filter_sublist
    · exact h

theorem freqCap_keeps (d : Deps τ) : KeepsWellFormed (freqCap d) := by
  intro ctx w h
  simp only [freqCap]
  split
  · exact h
  · exact List.forall_mem_map.2
      (mapIdxState_forall (fun i cs env hcs => capImp_wellFormed d _ _ _ i env hcs) h 0 w.env)

theorem middleStages_keeps (d : Deps τ) : ∀ s ∈ middleStages d, KeepsWellFormed s.2 := by
  simp only [middleStages, List.forall_mem_cons]
  exact ⟨userEnrichment_keeps d, candidateRetrieval_keeps, candidateLimit_keeps d, scoring_keeps d,
    freqCap_keeps d, by simp⟩

theorem runBodies_wellFormed
    {bodies : List (String × (BidContext → World τ → BidContext × World τ))}
    (hb : ∀ b ∈ bodies, KeepsWellFormed b.2) {ctx : BidContext} (w : World τ)
    (h : ∀ cs ∈ ctx.candidates, WellFormed cs) :
    ∀ cs ∈ (runBodies bodies ctx w).1.candidates, WellFormed cs := by
  induction bodies generalizing ctx w with
  | nil => exact h
  | cons b bodies ih =>
    obtain ⟨hb, hbs⟩ := List.forall_mem_cons.1 hb
    exact ih hbs _ (hb ctx w h)

/-- The candidate lists that reach budget pacing. -/
def pacedCandidates (d : Deps τ) (req : BidRequest) (w : World τ) : List (List AdCandidate) :=
  (runBodies (middleStages d) (BidContext.new req) w).1.candidates

theorem pacedCandidates_wellFormed (d : Deps τ) (req : BidRequest) (w : World τ) :
    ∀ cs ∈ pacedCandidates d req w, WellFormed cs := by
  apply runBodies_wellFormed (middleStages_keeps d)
  intro cs hcs
  obtain rfl := List.eq_of_mem_replicate hcs
  exact WellFormed.nil

end RTB
