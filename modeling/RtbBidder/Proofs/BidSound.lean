import RtbBidder.Proofs.Retrieval
import RtbBidder.Spec.Scoring

/-! Where an emitted bid comes from. The stages filter, reorder and rewrite one
candidate list per impression, and the lists are matched to impressions by their
position only, so what holds of the `i`-th list is carried through the stages
with its index. -/

namespace RTB

variable {τ : Type}

section Scores

/-- `y` has the larger (score, price) pair. -/
def Beats (y x : AdCandidate) : Prop :=
  x.score.partialCmp y.score = some .lt ∨
    x.score.partialCmp y.score = some .eq ∧ x.bidPriceCents < y.bidPriceCents

/-- What ranking maximises. -/
def rankKey (c : AdCandidate) : WithBot (WithTop ℚ) ×ₗ ℤ :=
  toLex (c.score.rank, c.bidPriceCents.toInt)

variable {a b : AdCandidate}

theorem rankKey_lt : rankKey a < rankKey b ↔ a.score.rank < b.score.rank ∨
    a.score.rank = b.score.rank ∧ a.bidPriceCents < b.bidPriceCents := by
  rw [rankKey, rankKey, Prod.Lex.toLex_lt_toLex, Int32.lt_iff_toInt_lt]

theorem rankCmp_eq_gt (ha : a.score ≠ .nan) (hb : b.score ≠ .nan) :
    rankCmp a b = .gt ↔ rankKey b < rankKey a := by
  rw [rankCmp, Lib.Binary.partialCmp_eq ha hb, Option.getD_some, Ordering.then_eq_gt, rankKey_lt,
    compare_gt_iff_gt, compare_eq_iff_eq, Std.compare_eq_gt, eq_comm (a := a.score.rank)]

theorem beats_iff (ha : a.score ≠ .nan) (hb : b.score ≠ .nan) :
    Beats b a ↔ rankKey a < rankKey b := by
  rw [Beats, Lib.Binary.partialCmp_eq ha hb, Option.some.injEq, Option.some.injEq, compare_lt_iff_lt,
    compare_eq_iff_eq, rankKey_lt]

/-- The running maximum is at least everything it has seen. -/
theorem foldl_max_ge (c : AdCandidate) (cs : List AdCandidate)
    (h : ∀ x ∈ c :: cs, x.score ≠ .nan) :
    ∀ x ∈ c :: cs,
      rankKey x ≤ rankKey (cs.foldl (fun best c => if rankCmp best c = .gt then best else c) c) := by
  induction cs generalizing c with
  | nil => simp
  | cons b cs ih =>
    obtain ⟨hc, hb, hcs⟩ : c.score ≠ .nan ∧ b.score ≠ .nan ∧ ∀ x ∈ cs, x.score ≠ .nan := by
      simpa using h
    rw [List.foldl_cons]
    split_ifs with hgt
    · have hih := ih c (List.forall_mem_cons.2 ⟨hc, hcs⟩)
      have hbc := ((rankCmp_eq_gt hc hb).1 hgt).le
      refine List.forall_mem_cons.2 ⟨hih c List.mem_cons_self, List.forall_mem_cons.2 ⟨?_, ?_⟩⟩
      · exact hbc.trans (hih c List.mem_cons_self)
      · exact fun x hx => hih x (List.mem_cons_of_mem _ hx)
    · have hih := ih b (List.forall_mem_cons.2 ⟨hb, hcs⟩)
      have hcb := not_lt.1 fun hlt => hgt ((rankCmp_eq_gt hc hb).2 hlt)
      exact List.forall_mem_cons.2 ⟨hcb.trans (hih b List.mem_cons_self), hih⟩

/-- No candidate beats the one that `max_by` picks. -/
theorem maxBy_best {cs : List AdCandidate} {w : AdCandidate} (h : maxBy rankCmp cs = some w)
    (hn : ∀ c ∈ cs, c.score ≠ .nan) : ∀ c ∈ cs, ¬ Beats c w := by
  have hw := hn w (maxBy_mem h)
  intro c hc hbeats
  cases cs with
  | nil => cases hc
  | cons c₀ cs =>
    obtain rfl := Option.some.inj h
    exact not_lt.2 (foldl_max_ge c₀ cs hn c hc) ((beats_iff hw (hn c hc)).1 hbeats)

end Scores

section Positions

theorem mapIdxState_getElem? {α β σ : Type} (f : ℕ → α → σ → β × σ) (k : ℕ) (l : List α) (s : σ)
    (i : ℕ) : (mapIdxState f k l s).1[i]? =
      (l[i]?).map fun a => (f (k + i) a (mapIdxState f k (l.take i) s).2).1 := by
  induction l generalizing k s i with
  | nil => simp [mapIdxState]
  | cons a l ih =>
    cases i with
    | zero => rfl
    | succ i =>
      simp only [mapIdxState, List.getElem?_cons_succ, List.take_succ_cons, ih]
      rw [show k + 1 + i = k + (i + 1) by omega]

theorem paceAll_getElem? (p : LocalBudgetPacer) (css : List (List AdCandidate)) (i : ℕ) :
    (paceAll p css).1[i]? =
      (css[i]?).map fun cs => (paceImp (paceAll p (css.take i)).2 cs).1 := by
  induction css generalizing p i with
  | nil => simp [paceAll]
  | cons cs css ih =>
    cases i with
    | zero => rfl
    | succ i => simp only [paceAll, List.getElem?_cons_succ, List.take_succ_cons, ih]

/-- The winners in order, each with the index of the list that it tops. -/
theorem rankAll_indices (imps : List Imp) (k : ℕ) (p : LocalBudgetPacer)
    (css : List (List AdCandidate)) :
    ∃ idx : List ℕ, idx.Pairwise (· < ·) ∧
      List.Forall₂ (fun i x => k ≤ i ∧ ∃ cs w, css[i - k]? = some cs ∧
        maxBy rankCmp cs = some w ∧ x = winnerOf imps i w) idx (rankAll imps k p css).1 := by
  induction css generalizing k p with
  | nil => exact ⟨[], .nil, .nil⟩
  | cons cs css ih =>
    have hshift : ∀ i x, (k + 1 ≤ i ∧ ∃ cs w, css[i - (k + 1)]? = some cs ∧
        maxBy rankCmp cs = some w ∧ x = winnerOf imps i w) →
        k ≤ i ∧ ∃ l w, (cs :: css)[i - k]? = some l ∧
          maxBy rankCmp l = some w ∧ x = winnerOf imps i w := by
      intro i x ⟨hi, l, w, hl, hw⟩
      refine ⟨by omega, l, w, ?_, hw⟩
      rwa [show i - k = i - (k + 1) + 1 by omega, List.getElem?_cons_succ]
    cases hw : maxBy rankCmp cs with
    | none =>
      obtain ⟨idx, hlt, hall⟩ := ih (k + 1) p
      simp only [rankAll, hw]
      exact ⟨idx, hlt, hall.imp hshift⟩
    | some w =>
      obtain ⟨idx, hlt, hall⟩ := ih (k + 1) (releaseLosers p w cs)
      simp only [rankAll, hw]
      have hle := ((List.forall₂_and_left _ _).1 hall).1
      exact ⟨k :: idx, List.pairwise_cons.2 ⟨hle, hlt⟩,
        .cons ⟨le_rfl, cs, w, by simp, hw, rfl⟩ (hall.imp hshift)⟩

end Positions

section Origins

/-- Every candidate of the `i`-th list, its score aside, has property `P i`. -/
def Aligned (P : ℕ → AdCandidate → Prop) (css : List (List AdCandidate)) : Prop :=
  ∀ i cs, css[i]? = some cs → ∀ c ∈ cs, P i c.unscored

variable {P : ℕ → AdCandidate → Prop}

/-- A stage that hands on, for each list, candidates of that list. -/
theorem Aligned.of_subset {css css' : List (List AdCandidate)} (h : Aligned P css)
    (hs : ∀ (i : ℕ) (cs' : List AdCandidate), css'[i]? = some cs' →
      ∃ cs : List AdCandidate, css[i]? = some cs ∧
        ∀ c' ∈ cs', c'.unscored ∈ cs.map (·.unscored)) : Aligned P css' := by
  intro i cs' hcs' c' hc'
  obtain ⟨cs, hcs, hsub⟩ := hs i cs' hcs'
  obtain ⟨c, hc, he⟩ := List.mem_map.1 (hsub c' hc')
  exact he ▸ h i cs hcs c hc

theorem candidateLimit_aligned (d : Deps τ) {ctx : BidContext} (w : World τ)
    (h : Aligned P ctx.candidates) : Aligned P (candidateLimit d ctx w).1.candidates := by
  refine h.of_subset fun i cs' hcs' => ?_
  rw [candidateLimit, List.getElem?_map] at hcs'
  obtain ⟨cs, hcs, rfl⟩ := Option.map_eq_some_iff.1 hcs'
  refine ⟨cs, hcs, fun c' hc' => List.mem_map_of_mem ?_⟩
  split_ifs at hc'
  · exact hc'
  · exact (topCandidates_subperm d.topK cs).subset ((d.heapOrder_perm _).subset hc')

theorem scoring_aligned (d : Deps τ) {ctx : BidContext} (w : World τ)
    (h : Aligned P ctx.candidates) : Aligned P (scoring d ctx w).1.candidates := by
  refine h.of_subset fun i cs' hcs' => ?_
  rw [scoring, mapIdxState_getElem?] at hcs'
  obtain ⟨cs, hcs, rfl⟩ := Option.map_eq_some_iff.1 hcs'
  refine ⟨cs, hcs, fun c' hc' => ?_⟩
  split_ifs at hc'
  · exact List.mem_map_of_mem hc'
  · exact (d.scoreAll_subperm cs _ _).subset (List.mem_map_of_mem hc')

/-- What the frequency cap stage leaves of the `i`-th list. -/
theorem freqCap_getElem? (d : Deps τ) {ctx : BidContext} {w : World τ} {user : String}
    (hu : ctx.request.userId = some user) (i : ℕ) :
    (freqCap d ctx w).1.candidates[i]? =
      let device := (ctx.request.device.bind (·.devicetype)).getD 0
      let hour := d.hourOfDay w.env
      (ctx.candidates[i]?).map fun cs => (capImp d user device hour i cs
        (mapIdxState (capImp d user device hour) 0 (ctx.candidates.take i) w.env).2).1.1 := by
  simp only [freqCap, hu, List.getElem?_map, mapIdxState_getElem?, zero_add, Option.map_map]
  rfl

theorem capImp_sublist (d : Deps τ) (user : String) (device hour : UInt8) (i : ℕ)
    (cs : List AdCandidate) (env : τ) :
    (capImp d user device hour i cs env).1.1.Sublist cs := by
  simp only [capImp]
  split_ifs
  · exact List.Sublist.refl cs
  · split
    · exact List.filter_sublist
    · exact List.Sublist.refl cs

theorem freqCap_subset (d : Deps τ) {ctx : BidContext} {w : World τ} {i : ℕ}
    {cs' : List AdCandidate} (h : (freqCap d ctx w).1.candidates[i]? = some cs') :
    ∃ cs, ctx.candidates[i]? = some cs ∧ cs'.Sublist cs := by
  cases hu : ctx.request.userId with
  | none =>
    simp only [freqCap, hu] at h
    exact ⟨cs', h, List.Sublist.refl cs'⟩
  | some user =>
    rw [freqCap_getElem? d hu] at h
    obtain ⟨cs, hcs, rfl⟩ := Option.map_eq_some_iff.1 h
    exact ⟨cs, hcs, capImp_sublist ..⟩

end Origins

section Verdicts

/-- A kept candidate was not reported capped. -/
theorem capImp_checked (d : Deps τ) {user : String} {device hour : UInt8} {i : ℕ}
    {cs : List AdCandidate} {env : τ} {c : AdCandidate}
    (hc : c ∈ (capImp d user device hour i cs env).1.1) {results : List CapResult}
    (hr : (d.check user cs device hour env).1 = .Checked results) :
    ∀ r ∈ results, r.campaignId = c.campaignId → r.capped = false := by
  intro r hmem hid
  by_contra hcapped
  have hne : cs.isEmpty = false :=
    List.isEmpty_eq_false_iff.2 (List.ne_nil_of_mem ((capImp_sublist d _ _ _ _ _ _).subset hc))
  simp only [capImp, hne, Bool.false_eq_true, if_false, hr] at hc
  have hkeep := (List.mem_filter.1 hc).2
  simp only [decide_eq_true_eq] at hkeep
  apply hkeep
  exact List.mem_map.2 ⟨r, List.mem_filter.2 ⟨hmem, by simpa using hcapped⟩, hid⟩

theorem reserveAll_append (p : LocalBudgetPacer) (pre post : List AdCandidate) :
    (reserveAll p (pre ++ post)).1 =
      (reserveAll p pre).1 ++ (reserveAll (reserveAll p pre).2 post).1 := by
  induction pre generalizing p with
  | nil => rfl
  | cons c pre ih =>
    simp only [List.cons_append, reserveAll, ih]
    split_ifs <;> rfl

/-- A kept candidate's own reservation was granted. -/
theorem paceImp_granted {p : LocalBudgetPacer} {cs : List AdCandidate} {c : AdCandidate}
    (hc : c ∈ (paceImp p cs).1) :
    ∃ pre post, cs = pre ++ c :: post ∧
      ((reserveAll p pre).2.checkAndReserve c.campaignId c.bidPriceCents).1 = .HasBudget := by
  obtain ⟨hmem, hkeep⟩ := List.mem_filter.1 hc
  obtain ⟨pre, post, rfl⟩ := List.append_of_mem hmem
  refine ⟨pre, post, rfl, ?_⟩
  cases hdec : ((reserveAll p pre).2.checkAndReserve c.campaignId c.bidPriceCents).1 with
  | HasBudget => rfl
  | Exhausted =>
    refine absurd ?_ (of_decide_eq_true hkeep)
    rw [reserveAll_append, reserveAll, hdec, if_pos rfl]
    simp

end Verdicts

section Run

variable (d : Deps τ) (req : BidRequest) (w : World τ)

/-- The segments that user enrichment puts into the context. -/
def segmentsOf : List SegmentId := (userEnrichment d (BidContext.new req) w).1.segmentIds

/-- The context and the world that the frequency cap stage starts from. -/
def scored : BidContext × World τ := runBodies ((middleStages d).take 4) (BidContext.new req) w

/-- The capper's answer for the `i`-th impression. -/
def capAnswer (user : String) (i : ℕ) : FreqCapOutcome :=
  let ctx := (scored d req w).1
  let env := (scored d req w).2.env
  let device := (req.device.bind (·.devicetype)).getD 0
  let before := mapIdxState (capImp d user device (d.hourOfDay env)) 0 (ctx.candidates.take i) env
  (d.check user ((ctx.candidates[i]?).getD []) device (d.hourOfDay env) before.2).1

/-- The candidates of the `i`-th impression that capping and pacing leave. -/
def survivors (i : ℕ) : List AdCandidate :=
  ((paceAll w.pacer (pacedCandidates d req w)).1[i]?).getD []

/-- A bid of the response that is right for the `i`-th impression, made from candidate `x`. -/
structure SoundBid (i : ℕ) (imp : Imp) (x : AdCandidate) (bid : Bid) : Prop where
  impression : req.imp[i]? = some imp
  impid : bid.impid = imp.id
  cid : bid.cid = some (toString x.campaignId)
  crid : bid.crid = some (toString x.creativeId)
  candidate : x.campaignId ∈
    d.catalog.candidatesFor ⟨segmentsOf d req w, geoKeys req, deviceType req, impAdFormat imp⟩
  creative : ∃ cr ∈ d.catalog.creativesFor x.campaignId,
    cr.id = x.creativeId ∧ ∀ f ∈ impAdFormat imp, cr.adFormat = f
  price : ∃ campaign, d.catalog.campaign x.campaignId = some campaign ∧
    x.bidPriceCents = campaign.bidFloorCents ∧ bid.price = campaign.bidFloorCents.toInt / 100
  notCapped : ∀ user results, req.userId = some user → capAnswer d req w user i = .Checked results →
    ∀ r ∈ results, r.campaignId = x.campaignId → r.capped = false
  granted : ∃ pre post, (pacedCandidates d req w)[i]? = some (pre ++ x :: post) ∧
    ((reserveAll (paceAll w.pacer ((pacedCandidates d req w).take i)).2 pre).2.checkAndReserve
      x.campaignId x.bidPriceCents).1 = .HasBudget
  best : x ∈ survivors d req w i ∧ ∀ y ∈ survivors d req w i, ¬ Beats y x

variable {d req w}

theorem scored_request : (scored d req w).1.request = req := by
  have hn : ∀ b ∈ (middleStages d).take 4, Neutral b.2 :=
    fun b hb => middleStages_neutral d b (List.mem_of_mem_take hb)
  exact (runBodies_neutral hn (BidContext.new req) w).2.1

/-- Retrieval gives each impression candidates of its own. -/
theorem scored_aligned (himp : req.imp ≠ []) :
    Aligned (fun i c => ∃ imp, req.imp[i]? = some imp ∧
      c ∈ retrieve d.catalog req (segmentsOf d req w) imp) (scored d req w).1.candidates := by
  have hmax : max req.imp.length 1 = req.imp.length :=
    max_eq_left (List.length_pos_of_ne_nil himp)
  generalize he : userEnrichment d (BidContext.new req) w = e
  have hcat : e.1.catalog = some d.catalog := by
    subst he
    simp only [userEnrichment]
    split
    · rfl
    · split <;> rfl
  have hreq : e.1.request = req := by
    subst he
    exact (userEnrichment_neutral d).request _ _
  have hcands : e.1.candidates = List.replicate req.imp.length [] := by
    subst he
    simp only [userEnrichment]
    split
    · simp [BidContext.new, hmax]
    · split <;> simp [BidContext.new, hmax]
  have hsegs : segmentsOf d req w = e.1.segmentIds := by rw [segmentsOf, he]
  have hretrieval : Aligned (fun i c => ∃ imp, req.imp[i]? = some imp ∧
      c ∈ retrieve d.catalog req (segmentsOf d req w) imp)
      (candidateRetrieval e.1 e.2).1.candidates := by
    intro i cs hcs c hc
    cases hempty : d.catalog.isEmpty with
    | true =>
      simp only [candidateRetrieval, hcat, hempty, if_true, hcands] at hcs
      obtain rfl := List.eq_of_mem_replicate (List.mem_of_getElem? hcs)
      cases hc
    | false =>
      rw [candidateRetrieval_candidates e.2 hcat hempty (hreq ▸ himp) (by rw [hcands, hreq]; simp),
        List.getElem?_map, hreq, ← hsegs] at hcs
      obtain ⟨imp, hi, rfl⟩ := Option.map_eq_some_iff.1 hcs
      obtain ⟨-, campaign, hret⟩ := mem_retrieve hc
      exact ⟨imp, hi, hret.unscored_eq.symm ▸ hc⟩
  have hrun : (scored d req w).1 =
      (scoring d (candidateLimit d (candidateRetrieval e.1 e.2).1 (candidateRetrieval e.1 e.2).2).1
        (candidateLimit d (candidateRetrieval e.1 e.2).1 (candidateRetrieval e.1 e.2).2).2).1 := by
    subst he
    rfl
  rw [hrun]
  exact scoring_aligned d _ (candidateLimit_aligned d _ hretrieval)

theorem scored_not_nan (hnan : ∀ cs sctx env, ∀ c ∈ (d.scoreAll cs sctx env).1, c.score ≠ .nan) :
    ∀ cs ∈ (scored d req w).1.candidates, ∀ c ∈ cs, c.score ≠ .nan := by
  have hscore : ∀ (ctx : BidContext) (w : World τ),
      ∀ cs ∈ (scoring d ctx w).1.candidates, ∀ c ∈ cs, c.score ≠ .nan := by
    intro ctx w
    refine mapIdxState_forall (A := fun _ => True) (fun i cs env _ c hc => ?_)
      (fun _ _ => trivial) 0 w.env
    split_ifs at hc with hempty
    · rw [List.isEmpty_iff.1 hempty] at hc
      cases hc
    · exact hnan cs _ env c hc
  exact hscore _ _

/-- A winner, with the list that it topped and where that list came from. -/
theorem survivors_sound (himp : req.imp ≠ [])
    (hnan : ∀ cs sctx env, ∀ c ∈ (d.scoreAll cs sctx env).1, c.score ≠ .nan) {i : ℕ}
    {cs : List AdCandidate} {x : AdCandidate}
    (hcs : (paceAll w.pacer (pacedCandidates d req w)).1[i]? = some cs)
    (hx : maxBy rankCmp cs = some x) :
    ∃ imp, SoundBid d req w i imp x (bidOf d req (winnerOf req.imp i x)) := by
  have hmem := maxBy_mem hx
  rw [paceAll_getElem?] at hcs
  obtain ⟨kept, hkept, rfl⟩ := Option.map_eq_some_iff.1 hcs
  obtain ⟨pre, post, hsplit, hgrant⟩ := paceImp_granted hmem
  have hxkept : x ∈ kept := (paceImp_sublist _ _).subset hmem
  obtain ⟨all, hall, hsub⟩ : ∃ all, (scored d req w).1.candidates[i]? = some all ∧
      kept.Sublist all := freqCap_subset d hkept
  have hxall : x ∈ all := hsub.subset hxkept
  obtain ⟨imp, hi, hx'⟩ := scored_aligned himp i all hall x hxall
  obtain ⟨hcandidate, campaign, hret⟩ := mem_retrieve hx'
  have hprice : x.bidPriceCents = campaign.bidFloorCents := hret.price
  have hsurvivors : survivors d req w i =
      (paceImp (paceAll w.pacer ((pacedCandidates d req w).take i)).2 kept).1 := by
    rw [survivors, paceAll_getElem?, hkept]
    rfl
  have hscores : ∀ c ∈ (paceImp (paceAll w.pacer ((pacedCandidates d req w).take i)).2 kept).1,
      c.score ≠ .nan := fun c hc => scored_not_nan hnan all (List.mem_of_getElem? hall) c
        (hsub.subset ((paceImp_sublist _ _).subset hc))
  refine ⟨imp, ?_⟩
  exact
    { impression := hi
      impid := by simp [bidOf, winnerOf, hi]
      cid := rfl
      crid := rfl
      candidate := hcandidate
      creative := hret.creative
      price := ⟨campaign, hret.campaign_eq, hprice, by simp [bidOf, winnerOf, hprice]⟩
      notCapped := by
        intro user results hu hanswer
        have hkeep : x ∈ kept := hxkept
        have hlist : (freqCap d (scored d req w).1 (scored d req w).2).1.candidates[i]? =
            some kept := hkept
        rw [freqCap_getElem? d (by rw [scored_request]; exact hu), hall, scored_request,
          Option.map_some, Option.some.injEq] at hlist
        rw [← hlist] at hkeep
        refine capImp_checked d hkeep ?_
        rw [capAnswer, hall] at hanswer
        exact hanswer
      granted := ⟨pre, post, hsplit ▸ hkept, hgrant⟩
      best := by
        rw [hsurvivors]
        exact ⟨hmem, maxBy_best hx hscores⟩ }

/-- The stages after the frequency cap. -/
def auctionStages (d : Deps τ) : List (String × (BidContext → World τ → BidContext × World τ)) :=
  [("budget_pacing", budgetPacing), ("ranking", ranking), ("response_build", responseBuild d)]

theorem imp_ne_nil_of_valid (hval : validationError req = none) : req.imp ≠ [] := by
  intro hnil
  simp [validationError, hnil] at hval

/-- A run that ends in a bid had a valid request and ran all nine stages. -/
theorem runPipeline_of_bid {deadlineMs : ℕ} {elapsedMs : ℕ → ℕ}
    (h : (runPipeline d deadlineMs elapsedMs req w).2.1.outcome = .Bid) :
    validationError req = none ∧ req.imp ≠ [] ∧ (runPipeline d deadlineMs elapsedMs req w).2 =
      runBodies (middleStages d ++ auctionStages d) (BidContext.new req) w := by
  have hstages : productionStages d = .ofBody "request_validation" requestValidation ::
      (middleStages d ++ auctionStages d).map (fun s => .ofBody s.1 s.2) := rfl
  rw [runPipeline, hstages] at h ⊢
  rcases le_or_gt deadlineMs (elapsedMs 0) with hlate | hstart
  · rw [Pipeline.execute_late _ _ hlate] at h
    cases h
  rw [Pipeline.execute_ofBody _ _ _ hstart] at h ⊢
  cases hval : validationError req with
  | some reason =>
    have hv : requestValidation (BidContext.new req) w =
        ({ BidContext.new req with outcome := .NoBid reason }, w) := by
      simp only [requestValidation, BidContext.new, hval]
    rw [hv] at h
    cases h
  | none =>
    have hv : requestValidation (BidContext.new req) w = (BidContext.new req, w) := by
      simp only [requestValidation, BidContext.new, hval]
    have himp := imp_ne_nil_of_valid hval
    rw [hv] at h ⊢
    have hpending : (BidContext.new req, w).1.outcome.isNoBid = false := rfl
    rw [hpending, if_neg Bool.false_ne_true] at h ⊢
    refine ⟨rfl, himp, ?_⟩
    rw [execute_of_not_noBid (by rw [h]; rfl)]

theorem middleStages_winners (d : Deps τ) :
    ∀ s ∈ middleStages d, ∀ ctx w, (s.2 ctx w).1.winners = ctx.winners := by
  simp only [middleStages, List.forall_mem_cons]
  refine ⟨fun ctx w => ?_, fun ctx w => ?_, fun _ _ => rfl, fun _ _ => rfl, fun ctx w => ?_,
    by simp⟩
  · simp only [userEnrichment]
    split
    · rfl
    · split <;> rfl
  · simp only [candidateRetrieval]
    split
    · rfl
    · split_ifs <;> rfl
  · simp only [freqCap]
    split <;> rfl

theorem runBodies_append (a b : List (String × (BidContext → World τ → BidContext × World τ)))
    (ctx : BidContext) (w : World τ) :
    runBodies (a ++ b) ctx w = runBodies b (runBodies a ctx w).1 (runBodies a ctx w).2 :=
  List.foldl_append

theorem runBodies_winners {bodies : List (String × (BidContext → World τ → BidContext × World τ))}
    (hb : ∀ b ∈ bodies, ∀ ctx w, (b.2 ctx w).1.winners = ctx.winners) (ctx : BidContext)
    (w : World τ) : (runBodies bodies ctx w).1.winners = ctx.winners := by
  induction bodies generalizing ctx w with
  | nil => rfl
  | cons b bodies ih =>
    obtain ⟨hb, hbs⟩ := List.forall_mem_cons.1 hb
    exact (ih hbs (b.2 ctx w).1 (b.2 ctx w).2).trans (hb ctx w)

theorem responseBuild_of_bid {ctx : BidContext} (h : (responseBuild d ctx w).1.outcome = .Bid) :
    (responseBuild d ctx w).1.bidResponse = some (bidResponse d ctx) := by
  cases ho : ctx.outcome with
  | Pending => simp [responseBuild, ho] at h
  | NoBid reason => simp [responseBuild, ho] at h
  | Bid => simp [responseBuild, ho]

/-- A run that ends in a bid holds the auction on what the stages before it leave: the
request and the pacer as they were, and no winner. -/
theorem runPipeline_auction {deadlineMs : ℕ} {elapsedMs : ℕ → ℕ}
    (h : (runPipeline d deadlineMs elapsedMs req w).2.1.outcome = .Bid) :
    ∃ c, c = runBodies (middleStages d) (BidContext.new req) w ∧ c.1.request = req ∧
      c.1.winners = [] ∧ c.2.pacer = w.pacer ∧
      (runPipeline d deadlineMs elapsedMs req w).2 =
        let ranked := ranking (budgetPacing c.1 c.2).1 (budgetPacing c.1 c.2).2
        responseBuild d ranked.1 ranked.2 := by
  obtain ⟨-, -, hrun⟩ := runPipeline_of_bid h
  obtain ⟨-, hreq, hpacer⟩ := runBodies_neutral (middleStages_neutral d) (BidContext.new req) w
  have hwin := runBodies_winners (middleStages_winners d) (BidContext.new req) w
  rw [hrun, runBodies_append]
  exact ⟨_, rfl, hreq, hwin, hpacer, rfl⟩

/-- The response of a run that ends in a bid: one bid for each winner. -/
theorem runPipeline_response {deadlineMs : ℕ} {elapsedMs : ℕ → ℕ}
    (h : (runPipeline d deadlineMs elapsedMs req w).2.1.outcome = .Bid) :
    ∃ resp, (runPipeline d deadlineMs elapsedMs req w).2.1.bidResponse = some resp ∧
      resp.seatbid = [(rankAll req.imp 0 (paceAll w.pacer (pacedCandidates d req w)).2
        (paceAll w.pacer (pacedCandidates d req w)).1).1.map (bidOf d req)] := by
  obtain ⟨c, hc, hreq, hwin, hpacer, hrun⟩ := runPipeline_auction h
  have hcands : c.1.candidates = pacedCandidates d req w := by
    rw [hc]
    rfl
  have hwinners : (ranking (budgetPacing c.1 c.2).1 (budgetPacing c.1 c.2).2).1.winners =
      (rankAll req.imp 0 (paceAll w.pacer (pacedCandidates d req w)).2
        (paceAll w.pacer (pacedCandidates d req w)).1).1 := by
    simp only [ranking, budgetPacing, hwin, hreq, hpacer, hcands]
    rfl
  have hrequest : (ranking (budgetPacing c.1 c.2).1 (budgetPacing c.1 c.2).2).1.request = req := hreq
  rw [hrun] at h ⊢
  refine ⟨_, responseBuild_of_bid h, ?_⟩
  rw [bidResponse, hwinners, hrequest]

/-- Every bid of a response is right for an impression of its own, in the
request's order. -/
theorem emitted_bids_sound (d : Deps τ) (deadlineMs : ℕ) (elapsedMs : ℕ → ℕ) (req : BidRequest)
    (w : World τ) (hnan : ∀ cs sctx env, ∀ c ∈ (d.scoreAll cs sctx env).1, c.score ≠ .nan)
    (hbid : (runPipeline d deadlineMs elapsedMs req w).2.1.outcome = .Bid) :
    ∃ resp bids idx, (runPipeline d deadlineMs elapsedMs req w).2.1.bidResponse = some resp ∧
      resp.seatbid = [bids] ∧ idx.Pairwise (· < ·) ∧
      List.Forall₂ (fun i bid => ∃ imp x, SoundBid d req w i imp x bid) idx bids := by
  obtain ⟨-, himp, -⟩ := runPipeline_of_bid hbid
  obtain ⟨resp, hresp, hseat⟩ := runPipeline_response hbid
  obtain ⟨idx, hlt, hall⟩ := rankAll_indices req.imp 0 (paceAll w.pacer (pacedCandidates d req w)).2
    (paceAll w.pacer (pacedCandidates d req w)).1
  refine ⟨resp, _, idx, hresp, hseat, hlt, ?_⟩
  rw [List.forall₂_map_right_iff]
  refine hall.imp ?_
  intro i x ⟨_, cs, win, hcs, hmax, hx⟩
  subst hx
  obtain ⟨imp, hsound⟩ := survivors_sound himp hnan hcs hmax
  exact ⟨imp, win, hsound⟩

end Run

/-- The sample catalog, a scorer that gives every candidate the same score, and a
user who has used up campaign 9. -/
def sampleDeps : Deps Unit where
  catalog := build sampleRows
  segments := fun _ _ => (.ok [11, 12], ())
  scoreAll := fun cs _ _ => (cs.map fun c => { c with score := .fin (1 / 2) }, ())
  scoreAll_subperm := by
    intro cs _ _
    simp only [List.map_map, Function.comp_def, AdCandidate.unscored]
    exact .refl _
  check := fun _ cs _ _ _ =>
    (.Checked (cs.map fun c => capVerdict c (if c.campaignId = 9 then 10 else 0) 0), ())
  hourOfDay := fun _ => 0
  isWeekend := fun _ => false
  topK := 50
  heapOrder := id
  heapOrder_perm := List.Perm.refl
  noticeUrl := fun _ => none
  exchangeId := "openrtb"

/-- The first impression is for audio, for which the catalog has no creative. -/
def userRequest : BidRequest :=
  { sampleRequest with
    imp := [⟨"1", none, none, some (), none⟩, ⟨"2", some (), none, none, none⟩]
    user := some ⟨some "u", none⟩ }

def sampleRun : Except String Unit × BidContext × World Unit :=
  runPipeline sampleDeps 50 (fun _ => 10) userRequest
    ⟨LocalBudgetPacer.new.reload [(4, 1000), (9, 1000)], ()⟩

/-- The run bids for campaign 4 on the second impression only. -/
theorem emitted_bids_sound_sample :
    sampleRun.2.1.outcome = .Bid ∧
      sampleRun.2.1.winners.map (fun x => (x.impId, x.campaignId)) = [("2", 4)] ∧
      ∃ resp bids idx, sampleRun.2.1.bidResponse = some resp ∧ resp.seatbid = [bids] ∧
        idx.Pairwise (· < ·) ∧
        List.Forall₂ (fun i bid => ∃ imp x, SoundBid sampleDeps userRequest
          ⟨LocalBudgetPacer.new.reload [(4, 1000), (9, 1000)], ()⟩ i imp x bid) idx bids := by
  have hbid : sampleRun.2.1.outcome = .Bid := by decide +kernel
  refine ⟨hbid, by decide +kernel, emitted_bids_sound sampleDeps 50 (fun _ => 10) userRequest _ ?_ hbid⟩
  intro cs sctx env c hc
  obtain ⟨c, -, rfl⟩ := List.mem_map.1 hc
  simp

end RTB
