import RtbBidder.Proofs.BidSound
import RtbBidder.Proofs.BudgetLeak

/-! How many bids one response can hold for a campaign. Every impression is capped
against the same counters, so each impression that the campaign can serve may
add one. -/

namespace RTB

variable {τ : Type}

/-- What the bid handler sends: the bids of the response, if the outcome is a bid. -/
def emittedBids (ctx : BidContext) : List Bid :=
  match ctx.outcome, ctx.bidResponse with
  | .Bid, some resp => resp.seatbid.flatten
  | _, _ => []

def bidsFor (c : CampaignId) (bids : List Bid) : ℕ := bids.countP (·.cid = some (toString c))

/-- The list has a candidate of campaign `c`. -/
def Offers (c : CampaignId) (cs : List AdCandidate) : Prop := c ∈ cs.map (·.campaignId)

instance (c : CampaignId) (cs : List AdCandidate) : Decidable (Offers c cs) :=
  inferInstanceAs (Decidable (_ ∈ _))

/-- The number of impressions that campaign `c` can serve. -/
def servable (cat : CampaignCatalog) (req : BidRequest) (segs : List SegmentId) (c : CampaignId) :
    ℕ := req.imp.countP fun imp => Offers c (retrieve cat req segs imp)

/-- Bids for a campaign that keep a user's counts within its caps. -/
def WithinCaps (campaign : Campaign) (day hour bids : ℕ) : Prop :=
  day + bids ≤ campaign.dailyCapImps.toNat ∧ hour + bids ≤ campaign.hourlyCapImps.toNat

/-- The Redis capper answers, and reads `day` and `hour` for the user and the campaign. -/
def CountersRead (d : Deps τ) (user : String) (c : CampaignId) (day hour : ℕ) : Prop :=
  ∀ cs device hourOfDay env, ∃ redis,
    (d.check user cs device hourOfDay env).1 = RedisFrequencyCapper.check redis user cs ∧
      RedisFrequencyCapper.count redis user c .Day = day ∧
      RedisFrequencyCapper.count redis user c .Hour = hour

theorem emittedBids_of_bid {ctx : BidContext} {resp : BidResponse} (h : ctx.outcome = .Bid)
    (hr : ctx.bidResponse = some resp) : emittedBids ctx = resp.seatbid.flatten := by
  simp only [emittedBids, h, hr]

theorem emittedBids_of_not_bid {ctx : BidContext} (h : ctx.outcome ≠ .Bid) :
    emittedBids ctx = [] := by
  unfold emittedBids
  split
  · contradiction
  · rfl

section Counting

variable {c : CampaignId} {cs : List AdCandidate} {css : List (List AdCandidate)}

theorem Offers.mono {cs' : List AdCandidate} (h : Offers c cs') (hs : cs'.Sublist cs) :
    Offers c cs := (hs.map _).subset h

theorem Offers.of_mem {x : AdCandidate} (h : x ∈ cs) : Offers x.campaignId cs :=
  List.mem_map_of_mem h

theorem bidsFor_map_bidOf (d : Deps τ) (req : BidRequest) (ws : List ImpWinner) :
    bidsFor c (ws.map (bidOf d req)) = ws.countP (·.campaignId = c) := by
  rw [bidsFor, List.countP_map]
  apply List.countP_congr
  intro x _
  have hinj : toString x.campaignId = toString c ↔ x.campaignId = c :=
    ⟨fun h => UInt32.toNat_inj.1 (Nat.repr_injective h), fun h => by rw [h]⟩
  simp [bidOf, hinj]

/-- A campaign wins as often as it tops a list. -/
theorem rankAll_countP (imps : List Imp) (k : ℕ) (p : LocalBudgetPacer) :
    (rankAll imps k p css).1.countP (·.campaignId = c) =
      css.countP fun cs => (maxBy rankCmp cs).any (·.campaignId = c) := by
  induction css generalizing k p with
  | nil => rfl
  | cons cs css ih =>
    cases hw : maxBy rankCmp cs with
    | none => simp [rankAll, hw, ih]
    | some w => simp [rankAll, hw, ih, winnerOf, List.countP_cons]

theorem top_countP_le : (css.countP fun cs => (maxBy rankCmp cs).any (·.campaignId = c)) ≤
    css.countP fun cs => Offers c cs := by
  apply List.countP_mono_left
  intro cs _ h
  obtain ⟨w, hw, hid⟩ : ∃ w, maxBy rankCmp cs = some w ∧ w.campaignId = c := by
    simpa [Option.any_eq_true] using h
  exact decide_eq_true (List.mem_map.2 ⟨w, maxBy_mem hw, hid⟩)

/-- Counting one list by another that covers it position by position. -/
theorem countP_le_of_getElem? {α β : Type} {p : α → Bool} {q : β → Bool} {l : List α} {m : List β}
    (h : ∀ (i : ℕ) (a : α), l[i]? = some a → p a → ∃ b : β, m[i]? = some b ∧ q b) :
    l.countP p ≤ m.countP q := by
  induction l generalizing m with
  | nil => exact Nat.zero_le _
  | cons a l ih =>
    cases m with
    | nil =>
      have hnone : ∀ b ∈ a :: l, ¬ p b := by
        intro b hb hp
        obtain ⟨i, hi⟩ := List.getElem?_of_mem hb
        obtain ⟨b', hb', -⟩ := h i b hi hp
        cases hb'
      rw [List.countP_eq_zero.2 hnone]
      exact Nat.zero_le _
    | cons b m =>
      have hrest := ih (m := m) fun i x hi hp => h (i + 1) x hi hp
      have hhead : p a → q b := by
        intro hp
        obtain ⟨b', hb', hq⟩ := h 0 a rfl hp
        obtain rfl := Option.some.inj hb'
        exact hq
      rw [List.countP_cons, List.countP_cons]
      split_ifs with hp hq
      · omega
      · exact absurd (hhead hp) hq
      · omega
      · omega

theorem paceAll_countP_le (p : LocalBudgetPacer) :
    ((paceAll p css).1.countP fun cs => Offers c cs) ≤ css.countP fun cs => Offers c cs := by
  apply countP_le_of_getElem?
  intro i cs' hcs' hoffers
  rw [paceAll_getElem?] at hcs'
  obtain ⟨cs, hcs, rfl⟩ := Option.map_eq_some_iff.1 hcs'
  exact ⟨cs, hcs, decide_eq_true ((of_decide_eq_true hoffers).mono (paceImp_sublist _ cs))⟩

theorem pacedCandidates_countP_le {d : Deps τ} {req : BidRequest} {w : World τ}
    (himp : req.imp ≠ []) :
    ((pacedCandidates d req w).countP fun cs => Offers c cs) ≤
      servable d.catalog req (segmentsOf d req w) c := by
  apply countP_le_of_getElem?
  intro i cs hcs hoffers
  obtain ⟨all, hall, hsub⟩ : ∃ all, (scored d req w).1.candidates[i]? = some all ∧
      cs.Sublist all := freqCap_subset d hcs
  obtain ⟨x, hx, hid⟩ := List.mem_map.1 (of_decide_eq_true hoffers)
  obtain ⟨imp, himp, hret⟩ := scored_aligned himp i all hall x (hsub.subset hx)
  exact ⟨imp, himp, decide_eq_true (List.mem_map.2 ⟨x.unscored, hret, hid⟩)⟩

/-- A response has at most one bid for the campaign per impression that it can serve. -/
theorem emittedBids_le (d : Deps τ) (deadlineMs : ℕ) (elapsedMs : ℕ → ℕ) (req : BidRequest)
    (w : World τ) (c : CampaignId) :
    bidsFor c (emittedBids (runPipeline d deadlineMs elapsedMs req w).2.1) ≤
      servable d.catalog req (segmentsOf d req w) c := by
  by_cases hbid : (runPipeline d deadlineMs elapsedMs req w).2.1.outcome = .Bid
  · obtain ⟨-, himp, -⟩ := runPipeline_of_bid hbid
    obtain ⟨resp, hresp, hseat⟩ := runPipeline_response hbid
    rw [emittedBids_of_bid hbid hresp, hseat, List.flatten_singleton, bidsFor_map_bidOf,
      rankAll_countP]
    exact top_countP_le.trans ((paceAll_countP_le _).trans (pacedCandidates_countP_le himp))
  · rw [emittedBids_of_not_bid hbid]
    exact Nat.zero_le _

end Counting

section Construction

variable {c : CampaignId} {cs : List AdCandidate} {css : List (List AdCandidate)}
  {p : LocalBudgetPacer}

/-- A campaign with budget for `m` more bids at its price is kept in the next `m + 1`
lists that offer it. -/
theorem paceAll_countP_ge (hwf : ∀ cs ∈ css, WellFormed cs) {price : Int32}
    (hprice : ∀ cs ∈ css, ∀ x ∈ cs, x.campaignId = c → x.bidPriceCents = price)
    (hn : 0 ≤ price.toInt) {v : Int64} (hv : p.counters c = some v) {m : ℕ}
    (hm : m * price.toInt < v.toInt) :
    min (m + 1) (css.countP fun cs => Offers c cs) ≤
      (paceAll p css).1.countP fun cs => Offers c cs := by
  induction css generalizing p v m with
  | nil => exact min_le_right _ _
  | cons cs css ih =>
    obtain ⟨hcs, hcss⟩ := List.forall_mem_cons.1 hwf
    obtain ⟨hpcs, hpcss⟩ := List.forall_mem_cons.1 hprice
    obtain ⟨v', hv', hval⟩ : ∃ v', (paceImp p cs).2.counters c = some v' ∧
        v'.toInt = v.toInt - bidsOn c (paceImp p cs).1 := by
      simpa [hv] using paceImp_charged (p := p) hcs.1 hcs.2 c
    have hvpos : ¬ v ≤ 0 := by
      rw [Int64.le_iff_toInt_le, Int64.toInt_zero]
      have := mul_nonneg (Int.natCast_nonneg m) hn
      omega
    simp only [paceAll, List.countP_cons, decide_eq_true_eq]
    by_cases hoff : Offers c cs
    · obtain ⟨x, hx, rfl⟩ := List.mem_map.1 hoff
      have hkept := mem_paceImp hcs.1 hx hv hvpos
      rw [if_pos hoff, if_pos (Offers.of_mem hkept)]
      rw [bidsOn_of_mem (hcs.1.sublist (paceImp_sublist p cs)) hkept, hpcs x hx rfl] at hval
      cases m with
      | zero => omega
      | succ m =>
        have := ih hcss hpcss hv' (m := m) (by rw [hval]; push_cast at hm; linarith)
        omega
    · have hkept : ¬ Offers c (paceImp p cs).1 := fun h => hoff (h.mono (paceImp_sublist p cs))
      have hzero : bidsOn c (paceImp p cs).1 = 0 := by
        apply List.sum_eq_zero
        intro y hy
        obtain ⟨x, hx, rfl⟩ := List.mem_map.1 hy
        exact if_neg fun hid => hkept (List.mem_map.2 ⟨x, hx, hid⟩)
      rw [if_neg hoff, if_neg hkept]
      exact ih hcss hpcss hv' (by omega)

/-- Where no other campaign has budget, the campaign wins every list that keeps it. -/
theorem top_countP_of_alone (hwf : ∀ cs ∈ css, WellFormed cs)
    (halone : ∀ id, id ≠ c → p.counters id = none) :
    ((paceAll p css).1.countP fun cs => (maxBy rankCmp cs).any (·.campaignId = c)) =
      (paceAll p css).1.countP fun cs => Offers c cs := by
  apply List.countP_congr
  intro cs hcs
  have hall : ∀ x ∈ cs, x.campaignId = c := by
    intro x hx
    by_contra hne
    exact paceAll_kept (fun cs hcs => (hwf cs hcs).1) (fun cs hcs => (hwf cs hcs).2) hcs hx
      (halone _ hne)
  cases hw : maxBy rankCmp cs with
  | none =>
    rw [maxBy_eq_none.1 hw]
    simp [Offers]
  | some w =>
    have hmem := maxBy_mem hw
    have hoff : Offers c cs := List.mem_map.2 ⟨w, hmem, hall w hmem⟩
    simp [hall w hmem, hoff]

theorem mapIdxState_map {α β σ : Type} {f : ℕ → α → σ → β × σ} {g : α → β}
    (hf : ∀ i a s, (f i a s).1 = g a) (k : ℕ) (l : List α) (s : σ) :
    (mapIdxState f k l s).1 = l.map g := by
  induction l generalizing k s with
  | nil => rfl
  | cons a l ih => simp only [mapIdxState, hf, ih, List.map_cons]

/-- The run reaches a bid if pacing leaves a candidate and no deadline is missed. -/
theorem runPipeline_bids {d : Deps τ} {deadlineMs : ℕ} {elapsedMs : ℕ → ℕ} {req : BidRequest}
    {w : World τ} (hval : validationError req = none) (ht : ∀ k, elapsedMs k < deadlineMs)
    (h : ¬ ∀ cs ∈ (paceAll w.pacer (pacedCandidates d req w)).1, cs = []) :
    (runPipeline d deadlineMs elapsedMs req w).2.1.outcome = .Bid := by
  obtain ⟨hout, -, hpacer⟩ := runBodies_neutral (middleStages_neutral d) (BidContext.new req) w
  rw [runPipeline_paces hval fun k _ => ht k]
  have hcands : (runBodies (middleStages d) (BidContext.new req) w).1.candidates =
      pacedCandidates d req w := rfl
  generalize runBodies (middleStages d) (BidContext.new req) w = c at hout hpacer hcands ⊢
  have hpaced : (budgetPacing c.1 c.2).1.outcome = .Pending := by
    rw [budgetPacing_outcome, hpacer, hcands, if_neg h]
    exact hout
  have hranked : (ranking (budgetPacing c.1 c.2).1 (budgetPacing c.1 c.2).2).1.outcome = .Bid := by
    apply ranking_outcome
    simp only [budgetPacing, hpacer, hcands]
    exact h
  have hbuilt := responseBuild_outcome (d := d)
    (ranking (budgetPacing c.1 c.2).1 (budgetPacing c.1 c.2).2).2 hranked
  rw [Pipeline.execute_ofBody _ _ _ (ht _), hpaced, if_neg (by simp [PipelineOutcome.isNoBid]),
    Pipeline.execute_ofBody _ _ _ (ht _), hranked, if_neg (by simp [PipelineOutcome.isNoBid]),
    Pipeline.execute_ofBody _ _ _ (ht _), hbuilt, if_neg (by simp [PipelineOutcome.isNoBid])]
  exact hbuilt

/-- Redis with counts for one user and campaign only. -/
def oneUserRedis (user : String) (c : CampaignId) (day hour : ℕ) : String → Option ℤ := fun key =>
  if key = fcKey user "c" c .Day then some day
  else if key = fcKey user "c" c .Hour then some hour
  else none

/-- The Redis capper on these counts, no candidate limit and no scoring. -/
def plainDeps (cat : CampaignCatalog) (segs : List SegmentId) (redis : String → Option ℤ)
    (topK : ℕ) : Deps Unit :=
  { bareDeps with
    catalog := cat
    segments := fun _ _ => (.ok segs, ())
    check := fun user cs _ _ _ => (RedisFrequencyCapper.check redis user cs, ())
    topK := topK }

theorem oneUserRedis_count (user : String) (c : CampaignId) (day hour : ℕ) :
    RedisFrequencyCapper.count (oneUserRedis user c day hour) user c .Day = day ∧
      RedisFrequencyCapper.count (oneUserRedis user c day hour) user c .Hour = hour := by
  have hne : fcKey user "c" c .Hour ≠ fcKey user "c" c .Day := by
    intro h
    cases (fcKey_inj h).2.2
  simp [RedisFrequencyCapper.count, oneUserRedis, hne]

section Plain

variable {cat : CampaignCatalog} {segs : List SegmentId} {redis : String → Option ℤ} {topK : ℕ}
  {req : BidRequest} {user : String} {w : World Unit}

theorem plainDeps_segmentsOf (hu : req.userId = some user) :
    segmentsOf (plainDeps cat segs redis topK) req w = segs := by
  simp [segmentsOf, userEnrichment, BidContext.new, hu, plainDeps]

/-- What the stages before pacing make of the request: each impression's candidates
without the capped ones. -/
theorem plainDeps_pacedCandidates (hu : req.userId = some user) (himp : req.imp ≠ [])
    (hcat : cat.isEmpty = false)
    (hk : ∀ imp ∈ req.imp, (retrieve cat req segs imp).length ≤ topK) :
    pacedCandidates (plainDeps cat segs redis topK) req w =
      req.imp.map fun imp => dropCapped
        ((retrieve cat req segs imp).map (RedisFrequencyCapper.verdict redis user))
        (retrieve cat req segs imp) := by
  have hmax : max req.imp.length 1 = req.imp.length :=
    max_eq_left (List.length_pos_of_ne_nil himp)
  let ctx : BidContext := { BidContext.new req with catalog := some cat, segmentIds := segs }
  have he : userEnrichment (plainDeps cat segs redis topK) (BidContext.new req) w = (ctx, w) := by
    simp [userEnrichment, BidContext.new, hu, plainDeps, ctx]
  have hlen : ctx.candidates.length = ctx.request.imp.length := by
    simp [BidContext.new, hmax, ctx]
  have hr : (candidateRetrieval ctx w).1.candidates = req.imp.map (retrieve cat req segs) :=
    candidateRetrieval_candidates w rfl hcat himp hlen
  have hreq : (candidateRetrieval ctx w).1.request = req :=
    candidateRetrieval_neutral.request ctx w
  simp only [pacedCandidates, runBodies, middleStages, List.foldl_cons, List.foldl_nil, he]
  generalize candidateRetrieval ctx w = r at hr hreq ⊢
  have hl : (candidateLimit (plainDeps cat segs redis topK) r.1 r.2).1.candidates =
      req.imp.map (retrieve cat req segs) := by
    rw [candidateLimit, hr]
    simp only [List.map_map]
    apply List.map_congr_left
    intro imp himp
    exact if_pos (hk imp himp)
  have hlreq : (candidateLimit (plainDeps cat segs redis topK) r.1 r.2).1.request = req := hreq
  generalize candidateLimit (plainDeps cat segs redis topK) r.1 r.2 = l at hl hlreq ⊢
  have hs : (scoring (plainDeps cat segs redis topK) l.1 l.2).1.candidates =
      req.imp.map (retrieve cat req segs) := by
    rw [scoring, mapIdxState_map (g := id) (by intro i a s; split_ifs <;> rfl), List.map_id, hl]
  have hsreq : (scoring (plainDeps cat segs redis topK) l.1 l.2).1.request = req := hlreq
  generalize scoring (plainDeps cat segs redis topK) l.1 l.2 = s at hs hsreq ⊢
  apply List.ext_getElem?
  intro i
  rw [freqCap_getElem? _ (hsreq ▸ hu), hs, List.getElem?_map, List.getElem?_map, Option.map_map]
  apply Option.map_congr
  intro imp _
  rw [Function.comp_apply, capImp]
  split_ifs with hempty
  · rw [List.isEmpty_iff.1 hempty]
    rfl
  · simp only [plainDeps, RedisFrequencyCapper.check_eq]

theorem isEmpty_eq_false_of_campaign {c : CampaignId} {campaign : Campaign}
    (hc : cat.campaign c = some campaign) : cat.isEmpty = false := by
  rw [CampaignCatalog.isEmpty, List.isEmpty_eq_false_iff]
  intro hnil
  simp [CampaignCatalog.campaign, AList.lookup, hnil] at hc

/-- The largest counter covers any number of bids that a cap can count. -/
theorem mul_bidFloorCents_lt (campaign : Campaign) {m : ℕ} (hm : m < 2 ^ 32) :
    m * campaign.bidFloorCents.toInt < Int64.maxValue.toInt := by
  have hnn := campaign.bidFloorCents_nonneg
  have hlt := campaign.bidFloorCents.toInt_lt
  have hmax : Int64.maxValue.toInt = 2 ^ 63 - 1 := rfl
  have hmul : (m : ℤ) * campaign.bidFloorCents.toInt ≤ (2 ^ 32 - 1) * (2 ^ 31 - 1) :=
    mul_le_mul (by omega) (by omega) hnn (by norm_num)
  rw [hmax]
  exact hmul.trans_lt (by norm_num)

/-- Capping keeps a campaign whose counts are below its caps. -/
theorem offers_dropCapped {c : CampaignId} {campaign : Campaign} {imp : Imp}
    (hc : cat.campaign c = some campaign)
    (hday : RedisFrequencyCapper.count redis user c .Day < campaign.dailyCapImps.toNat)
    (hhour : RedisFrequencyCapper.count redis user c .Hour < campaign.hourlyCapImps.toNat)
    (h : Offers c (retrieve cat req segs imp)) :
    Offers c (dropCapped ((retrieve cat req segs imp).map (RedisFrequencyCapper.verdict redis user))
      (retrieve cat req segs imp)) := by
  obtain ⟨x, hx, rfl⟩ := List.mem_map.1 h
  refine Offers.of_mem (List.mem_filter.2 ⟨hx, decide_eq_true ?_⟩)
  intro hcapped
  obtain ⟨r, hr, hid⟩ := List.mem_map.1 hcapped
  obtain ⟨hmem, hcap⟩ := List.mem_filter.1 hr
  obtain ⟨y, hy, rfl⟩ := List.mem_map.1 hmem
  have hid : y.campaignId = x.campaignId := hid
  obtain ⟨-, campaign', hret⟩ := mem_retrieve hy
  obtain rfl := Option.some.inj (hret.campaign_eq.symm.trans (hid ▸ hc))
  simp only [RedisFrequencyCapper.verdict, capVerdict, Bool.or_eq_true, decide_eq_true_eq, hid,
    hret.dailyCap, hret.hourlyCap] at hcap
  omega

/-- Below its caps the campaign comes to pacing on every impression it can serve. -/
theorem servable_le_paced {c : CampaignId} {campaign : Campaign} (hu : req.userId = some user)
    (himp : req.imp ≠ []) (hc : cat.campaign c = some campaign)
    (hk : ∀ imp ∈ req.imp, (retrieve cat req segs imp).length ≤ topK)
    (hday : RedisFrequencyCapper.count redis user c .Day < campaign.dailyCapImps.toNat)
    (hhour : RedisFrequencyCapper.count redis user c .Hour < campaign.hourlyCapImps.toNat) :
    servable cat req segs c ≤
      (pacedCandidates (plainDeps cat segs redis topK) req w).countP fun cs => Offers c cs := by
  rw [plainDeps_pacedCandidates hu himp (isEmpty_eq_false_of_campaign hc) hk, List.countP_map]
  apply List.countP_mono_left
  intro imp _ hoff
  exact decide_eq_true (offers_dropCapped hc hday hhour (of_decide_eq_true hoff))

theorem plainDeps_price {c : CampaignId} {campaign : Campaign} (hu : req.userId = some user)
    (himp : req.imp ≠ []) (hc : cat.campaign c = some campaign)
    (hk : ∀ imp ∈ req.imp, (retrieve cat req segs imp).length ≤ topK) :
    ∀ cs ∈ pacedCandidates (plainDeps cat segs redis topK) req w, ∀ x ∈ cs, x.campaignId = c →
      x.bidPriceCents = campaign.bidFloorCents := by
  intro cs hcs x hx hid
  rw [plainDeps_pacedCandidates hu himp (isEmpty_eq_false_of_campaign hc) hk] at hcs
  obtain ⟨imp, -, rfl⟩ := List.mem_map.1 hcs
  obtain ⟨-, campaign', hret⟩ := mem_retrieve (List.mem_filter.1 hx).1
  rw [hret.price, Option.some.inj (hret.campaign_eq.symm.trans (hid ▸ hc))]

end Plain

theorem exists_nonempty_of_countP {c : CampaignId} {css : List (List AdCandidate)}
    (h : 0 < css.countP fun cs => Offers c cs) : ¬ ∀ cs ∈ css, cs = [] := by
  intro hnil
  obtain ⟨cs, hcs, hoff⟩ := List.countP_pos_iff.1 h
  rw [hnil cs hcs] at hoff
  simp [Offers] at hoff

/-- A valid request that the campaign can serve more often than its caps leave room for
gets a response that goes past them. -/
theorem exists_response_past_caps {cat : CampaignCatalog} {req : BidRequest} {user : String}
    (hu : req.userId = some user) (hval : validationError req = none) {segs : List SegmentId}
    {c : CampaignId} {campaign : Campaign} (hc : cat.campaign c = some campaign) {day hour : ℕ}
    (hday : day < campaign.dailyCapImps.toNat) (hhour : hour < campaign.hourlyCapImps.toNat)
    {m : ℕ} (hm : m < servable cat req segs c) (hm32 : m < 2 ^ 32) :
    ∃ (d : Deps Unit) (w : World Unit), d.catalog = cat ∧ segmentsOf d req w = segs ∧
      CountersRead d user c day hour ∧
      m < bidsFor c (emittedBids (runPipeline d 1 (fun _ => 0) req w).2.1) := by
  have himp := imp_ne_nil_of_valid hval
  obtain ⟨hcday, hchour⟩ := oneUserRedis_count user c day hour
  let topK := (req.imp.map fun imp => (retrieve cat req segs imp).length).sum
  have hk : ∀ imp ∈ req.imp, (retrieve cat req segs imp).length ≤ topK :=
    fun imp hi => List.single_le_sum (fun _ _ => Nat.zero_le _) _ (List.mem_map_of_mem hi)
  let d := plainDeps cat segs (oneUserRedis user c day hour) topK
  let w : World Unit := ⟨⟨Function.update (fun _ => none) c (some Int64.maxValue)⟩, ()⟩
  have hcount : servable cat req segs c ≤ (pacedCandidates d req w).countP fun cs => Offers c cs :=
    servable_le_paced hu himp hc hk (by rw [hcday]; exact_mod_cast hday)
      (by rw [hchour]; exact_mod_cast hhour)
  have hwf := pacedCandidates_wellFormed d req w
  have hcounter : w.pacer.counters c = some Int64.maxValue := by simp [w]
  have halone : ∀ id, id ≠ c → w.pacer.counters id = none :=
    fun id hne => by simp [w, hne]
  have hkept := paceAll_countP_ge hwf (plainDeps_price hu himp hc hk)
    campaign.bidFloorCents_nonneg hcounter (mul_bidFloorCents_lt campaign hm32)
  have hwon := top_countP_of_alone hwf halone
  have hne : ¬ ∀ cs ∈ (paceAll w.pacer (pacedCandidates d req w)).1, cs = [] :=
    exists_nonempty_of_countP (c := c) (by omega)
  have hbid : (runPipeline d 1 (fun _ => 0) req w).2.1.outcome = .Bid :=
    runPipeline_bids hval (fun _ => Nat.zero_lt_one) hne
  obtain ⟨resp, hresp, hseat⟩ := runPipeline_response hbid
  refine ⟨d, w, rfl, plainDeps_segmentsOf hu, fun _ _ _ _ => ⟨_, rfl, hcday, hchour⟩, ?_⟩
  rw [emittedBids_of_bid hbid hresp, hseat, List.flatten_singleton, bidsFor_map_bidOf,
    rankAll_countP, hwon]
  omega

end Construction

/-- One response keeps a user within a campaign's caps, whatever the scorer, the pacer
and the other campaigns' counters, exactly when the request is refused or the
campaign can serve no more of its impressions than the caps leave room for. -/
theorem response_within_caps_iff (cat : CampaignCatalog) (req : BidRequest) (user : String)
    (hu : req.userId = some user) (segs : List SegmentId) (c : CampaignId) (campaign : Campaign)
    (hc : cat.campaign c = some campaign) (day hour : ℕ)
    (hday : day < campaign.dailyCapImps.toNat) (hhour : hour < campaign.hourlyCapImps.toNat) :
    (∀ (τ : Type) (d : Deps τ) (w : World τ) (deadlineMs : ℕ) (elapsedMs : ℕ → ℕ),
      d.catalog = cat → segmentsOf d req w = segs → CountersRead d user c day hour →
        WithinCaps campaign day hour
          (bidsFor c (emittedBids (runPipeline d deadlineMs elapsedMs req w).2.1))) ↔
    (validationError req = none → servable cat req segs c ≤
      min (campaign.dailyCapImps.toNat - day) (campaign.hourlyCapImps.toNat - hour)) := by
  refine ⟨?_, ?_⟩
  · intro h hval
    by_contra hgt
    have hroom : min (campaign.dailyCapImps.toNat - day) (campaign.hourlyCapImps.toNat - hour) <
        2 ^ 32 := by
      have := campaign.dailyCapImps.toNat_lt
      omega
    obtain ⟨d, w, hcat, hsegs, hread, hbids⟩ :=
      exists_response_past_caps hu hval hc hday hhour (not_le.1 hgt) hroom
    obtain ⟨hd, hh⟩ := h Unit d w 1 (fun _ => 0) hcat hsegs hread
    omega
  · intro h τ d w deadlineMs elapsedMs hcat hsegs _
    by_cases hbid : (runPipeline d deadlineMs elapsedMs req w).2.1.outcome = .Bid
    · have hle := emittedBids_le d deadlineMs elapsedMs req w c
      have hroom := h (runPipeline_of_bid hbid).1
      rw [hcat, hsegs] at hle
      refine ⟨?_, ?_⟩ <;> omega
    · rw [emittedBids_of_not_bid hbid]
      exact ⟨hday.le, hhour.le⟩

/-- The campaign of `oneCampaign`, to be shown once a day and once an hour. -/
def onceCampaign : Campaign :=
  { campaignOf (sampleCampaign 7 100) with dailyCapImps := 1, hourlyCapImps := 1 }

def onceCatalog : CampaignCatalog :=
  { oneCampaign with campaigns := AList.singleton 7 onceCampaign }

/-- A request of user `u` with a banner on each of the impressions. -/
def bannersRequest (ids : List String) : BidRequest :=
  { bannerRequest with
    imp := ids.map fun id => ⟨id, some (), none, none, none⟩
    user := some ⟨some "u", none⟩ }

/-- The run with nothing in Redis and 500 cents of budget. -/
def bannersRun (ids : List String) : Except String Unit × BidContext × World Unit :=
  runPipeline (plainDeps onceCatalog [] (fun _ => none) 50) 50 (fun _ => 10) (bannersRequest ids)
    ⟨LocalBudgetPacer.new.reload [(7, 500)], ()⟩

/-- Two impressions and a cap of one that is not used up: the response has two bids. -/
theorem two_bids_past_cap_of_one :
    onceCatalog.campaign 7 = some onceCampaign ∧
      CountersRead (plainDeps onceCatalog [] (fun _ => none) 50) "u" 7 0 0 ∧
      0 < onceCampaign.dailyCapImps.toNat ∧ 0 < onceCampaign.hourlyCapImps.toNat ∧
      (emittedBids (bannersRun ["1", "2"]).2.1).map (fun b => (b.impid, b.cid)) =
        [("1", some "7"), ("2", some "7")] ∧
      ¬ WithinCaps onceCampaign 0 0 (bidsFor 7 (emittedBids (bannersRun ["1", "2"]).2.1)) := by
  refine ⟨rfl, fun _ _ _ _ => ⟨_, rfl, rfl, rfl⟩, by decide, by decide, by decide +kernel, ?_⟩
  unfold WithinCaps
  decide +kernel

/-- With one impression the same campaign stays within its caps. -/
theorem one_impression_within_caps :
    servable onceCatalog (bannersRequest ["1"]) [] 7 = 1 ∧
      ∀ (τ : Type) (d : Deps τ) (w : World τ) (deadlineMs : ℕ) (elapsedMs : ℕ → ℕ),
        d.catalog = onceCatalog → segmentsOf d (bannersRequest ["1"]) w = [] →
          CountersRead d "u" 7 0 0 → WithinCaps onceCampaign 0 0
            (bidsFor 7 (emittedBids (runPipeline d deadlineMs elapsedMs (bannersRequest ["1"]) w).2.1)) := by
  have hone : servable onceCatalog (bannersRequest ["1"]) [] 7 = 1 := by decide +kernel
  refine ⟨hone, (response_within_caps_iff onceCatalog (bannersRequest ["1"]) "u" rfl [] 7
    onceCampaign rfl 0 0 (by decide) (by decide)).2 fun _ => ?_⟩
  rw [hone]
  decide

end RTB
