import RtbBidder.Spec.Pipeline

/-! What budget pacing takes out of the counters and what ranking puts back, for
candidate lists that name each campaign at most once per impression. -/

namespace RTB

/-- No campaign has two candidates in the list. -/
def Distinct (cs : List AdCandidate) : Prop := (cs.map (·.campaignId)).Nodup

/-- No campaign has a negative bid in the list. -/
def NonnegBids (cs : List AdCandidate) : Prop := ∀ c ∈ cs, 0 ≤ c.bidPriceCents.toInt

/-- The cents that the candidates of the list bid for `id`. -/
def bidsOn (id : CampaignId) (cs : List AdCandidate) : ℤ :=
  (cs.map fun c => if c.campaignId = id then c.bidPriceCents.toInt else 0).sum

@[simp] theorem bidsOn_nil (id : CampaignId) : bidsOn id [] = 0 := rfl

@[simp] theorem bidsOn_cons (id : CampaignId) (c : AdCandidate) (cs : List AdCandidate) :
    bidsOn id (c :: cs) = (if c.campaignId = id then c.bidPriceCents.toInt else 0) + bidsOn id cs :=
  List.sum_cons

theorem bidsOn_nonneg {cs : List AdCandidate} (h : NonnegBids cs) (id : CampaignId) :
    0 ≤ bidsOn id cs := by
  apply List.sum_nonneg
  intro x hx
  obtain ⟨c, hc, rfl⟩ := List.mem_map.1 hx
  split_ifs
  · exact h c hc
  · exact le_rfl

theorem le_bidsOn {cs : List AdCandidate} (h : NonnegBids cs) {c : AdCandidate} (hc : c ∈ cs) :
    c.bidPriceCents.toInt ≤ bidsOn c.campaignId cs := by
  induction cs with
  | nil => cases hc
  | cons b cs ih =>
    have hcs : NonnegBids cs := fun a ha => h a (List.mem_cons_of_mem _ ha)
    have hb := h b List.mem_cons_self
    rw [bidsOn_cons]
    rcases List.mem_cons.1 hc with rfl | hc
    · have := bidsOn_nonneg hcs c.campaignId
      simp only [if_true]
      omega
    · have := ih hcs hc
      split_ifs <;> omega

def bidsOnAll (id : CampaignId) (css : List (List AdCandidate)) : ℤ := (css.map (bidsOn id)).sum

/-- From `p` to `p'` every counter goes down by `spent`, without wrapping. -/
def Charged (p p' : LocalBudgetPacer) (spent : CampaignId → ℤ) : Prop :=
  ∀ id, (p'.counters id).map Int64.toInt = (p.counters id).map fun v => v.toInt - spent id

namespace Charged

variable {p p' p'' : LocalBudgetPacer} {a b : CampaignId → ℤ}

theorem refl (p : LocalBudgetPacer) : Charged p p fun _ => 0 := by
  intro id
  simp only [sub_zero]

theorem trans (h : Charged p p' a) (h' : Charged p' p'' b) :
    Charged p p'' fun id => a id + b id := by
  intro id
  have h1 := h id
  have h2 := h' id
  cases hp : p.counters id with
  | none => simp_all
  | some v =>
    obtain ⟨v', hv', hv⟩ : ∃ v', p'.counters id = some v' ∧ v'.toInt = v.toInt - a id := by
      simpa [hp] using h1
    rw [h2, hv']
    simp only [Option.map_some, hv, Option.some.injEq]
    ring

theorem congr (h : Charged p p' a) (hab : ∀ id, a id = b id) : Charged p p' b := by
  obtain rfl : a = b := funext hab
  exact h

/-- A campaign with a counter that was charged has another counter value. -/
theorem ne_of_pos (h : Charged p p' a) {id : CampaignId} (hid : p.counters id ≠ none)
    (ha : 0 < a id) : p'.counters id ≠ p.counters id := by
  intro heq
  have := h id
  obtain ⟨v, hv⟩ := Option.ne_none_iff_exists'.1 hid
  rw [heq, hv] at this
  simp only [Option.map_some, Option.some.injEq] at this
  omega

/-- A campaign charged nothing keeps its counter. -/
theorem eq_of_zero (h : Charged p p' a) {id : CampaignId} (ha : a id = 0) :
    p'.counters id = p.counters id := by
  have := h id
  simp only [ha, sub_zero] at this
  exact Option.map_injective (fun _ _ => Int64.toInt_inj.1) this

theorem eq_none_iff (h : Charged p p' a) (id : CampaignId) :
    p'.counters id = none ↔ p.counters id = none := by
  have := h id
  rw [← Option.map_eq_none_iff (f := Int64.toInt), this, Option.map_eq_none_iff]

theorem fetchSub {id : CampaignId} {v : Int64} {bid : Int32} (hv : p.counters id = some v)
    (hpos : ¬ v ≤ 0) (hb : 0 ≤ bid.toInt) :
    Charged p (p.fetchSub id bid.toInt64) fun c => if id = c then bid.toInt else 0 := by
  intro c
  by_cases hc : id = c
  · subst hc
    simp [hv, toInt_sub_bid hpos hb]
  · simp [LocalBudgetPacer.fetchSub_counters_ne p _ (Ne.symm hc), hc]

theorem release {id : CampaignId} {bid : Int32} (hb : 0 ≤ bid.toInt)
    (hfit : ∀ v, p.counters id = some v → v.toInt + bid.toInt < 2 ^ 63) :
    Charged p (p.release id bid) fun c => - if id = c then bid.toInt else 0 := by
  intro c
  rw [LocalBudgetPacer.release]
  by_cases hc : id = c
  · subst hc
    cases hv : p.counters id with
    | none => simp [hv]
    | some v => simp [hv, toInt_add_bid hb (hfit v hv)]
  · simp [LocalBudgetPacer.fetchAdd_counters_ne p _ (Ne.symm hc), hc]

end Charged

section Pacing

variable {p : LocalBudgetPacer} {c : AdCandidate} {cs : List AdCandidate}

theorem reserveAll_subset {id : CampaignId} (h : id ∈ (reserveAll p cs).1) :
    id ∈ cs.map (·.campaignId) := by
  induction cs generalizing p with
  | nil => exact h
  | cons c cs ih =>
    simp only [reserveAll] at h
    split_ifs at h
    · rcases List.mem_cons.1 h with rfl | h
      · exact List.mem_cons_self
      · exact List.mem_cons_of_mem _ (ih h)
    · exact List.mem_cons_of_mem _ (ih h)

/-- The first candidate of a list is refused and dropped, or charged and kept. -/
theorem paceImp_cons (p : LocalBudgetPacer) (h : Distinct (c :: cs)) :
    ((∀ v, p.counters c.campaignId = some v → v ≤ 0) ∧ paceImp p (c :: cs) = paceImp p cs) ∨
    ∃ v, p.counters c.campaignId = some v ∧ ¬ v ≤ 0 ∧
      paceImp p (c :: cs) =
        (c :: (paceImp (p.fetchSub c.campaignId c.bidPriceCents.toInt64) cs).1,
          (paceImp (p.fetchSub c.campaignId c.bidPriceCents.toInt64) cs).2) := by
  obtain ⟨hc, -⟩ := List.nodup_cons.1 h
  by_cases hv : ∀ v, p.counters c.campaignId = some v → v ≤ 0
  · left
    refine ⟨hv, ?_⟩
    have hkeep : ∀ a ∈ cs, a.campaignId ≠ c.campaignId :=
      fun a ha hac => hc (List.mem_map.2 ⟨a, ha, hac⟩)
    simp only [paceImp, reserveAll, LocalBudgetPacer.checkAndReserve_exhausted _ hv, if_true,
      List.mem_cons, true_or, not_true_eq_false, decide_false, Bool.false_eq_true,
      not_false_eq_true, List.filter_cons_of_neg, Prod.mk.injEq, and_true]
    apply List.filter_congr
    intro a ha
    simp [hkeep a ha]
  · right
    push Not at hv
    obtain ⟨v, hv, hpos⟩ := hv
    refine ⟨v, hv, hpos, ?_⟩
    have hkept : c.campaignId ∉
        (reserveAll (p.fetchSub c.campaignId c.bidPriceCents.toInt64) cs).1 :=
      fun hmem => hc (reserveAll_subset hmem)
    simp [paceImp, reserveAll, LocalBudgetPacer.checkAndReserve_hasBudget _ hv hpos, hkept]

theorem paceImp_sublist (p : LocalBudgetPacer) (cs : List AdCandidate) :
    (paceImp p cs).1.Sublist cs := List.filter_sublist

theorem Distinct.sublist {l l' : List AdCandidate} (h : Distinct l) (hs : l'.Sublist l) :
    Distinct l' := List.Nodup.sublist (hs.map _) h

/-- Pacing one impression charges exactly the candidates it keeps. -/
theorem paceImp_charged (hd : Distinct cs) (hn : NonnegBids cs) :
    Charged p (paceImp p cs).2 fun id => bidsOn id (paceImp p cs).1 := by
  induction cs generalizing p with
  | nil => exact Charged.refl p
  | cons c cs ih =>
    have hd' : Distinct cs := (List.nodup_cons.1 hd).2
    have hn' : NonnegBids cs := fun a ha => hn a (List.mem_cons_of_mem _ ha)
    rcases paceImp_cons p hd with ⟨-, he⟩ | ⟨v, hv, hpos, he⟩
    · rw [he]
      exact ih hd' hn'
    · rw [he]
      exact ((Charged.fetchSub hv hpos (hn c List.mem_cons_self)).trans (ih hd' hn')).congr
        fun id => (bidsOn_cons id c _).symm

theorem paceImp_kept (hd : Distinct cs) {b : AdCandidate} (hb : b ∈ (paceImp p cs).1) :
    p.counters b.campaignId ≠ none := by
  induction cs generalizing p with
  | nil => cases hb
  | cons c cs ih =>
    have hd' : Distinct cs := (List.nodup_cons.1 hd).2
    rcases paceImp_cons p hd with ⟨-, he⟩ | ⟨v, hv, -, he⟩
    · rw [he] at hb
      exact ih hd' hb
    · rw [he] at hb
      rcases List.mem_cons.1 hb with rfl | hb
      · rw [hv]
        exact Option.some_ne_none v
      · have hne : b.campaignId ≠ c.campaignId := fun h =>
          (List.nodup_cons.1 hd).1 (List.mem_map.2 ⟨b, (paceImp_sublist _ cs).subset hb, h⟩)
        have := ih hd' hb
        rwa [LocalBudgetPacer.fetchSub_counters_ne p _ hne] at this

/-- A candidate whose campaign has budget left is kept. -/
theorem mem_paceImp (hd : Distinct cs) {b : AdCandidate} (hb : b ∈ cs) {v : Int64}
    (hv : p.counters b.campaignId = some v) (hpos : ¬ v ≤ 0) : b ∈ (paceImp p cs).1 := by
  induction cs generalizing p with
  | nil => cases hb
  | cons c cs ih =>
    have hd' : Distinct cs := (List.nodup_cons.1 hd).2
    rcases paceImp_cons p hd with ⟨hle, he⟩ | ⟨-, -, -, he⟩
    · rw [he]
      rcases List.mem_cons.1 hb with rfl | hb
      · exact absurd (hle v hv) hpos
      · exact ih hd' hb hv
    · rw [he]
      rcases List.mem_cons.1 hb with rfl | hb
      · exact List.mem_cons_self
      · have hne : b.campaignId ≠ c.campaignId := fun h =>
          (List.nodup_cons.1 hd).1 (List.mem_map.2 ⟨b, hb, h⟩)
        refine List.mem_cons_of_mem _ (ih hd' hb ?_)
        rwa [LocalBudgetPacer.fetchSub_counters_ne p _ hne]

/-- An impression left without candidates was not charged: every campaign was exhausted. -/
theorem paceImp_eq_nil (hd : Distinct cs) (h : (paceImp p cs).1 = []) :
    (paceImp p cs).2 = p ∧ ∀ c ∈ cs, ∀ v, p.counters c.campaignId = some v → v ≤ 0 := by
  induction cs generalizing p with
  | nil => exact ⟨rfl, by simp⟩
  | cons c cs ih =>
    rcases paceImp_cons p hd with ⟨hv, he⟩ | ⟨v, -, -, he⟩
    · rw [he] at h ⊢
      obtain ⟨hp, hall⟩ := ih (List.nodup_cons.1 hd).2 h
      exact ⟨hp, List.forall_mem_cons.2 ⟨hv, hall⟩⟩
    · rw [he] at h
      cases h

/-- Where only zero bids meet a budget, nothing is charged and only zero bids are kept. -/
theorem paceImp_quiet (hd : Distinct cs)
    (h : ∀ c ∈ cs, c.bidPriceCents = 0 ∨ ∀ v, p.counters c.campaignId = some v → v ≤ 0) :
    (paceImp p cs).2 = p ∧ ∀ c ∈ (paceImp p cs).1, c.bidPriceCents = 0 := by
  induction cs with
  | nil => exact ⟨rfl, by simp [paceImp]⟩
  | cons c cs ih =>
    obtain ⟨hc, hcs⟩ := List.forall_mem_cons.1 h
    have ih := ih (List.nodup_cons.1 hd).2 hcs
    rcases paceImp_cons p hd with ⟨-, he⟩ | ⟨v, hv, hpos, he⟩
    · rw [he]
      exact ih
    · have hz : c.bidPriceCents = 0 := hc.resolve_right fun hle => hpos (hle v hv)
      have hp : p.fetchSub c.campaignId c.bidPriceCents.toInt64 = p := by
        rw [hz]
        exact p.fetchSub_zero c.campaignId
      rw [he, hp]
      exact ⟨ih.1, List.forall_mem_cons.2 ⟨hz, ih.2⟩⟩

variable {css : List (List AdCandidate)}

/-- A property of candidates that pacing starts with holds of those it keeps. -/
theorem paceAll_forall {P : List AdCandidate → Prop} (hP : ∀ l l', l'.Sublist l → P l → P l')
    (h : ∀ cs ∈ css, P cs) : ∀ cs ∈ (paceAll p css).1, P cs := by
  induction css generalizing p with
  | nil => simp [paceAll]
  | cons cs css ih =>
    obtain ⟨hcs, hcss⟩ := List.forall_mem_cons.1 h
    exact List.forall_mem_cons.2 ⟨hP _ _ (paceImp_sublist p cs) hcs, ih hcss⟩

theorem paceAll_charged (hd : ∀ cs ∈ css, Distinct cs) (hn : ∀ cs ∈ css, NonnegBids cs) :
    Charged p (paceAll p css).2 fun id => bidsOnAll id (paceAll p css).1 := by
  induction css generalizing p with
  | nil => exact Charged.refl p
  | cons cs css ih =>
    obtain ⟨hdcs, hdcss⟩ := List.forall_mem_cons.1 hd
    obtain ⟨hncs, hncss⟩ := List.forall_mem_cons.1 hn
    exact ((paceImp_charged hdcs hncs).trans (ih hdcss hncss)).congr fun id => by
      simp [paceAll, bidsOnAll]

theorem bidsOnAll_nonneg (hn : ∀ cs ∈ css, NonnegBids cs) (id : CampaignId) :
    0 ≤ bidsOnAll id css := by
  apply List.sum_nonneg
  intro x hx
  obtain ⟨cs, hcs, rfl⟩ := List.mem_map.1 hx
  exact bidsOn_nonneg (hn cs hcs) id

/-- A positive bid for a campaign with budget left gets that campaign charged, by this
reservation or by an earlier one that left it exhausted. -/
theorem paceAll_reserves (hd : ∀ cs ∈ css, Distinct cs) (hn : ∀ cs ∈ css, NonnegBids cs)
    (hcs : cs ∈ css) (hc : c ∈ cs) (hb : 0 < c.bidPriceCents.toInt) {v : Int64}
    (hv : p.counters c.campaignId = some v) (hpos : ¬ v ≤ 0) :
    0 < bidsOnAll c.campaignId (paceAll p css).1 := by
  induction css generalizing p with
  | nil => cases hcs
  | cons l css ih =>
    obtain ⟨hdl, hdcss⟩ := List.forall_mem_cons.1 hd
    obtain ⟨hnl, hncss⟩ := List.forall_mem_cons.1 hn
    have hkept : NonnegBids (paceImp p l).1 :=
      fun a ha => hnl a ((paceImp_sublist p l).subset ha)
    have hl := bidsOn_nonneg hkept c.campaignId
    have hrest := bidsOnAll_nonneg (paceAll_forall (p := (paceImp p l).2)
      (fun l l' hs h a ha => h a (hs.subset ha)) hncss) c.campaignId
    have hsum : bidsOnAll c.campaignId (paceAll p (l :: css)).1 =
        bidsOn c.campaignId (paceImp p l).1 +
          bidsOnAll c.campaignId (paceAll (paceImp p l).2 css).1 := List.sum_cons
    rcases List.mem_cons.1 hcs with rfl | hcs
    · have := le_bidsOn hkept (mem_paceImp hdl hc hv hpos)
      omega
    · rcases hl.lt_or_eq with hlt | heq
      · omega
      · have := ih hdcss hncss hcs
          (((paceImp_charged hdl hnl).eq_of_zero heq.symm).trans hv)
        omega

theorem paceAll_kept (hd : ∀ cs ∈ css, Distinct cs) (hn : ∀ cs ∈ css, NonnegBids cs)
    (hcs : cs ∈ (paceAll p css).1) (hc : c ∈ cs) : p.counters c.campaignId ≠ none := by
  induction css generalizing p with
  | nil => cases hcs
  | cons l css ih =>
    obtain ⟨hdl, hdcss⟩ := List.forall_mem_cons.1 hd
    obtain ⟨hnl, hncss⟩ := List.forall_mem_cons.1 hn
    rcases List.mem_cons.1 hcs with rfl | hcs
    · exact paceImp_kept hdl hc
    · intro hnone
      exact ih hdcss hncss hcs (((paceImp_charged hdl hnl).eq_none_iff _).2 hnone)

theorem paceAll_eq_nil (hd : ∀ cs ∈ css, Distinct cs) (h : ∀ cs ∈ (paceAll p css).1, cs = []) :
    (paceAll p css).2 = p ∧
      ∀ cs ∈ css, ∀ c ∈ cs, ∀ v, p.counters c.campaignId = some v → v ≤ 0 := by
  induction css generalizing p with
  | nil => exact ⟨rfl, by simp⟩
  | cons cs css ih =>
    obtain ⟨hdcs, hdcss⟩ := List.forall_mem_cons.1 hd
    obtain ⟨hcs, hcss⟩ := List.forall_mem_cons.1 h
    obtain ⟨hp, hle⟩ := paceImp_eq_nil hdcs hcs
    rw [hp] at hcss
    obtain ⟨hp', hle'⟩ := ih hdcss hcss
    refine ⟨?_, List.forall_mem_cons.2 ⟨hle, hle'⟩⟩
    rw [paceAll, hp]
    exact hp'

theorem paceAll_quiet (hd : ∀ cs ∈ css, Distinct cs)
    (h : ∀ cs ∈ css, ∀ c ∈ cs,
      c.bidPriceCents = 0 ∨ ∀ v, p.counters c.campaignId = some v → v ≤ 0) :
    (paceAll p css).2 = p ∧ ∀ cs ∈ (paceAll p css).1, ∀ c ∈ cs, c.bidPriceCents = 0 := by
  induction css with
  | nil => exact ⟨rfl, by simp [paceAll]⟩
  | cons cs css ih =>
    obtain ⟨hdcs, hdcss⟩ := List.forall_mem_cons.1 hd
    obtain ⟨hcs, hcss⟩ := List.forall_mem_cons.1 h
    obtain ⟨hp, hz⟩ := paceImp_quiet hdcs hcs
    obtain ⟨hp', hz'⟩ := ih hdcss hcss
    simp only [paceAll, hp]
    exact ⟨hp', List.forall_mem_cons.2 ⟨hz, hz'⟩⟩

end Pacing

section Ranking

variable {p : LocalBudgetPacer} {cs : List AdCandidate} {css : List (List AdCandidate)}

theorem maxBy_eq_none {cmp : AdCandidate → AdCandidate → Ordering} :
    maxBy cmp cs = none ↔ cs = [] := by
  cases cs <;> simp [maxBy]

theorem foldl_max_mem (cmp : AdCandidate → AdCandidate → Ordering) (c : AdCandidate)
    (cs : List AdCandidate) :
    cs.foldl (fun best c => if cmp best c = .gt then best else c) c ∈ c :: cs := by
  induction cs generalizing c with
  | nil => exact List.mem_cons_self
  | cons b cs ih =>
    rw [List.foldl_cons]
    split_ifs
    · rcases List.mem_cons.1 (ih c) with h | h
      · rw [h]
        exact List.mem_cons_self
      · exact List.mem_cons_of_mem _ (List.mem_cons_of_mem _ h)
    · exact List.mem_cons_of_mem _ (ih b)

theorem maxBy_mem {cmp : AdCandidate → AdCandidate → Ordering} {w : AdCandidate}
    (h : maxBy cmp cs = some w) : w ∈ cs := by
  cases cs with
  | nil => cases h
  | cons c cs =>
    obtain rfl := Option.some.inj h
    exact foldl_max_mem cmp c cs

/-- The cents of the list's candidates for `id`, if that campaign wins the impression. -/
def wonOn (id : CampaignId) (cs : List AdCandidate) : ℤ :=
  match maxBy rankCmp cs with
  | none => 0
  | some w => if w.campaignId = id then bidsOn id cs else 0

theorem wonOn_of_max {w : AdCandidate} (h : maxBy rankCmp cs = some w) (id : CampaignId) :
    wonOn id cs = if w.campaignId = id then bidsOn id cs else 0 := by
  simp only [wonOn, h]

theorem wonOn_nonneg (hn : NonnegBids cs) (id : CampaignId) : 0 ≤ wonOn id cs := by
  have := bidsOn_nonneg hn id
  unfold wonOn
  split
  · exact le_rfl
  · split_ifs <;> omega

theorem wonOn_le (hn : NonnegBids cs) (id : CampaignId) : wonOn id cs ≤ bidsOn id cs := by
  have := bidsOn_nonneg hn id
  unfold wonOn
  split
  · exact this
  · split_ifs <;> omega

/-- The counters have room for giving `a` back. -/
def Room (p : LocalBudgetPacer) (a : CampaignId → ℤ) : Prop :=
  ∀ id v, p.counters id = some v → v.toInt + a id < 2 ^ 63

theorem Room.of_charged {p' : LocalBudgetPacer} {a b : CampaignId → ℤ}
    (h : Charged p p' fun id => - a id) (hr : Room p fun id => a id + b id) : Room p' b := by
  intro id v' hv'
  have := h id
  obtain ⟨v, hv, he⟩ : ∃ v, p.counters id = some v ∧ v.toInt + a id = v'.toInt := by
    simpa [hv'] using this.symm
  have : v.toInt + (a id + b id) < 2 ^ 63 := hr id v hv
  omega

theorem Room.mono {a b : CampaignId → ℤ} (hr : Room p a) (h : ∀ id, b id ≤ a id) : Room p b := by
  intro id v hv
  have := hr id v hv
  have := h id
  omega

theorem releases_charged (hn : NonnegBids cs) (hr : Room p fun id => bidsOn id cs) :
    Charged p (cs.foldl (fun p c => p.release c.campaignId c.bidPriceCents) p)
      fun id => - bidsOn id cs := by
  induction cs generalizing p with
  | nil => exact Charged.refl p
  | cons c cs ih =>
    have hn' : NonnegBids cs := fun a ha => hn a (List.mem_cons_of_mem _ ha)
    have hb := hn c List.mem_cons_self
    simp only [bidsOn_cons] at hr
    have hfit : ∀ v, p.counters c.campaignId = some v → v.toInt + c.bidPriceCents.toInt < 2 ^ 63 := by
      intro v hv
      have := hr _ v hv
      have := bidsOn_nonneg hn' c.campaignId
      simp only [if_true] at *
      omega
    have hc := Charged.release hb hfit
    rw [List.foldl_cons]
    exact (hc.trans (ih hn' (Room.of_charged hc hr))).congr fun id => by
      rw [bidsOn_cons]
      ring

theorem bidsOn_of_mem (hd : Distinct cs) {w : AdCandidate} (hw : w ∈ cs) :
    bidsOn w.campaignId cs = w.bidPriceCents.toInt := by
  induction cs with
  | nil => cases hw
  | cons c cs ih =>
    obtain ⟨hc, hd'⟩ := List.nodup_cons.1 hd
    rw [bidsOn_cons]
    rcases List.mem_cons.1 hw with rfl | hw
    · have hz : bidsOn w.campaignId cs = 0 := by
        apply List.sum_eq_zero
        intro x hx
        obtain ⟨a, ha, rfl⟩ := List.mem_map.1 hx
        exact if_neg fun h => hc (List.mem_map.2 ⟨a, ha, h⟩)
      simp [hz]
    · have hne : c.campaignId ≠ w.campaignId := fun h => hc (List.mem_map.2 ⟨w, hw, h.symm⟩)
      rw [if_neg hne, zero_add]
      exact ih hd' hw

theorem bidsOn_losers (w : AdCandidate) (id : CampaignId) :
    bidsOn id (cs.filter (·.campaignId ≠ w.campaignId)) =
      bidsOn id cs - if w.campaignId = id then bidsOn id cs else 0 := by
  induction cs with
  | nil => simp
  | cons c cs ih =>
    by_cases hc : c.campaignId = w.campaignId
    · rw [List.filter_cons_of_neg (by simp [hc]), ih, bidsOn_cons, hc]
      split_ifs <;> ring
    · rw [List.filter_cons_of_pos (by simp [hc]), bidsOn_cons, ih, bidsOn_cons]
      by_cases hw : w.campaignId = id
      · simp [hw, show c.campaignId ≠ id from hw ▸ hc]
      · simp [hw]

theorem releaseLosers_charged {w : AdCandidate} (hw : maxBy rankCmp cs = some w)
    (hn : NonnegBids cs) (hr : Room p fun id => bidsOn id cs - wonOn id cs) :
    Charged p (releaseLosers p w cs) fun id => - (bidsOn id cs - wonOn id cs) := by
  have he : ∀ id, bidsOn id (cs.filter (·.campaignId ≠ w.campaignId)) =
      bidsOn id cs - wonOn id cs := fun id => by rw [bidsOn_losers, wonOn_of_max hw]
  refine (releases_charged (fun c hc => hn c (List.mem_filter.1 hc).1) ?_).congr
    fun id => by rw [he]
  exact hr.mono fun id => (he id).le

/-- The cents of `id` on all the impressions it wins. -/
def wonOnAll (id : CampaignId) (css : List (List AdCandidate)) : ℤ := (css.map (wonOn id)).sum

theorem rankAll_charged (imps : List Imp) (i : ℕ) (hn : ∀ cs ∈ css, NonnegBids cs)
    (hr : Room p fun id => bidsOnAll id css - wonOnAll id css) :
    Charged p (rankAll imps i p css).2 fun id => - (bidsOnAll id css - wonOnAll id css) := by
  induction css generalizing p i with
  | nil => exact Charged.refl p
  | cons cs css ih =>
    obtain ⟨hncs, hncss⟩ := List.forall_mem_cons.1 hn
    have hsplit : ∀ id, bidsOnAll id (cs :: css) - wonOnAll id (cs :: css) =
        (bidsOn id cs - wonOn id cs) + (bidsOnAll id css - wonOnAll id css) := fun id => by
      simp only [bidsOnAll, wonOnAll, List.map_cons, List.sum_cons]
      ring
    simp only [hsplit] at hr ⊢
    cases hw : maxBy rankCmp cs with
    | none =>
      obtain rfl := maxBy_eq_none.1 hw
      simp only [rankAll, hw]
      have hz : ∀ id, bidsOn id [] - wonOn id [] = 0 := fun id => rfl
      simp only [hz, zero_add] at hr ⊢
      exact ih (i + 1) hncss hr
    | some w =>
      simp only [rankAll, hw]
      have hrest : ∀ id, 0 ≤ bidsOnAll id css - wonOnAll id css := fun id => by
        rw [sub_nonneg]
        exact List.sum_le_sum fun l hl => wonOn_le (hncss l hl) id
      have hc := releaseLosers_charged hw hncs (hr.mono fun id => by
        have := hrest id
        omega)
      exact (hc.trans (ih (i + 1) hncss (Room.of_charged hc hr))).congr fun id => by ring

/-- Some impression has a candidate exactly when there is a winner. -/
theorem rankAll_winners (imps : List Imp) (i : ℕ) :
    (rankAll imps i p css).1 = [] ↔ ∀ cs ∈ css, cs = [] := by
  induction css generalizing p i with
  | nil => simp [rankAll]
  | cons cs css ih =>
    rw [List.forall_mem_cons]
    cases hw : maxBy rankCmp cs with
    | none =>
      obtain rfl := maxBy_eq_none.1 hw
      simp only [rankAll, hw, ih, true_and]
    | some w =>
      have hne : cs ≠ [] := by
        rintro rfl
        cases hw
      simp [rankAll, hw, hne]

end Ranking

/-- The winners are the top candidates of the lists. -/
theorem mem_rankAll_winners {p : LocalBudgetPacer} {css : List (List AdCandidate)}
    (imps : List Imp) (i : ℕ) (id : CampaignId) (cents : Int32) :
    (∃ x ∈ (rankAll imps i p css).1, x.campaignId = id ∧ x.bidPriceCents = cents) ↔
      ∃ cs ∈ css, ∃ w, maxBy rankCmp cs = some w ∧ w.campaignId = id ∧ w.bidPriceCents = cents := by
  induction css generalizing p i with
  | nil => simp [rankAll]
  | cons cs css ih =>
    rw [List.exists_mem_cons_iff]
    cases hw : maxBy rankCmp cs with
    | none =>
      simp only [rankAll, hw, ih]
      simp
    | some w =>
      simp only [rankAll, hw, List.exists_mem_cons_iff, ih, Option.some.injEq]
      apply or_congr_left
      exact ⟨fun h => ⟨w, rfl, h⟩, fun ⟨_, hw', h⟩ => hw' ▸ h⟩

/-- Pacing followed by ranking charges each campaign what it bid on the impressions it won. -/
theorem pace_rank_charged {p : LocalBudgetPacer} {css : List (List AdCandidate)} (imps : List Imp)
    (hd : ∀ cs ∈ css, Distinct cs) (hn : ∀ cs ∈ css, NonnegBids cs) :
    Charged p (rankAll imps 0 (paceAll p css).2 (paceAll p css).1).2
      fun id => wonOnAll id (paceAll p css).1 := by
  have hn' : ∀ cs ∈ (paceAll p css).1, NonnegBids cs :=
    paceAll_forall (fun l l' hs h c hc => h c (hs.subset hc)) hn
  have hc := paceAll_charged (p := p) hd hn
  have hroom : Room (paceAll p css).2
      fun id => bidsOnAll id (paceAll p css).1 - wonOnAll id (paceAll p css).1 := by
    intro id v' hv'
    have := hc id
    obtain ⟨v, -, he⟩ : ∃ v, p.counters id = some v ∧
        v.toInt - bidsOnAll id (paceAll p css).1 = v'.toInt := by
      simpa [hv'] using this.symm
    have := v.toInt_lt
    have hwon : 0 ≤ wonOnAll id (paceAll p css).1 := by
      apply List.sum_nonneg
      intro x hx
      obtain ⟨cs, hcs, rfl⟩ := List.mem_map.1 hx
      exact wonOn_nonneg (hn' cs hcs) id
    show v'.toInt + (bidsOnAll id (paceAll p css).1 - wonOnAll id (paceAll p css).1) < 2 ^ 63
    omega
  exact (hc.trans (rankAll_charged imps 0 hn' hroom)).congr fun id => by ring

end RTB
