import RtbBidder.Spec.Pacing

/-! The budget cap over whole runs of the pacer. Reserving and releasing keep
the counter at the budget less what is out. `reload` stores the delivered budget
over the counter, so the cap holds in a run whose reloads find nothing out. -/

namespace RTB

namespace PacerRun

/-- The cents reserved for `c` and not given back. -/
def liveSum (c : CampaignId) (live : List (CampaignId × Int32)) : ℤ :=
  ((live.filter (·.1 = c)).map (·.2.toInt)).sum

theorem liveSum_cons (c : CampaignId) (r : CampaignId × Int32) (live : List (CampaignId × Int32)) :
    liveSum c (r :: live) = (if r.1 = c then r.2.toInt else 0) + liveSum c live := by
  by_cases h : r.1 = c <;> simp [liveSum, h]

theorem liveSum_erase {c : CampaignId} {r : CampaignId × Int32} {live : List (CampaignId × Int32)}
    (h : r ∈ live) :
    liveSum c live = (if r.1 = c then r.2.toInt else 0) + liveSum c (live.erase r) := by
  rw [← liveSum_cons]
  exact (((List.perm_cons_erase h).filter _).map _).sum_eq

theorem liveSum_nonneg {c : CampaignId} {live : List (CampaignId × Int32)}
    (h : ∀ b, (c, b) ∈ live → 0 ≤ b.toInt) : 0 ≤ liveSum c live := by
  refine List.sum_nonneg fun x hx => ?_
  obtain ⟨⟨id, b⟩, hm, rfl⟩ := List.mem_map.1 hx
  obtain ⟨hm, hid⟩ := List.mem_filter.1 hm
  exact h b (by simpa [← of_decide_eq_true hid] using hm)

/-- What is out for `c` is what its counter is short of `B`, and stays below
`B` plus a bid of at most `M`. -/
structure Accounted (c : CampaignId) (B : Int64) (M : ℤ) (s : PacerRun) : Prop where
  net : s.granted c - s.released c = liveSum c s.live
  nonneg : ∀ b, (c, b) ∈ s.live → 0 ≤ b.toInt
  unseeded : s.pacer.counters c = none → liveSum c s.live = 0
  counter : ∀ v, s.pacer.counters c = some v → v.toInt = B.toInt - liveSum c s.live
  bound : liveSum c s.live < B.toInt + M

/-- Bids for `c` lie between `0` and `M`, and reloads deliver `B` for it. -/
def Priced (c : CampaignId) (B : Int64) (M : ℤ) : PacerEvent → Prop
  | .checkAndReserve id bid => id = c → 0 ≤ bid.toInt ∧ bid.toInt ≤ M
  | .release _ _ => True
  | .reload budgets => ∀ b, (c, b) ∈ budgets → b = B

/-- A reload finds no counter for `c`, or finds it at the budget it delivers. -/
def ReloadsUnspent (c : CampaignId) (s : PacerRun) : PacerEvent → Prop
  | .reload budgets => ∀ b ∈ budgets, b.1 = c →
      s.pacer.counters c = none ∨ s.pacer.counters c = some b.2
  | _ => True

-- over the list of budgets, not over all values of its finite type
instance (c : CampaignId) (s : PacerRun) : (e : PacerEvent) → Decidable (s.ReloadsUnspent c e)
  | .reload budgets => List.decidableBAll (fun b : CampaignId × Int64 => b.1 = c →
      s.pacer.counters c = none ∨ s.pacer.counters c = some b.2) budgets
  | .checkAndReserve _ _ | .release _ _ => .isTrue trivial

variable {c : CampaignId} {B : Int64} {M : ℤ} {s s' : PacerRun}

theorem Accounted.checkAndReserve {id : CampaignId} {bid : Int32} (h : Accounted c B M s)
    (hp : Priced c B M (.checkAndReserve id bid)) (hs : s.step (.checkAndReserve id bid) = some s') :
    Accounted c B M s' := by
  by_cases hv : ∀ v, s.pacer.counters id = some v → v ≤ 0
  · simp only [step, LocalBudgetPacer.checkAndReserve_exhausted bid hv] at hs
    obtain rfl := by simpa using hs
    exact ⟨h.net, h.nonneg, h.unseeded, h.counter, h.bound⟩
  push Not at hv
  obtain ⟨v, hv, hpos⟩ := hv
  simp only [step, LocalBudgetPacer.checkAndReserve_hasBudget bid hv hpos] at hs
  obtain rfl := by simpa using hs
  by_cases hid : id = c
  · subst hid
    obtain ⟨hb, hM⟩ := hp rfl
    have hlive : liveSum id ((id, bid) :: s.live) = bid.toInt + liveSum id s.live := by
      simp [liveSum_cons]
    have hc := h.counter v hv
    have hvpos : 0 < v.toInt := by
      rw [Int64.le_iff_toInt_le, Int64.toInt_zero] at hpos
      omega
    refine ⟨?_, ?_, ?_, ?_, ?_⟩
    · have := h.net
      simp only [Function.update_self, hlive]
      omega
    · intro b hm
      rcases List.mem_cons.1 hm with hm | hm
      · obtain rfl := by simpa using hm
        exact hb
      · exact h.nonneg b hm
    · simp [hv]
    · intro w hw
      obtain rfl : v - bid.toInt64 = w := by simpa [hv] using hw
      rw [toInt_sub_bid hpos hb, hlive]
      omega
    · -- the grant needed a positive counter, so less than `B` was out before it
      simp only [hlive]
      omega
  · have hlive : liveSum c ((id, bid) :: s.live) = liveSum c s.live := by simp [liveSum_cons, hid]
    have hcount : (s.pacer.fetchSub id bid.toInt64).counters c = s.pacer.counters c :=
      LocalBudgetPacer.fetchSub_counters_ne _ _ (Ne.symm hid)
    refine ⟨?_, ?_, ?_, ?_, ?_⟩
    · simp only [Function.update_of_ne (Ne.symm hid), hlive, h.net]
    · intro b hm
      rcases List.mem_cons.1 hm with hm | hm
      · exact absurd (by simpa using congrArg Prod.fst hm.symm) hid
      · exact h.nonneg b hm
    · simp only [hcount, hlive]; exact h.unseeded
    · simp only [hcount, hlive]; exact h.counter
    · simp only [hlive]; exact h.bound

theorem Accounted.release {id : CampaignId} {bid : Int32} (h : Accounted c B M s)
    (hs : s.step (.release id bid) = some s') : Accounted c B M s' := by
  simp only [step] at hs
  split_ifs at hs with hm
  obtain rfl := by simpa using hs
  have hlive := liveSum_erase (c := c) hm
  have hnonneg : ∀ b, (c, b) ∈ s.live.erase (id, bid) → 0 ≤ b.toInt :=
    fun b hb => h.nonneg b (List.mem_of_mem_erase hb)
  have hleft := liveSum_nonneg hnonneg
  by_cases hid : id = c
  · subst hid
    have hb := h.nonneg bid hm
    simp only [if_true] at hlive
    refine ⟨?_, hnonneg, ?_, ?_, ?_⟩
    · have := h.net
      simp only [Function.update_self]
      omega
    · intro hn
      have := h.unseeded (by simpa [LocalBudgetPacer.release] using hn)
      show liveSum id (s.live.erase (id, bid)) = 0
      omega
    · intro w hw
      obtain ⟨v, hv, rfl⟩ := by simpa [LocalBudgetPacer.release] using hw
      have hc := h.counter v hv
      have hB := B.toInt_lt
      rw [toInt_add_bid hb (by omega)]
      show _ = B.toInt - liveSum id (s.live.erase (id, bid))
      omega
    · have := h.bound
      show liveSum id (s.live.erase (id, bid)) < _
      omega
  · simp only [if_neg hid, zero_add] at hlive
    have hcount : (s.pacer.release id bid).counters c = s.pacer.counters c :=
      LocalBudgetPacer.fetchAdd_counters_ne _ _ (Ne.symm hid)
    refine ⟨?_, hnonneg, ?_, ?_, ?_⟩
    · simp only [Function.update_of_ne (Ne.symm hid), ← hlive, h.net]
    · simp only [hcount, ← hlive]; exact h.unseeded
    · simp only [hcount, ← hlive]; exact h.counter
    · simp only [← hlive]; exact h.bound

theorem Accounted.reload {budgets : List (CampaignId × Int64)} (h : Accounted c B M s)
    (hp : Priced c B M (.reload budgets)) (hok : s.ReloadsUnspent c (.reload budgets))
    (hs : s.step (.reload budgets) = some s') : Accounted c B M s' := by
  obtain rfl := by simpa [step] using hs
  have hcount := s.pacer.reload_counters budgets hp
  by_cases hmem : c ∈ budgets.map Prod.fst
  · rw [if_pos hmem] at hcount
    obtain ⟨⟨id, b⟩, hb, hid⟩ := List.mem_map.1 hmem
    obtain rfl : id = c := hid
    have hzero : liveSum id s.live = 0 := by
      rcases hok _ hb rfl with hv | hv
      · exact h.unseeded hv
      · have hc := h.counter b hv
        rw [hp b hb] at hc
        omega
    refine ⟨h.net, h.nonneg, fun _ => hzero, fun v hv => ?_, h.bound⟩
    obtain rfl : B = v := by simpa [hcount] using hv
    simp only [hzero, sub_zero]
  · rw [if_neg hmem] at hcount
    exact ⟨h.net, h.nonneg, by simpa only [hcount] using h.unseeded,
      by simpa only [hcount] using h.counter, h.bound⟩

/-- The accounting holds along every run of priced calls whose reloads find
nothing out. -/
theorem accounted_run (hpos : 0 < B.toInt + M) {evs : List PacerEvent}
    (h : Lib.Run (· = init) (Lib.Guarded (ReloadsUnspent c) (Lib.Steps step)) evs s)
    (hevs : ∀ e ∈ evs, Priced c B M e) : Accounted c B M s := by
  revert hevs
  refine h.inv_trace (I := fun evs s => (∀ e ∈ evs, Priced c B M e) → Accounted c B M s) ?_ ?_
  · rintro s rfl -
    exact ⟨rfl, by simp [init], fun _ => rfl, by simp [init, LocalBudgetPacer.new],
      by simpa [init, liveSum] using hpos⟩
  · intro evs s e s' ih hs hevs
    have hacc := ih fun e he => hevs e (List.mem_append_left _ he)
    have hp := hevs e (by simp)
    obtain ⟨hok, hs⟩ := hs
    cases e with
    | checkAndReserve id bid => exact hacc.checkAndReserve hp hs
    | release id bid => exact hacc.release hs
    | reload budgets => exact hacc.reload hp hok hs

/-- The bids made for `c`. -/
def bidsFor (c : CampaignId) (evs : List PacerEvent) : List ℤ :=
  evs.filterMap fun
    | .checkAndReserve id bid => if id = c then some bid.toInt else none
    | _ => none

/-- The largest single bid made for `c`, `0` if none was. -/
def largestBid (c : CampaignId) (evs : List PacerEvent) : ℤ := (bidsFor c evs).foldr max 0

theorem le_largestBid {evs : List PacerEvent} {bid : Int32}
    (h : .checkAndReserve c bid ∈ evs) : bid.toInt ≤ largestBid c evs := by
  have hm : bid.toInt ∈ bidsFor c evs := List.mem_filterMap.2 ⟨_, h, by simp⟩
  unfold largestBid
  generalize bidsFor c evs = bids at hm
  induction bids with
  | nil => simp at hm
  | cons x xs ih =>
    rcases List.mem_cons.1 hm with hm | hm
    · rw [hm]; exact le_max_left _ _
    · exact (ih hm).trans (le_max_right _ _)

/-- In a run whose reloads all deliver `B` for `c` and find its counter unspent,
at every moment less than `B` plus the largest single bid is granted and not
released, unless both are `0`. -/
theorem granted_lt_budget_add_largestBid {all evs : List PacerEvent} (hpre : evs <+: all)
    (hbids : ∀ bid, .checkAndReserve c bid ∈ all → 0 ≤ bid.toInt)
    (hseeds : ∀ budgets b, .reload budgets ∈ all → (c, b) ∈ budgets → b = B)
    (hpos : 0 < B.toInt + largestBid c all)
    (h : Lib.Run (· = init) (Lib.Guarded (ReloadsUnspent c) (Lib.Steps step)) evs s) :
    s.granted c - s.released c < B.toInt + largestBid c all := by
  have hacc := accounted_run (c := c) hpos h fun e he => by
    have he := hpre.subset he
    cases e with
    | checkAndReserve id bid =>
      rintro rfl
      exact ⟨hbids bid he, le_largestBid he⟩
    | release id bid => trivial
    | reload budgets => exact fun b hb => hseeds budgets b he hb
  rw [hacc.net]
  exact hacc.bound

/-- A second reload while nothing is out, then a reservation past the budget. -/
theorem granted_lt_after_unspent_reload :
    ∃ evs s, Lib.Run (· = init) (Lib.Guarded (ReloadsUnspent 1) (Lib.Steps step)) evs s ∧
      s.granted 1 - s.released 1 = 120 ∧
      s.granted 1 - s.released 1 < (100 : Int64).toInt + largestBid 1 evs := by
  let evs : List PacerEvent := [.reload [(1, 100)], .checkAndReserve 1 60, .release 1 60,
    .reload [(1, 100)], .checkAndReserve 1 60, .checkAndReserve 1 60]
  obtain ⟨s, hrun, hout⟩ := Lib.run_of_exec_any
    (P := fun s : PacerRun => s.granted 1 - s.released 1 = 120)
    (show (Lib.exec (fun s e => if ReloadsUnspent 1 s e then step s e else none) init evs).any _ = true
      by decide +kernel)
  refine ⟨evs, s, hrun.guarded_of_check, hout,
    granted_lt_budget_add_largestBid (List.prefix_refl _) ?_ ?_ ?_ hrun.guarded_of_check⟩
  · intro bid hb
    obtain rfl : bid = 60 := by simpa [evs] using hb
    decide
  · intro budgets b hr hb
    obtain rfl : budgets = [(1, 100)] := by simpa [evs] using hr
    simpa using hb
  · decide

/-- With one budget of 100 delivered at every refresh, three refreshes let three
bids of 100 through. -/
theorem reload_regrants_budget :
    ∃ evs s, Lib.Run (· = init) (Lib.Steps step) evs s ∧
      (∀ bid, .checkAndReserve 1 bid ∈ evs → 0 ≤ bid.toInt) ∧
      (∀ budgets b, .reload budgets ∈ evs → (1, b) ∈ budgets → b = 100) ∧
      s.granted 1 - s.released 1 = 300 ∧
      ¬ s.granted 1 - s.released 1 < (100 : Int64).toInt + largestBid 1 evs := by
  let evs : List PacerEvent := [.reload [(1, 100)], .checkAndReserve 1 100, .reload [(1, 100)],
    .checkAndReserve 1 100, .reload [(1, 100)], .checkAndReserve 1 100]
  obtain ⟨s, hrun, hout⟩ := Lib.run_of_exec_any
    (P := fun s : PacerRun => s.granted 1 - s.released 1 = 300 ∧
      ¬ s.granted 1 - s.released 1 < (100 : Int64).toInt + largestBid 1 evs)
    (show (Lib.exec step init evs).any _ = true by decide +kernel)
  refine ⟨evs, s, hrun, ?_, ?_, hout⟩
  · intro bid hb
    obtain rfl : bid = 100 := by simpa [evs] using hb
    decide
  · intro budgets b hr hb
    obtain rfl : budgets = [(1, 100)] := by simpa [evs] using hr
    simpa using hb

end PacerRun

end RTB
