import RtbBidder.Proofs.PacingLedger
import RtbBidder.Spec.PacerSteps

/-! What one request's auction leaves in the counters while other requests reserve
and release in between: exactly the bids that it won. A refused reservation takes
and gives back, a losing one is released, whatever the other requests did to the
answers. -/

namespace RTB

open Lib (Prog Turn Config)

/-- What an operation adds to the counters, given its answer. -/
def PacerOp.delta : PacerOp → Option Int64 → CampaignId → ℤ
  | .fetchSub _ _, none => 0
  | .fetchSub id x, some _ => fun c => if id = c then -x.toInt else 0
  | .fetchAdd id x, _ => fun c => if id = c then x.toInt else 0

/-- The cents that the winners bid for `id`. -/
def wonSum (id : CampaignId) (ws : List ImpWinner) : ℤ :=
  (ws.map fun x => if x.campaignId = id then x.bidPriceCents.toInt else 0).sum

theorem wonSum_of_forall_ne {id : CampaignId} {ws : List ImpWinner}
    (h : ∀ x ∈ ws, x.campaignId ≠ id) : wonSum id ws = 0 := by
  apply List.sum_eq_zero
  intro y hy
  obtain ⟨x, hx, rfl⟩ := List.mem_map.1 hy
  exact if_neg (h x hx)

namespace PacerProg

variable {cs : List AdCandidate} {css : List (List AdCandidate)}

/-- A reservation takes the bid if it is granted, and in the end nothing if it is not. -/
theorem checkAndReserve_ensures (id : CampaignId) (bid : Int32) :
    (checkAndReserve id bid).Ensures PacerOp.delta fun decision m =>
      m = fun c => if decision = .HasBudget ∧ id = c then -bid.toInt else 0 := by
  intro prev
  cases prev with
  | none =>
    apply Prog.Ensures.pure
    funext c
    simp [PacerOp.delta]
  | some prev =>
    dsimp only
    split_ifs with hle
    · intro _
      apply Prog.Ensures.pure
      funext c
      by_cases hc : id = c <;> simp [PacerOp.delta, hc]
    · apply Prog.Ensures.pure
      funext c
      by_cases hc : id = c <;> simp [PacerOp.delta, hc]

theorem reserveAll_ensures (hd : Distinct cs) :
    (reserveAll cs).Ensures PacerOp.delta fun exhausted m =>
      exhausted ⊆ cs.map (·.campaignId) ∧
        m = fun id => -bidsOn id (cs.filter (·.campaignId ∉ exhausted)) := by
  induction cs with
  | nil => exact ⟨List.Subset.refl _, by funext id; simp⟩
  | cons c cs ih =>
    obtain ⟨hc, hd'⟩ := List.nodup_cons.1 hd
    apply Prog.Ensures.bind
    refine (checkAndReserve_ensures _ _).mono fun decision m hm => ?_
    apply Prog.Ensures.bind
    refine (ih hd').mono fun exhausted n ⟨hsub, hn⟩ => ?_
    apply Prog.Ensures.pure
    subst hm hn
    cases decision with
    | HasBudget =>
      -- the others are other campaigns, so the grant is not undone by their refusals
      have hkeep : c.campaignId ∉ exhausted := fun h => hc (hsub h)
      refine ⟨fun id hid => List.mem_cons_of_mem _ (hsub hid), ?_⟩
      funext id
      rw [if_neg (by simp), List.filter_cons_of_pos (by simpa using hkeep), bidsOn_cons]
      by_cases hid : c.campaignId = id <;> simp [hid, add_comm]
    | Exhausted =>
      have hfilter : (c :: cs).filter (·.campaignId ∉ c.campaignId :: exhausted) =
          cs.filter (·.campaignId ∉ exhausted) := by
        rw [List.filter_cons_of_neg (by simp)]
        apply List.filter_congr
        intro a ha
        have hne : a.campaignId ≠ c.campaignId := fun h => hc (List.mem_map.2 ⟨a, ha, h⟩)
        simp [hne]
      refine ⟨?_, ?_⟩
      · rw [if_pos rfl]
        exact List.cons_subset_cons _ hsub
      · funext id
        rw [if_pos rfl, hfilter]
        simp

theorem paceAll_ensures (hd : ∀ cs ∈ css, Distinct cs) :
    (paceAll css).Ensures PacerOp.delta fun kept m =>
      (∀ cs ∈ kept, Distinct cs) ∧ m = fun id => -bidsOnAll id kept := by
  induction css with
  | nil => exact ⟨by simp, rfl⟩
  | cons cs css ih =>
    obtain ⟨hcs, hcss⟩ := List.forall_mem_cons.1 hd
    apply Prog.Ensures.bind
    apply Prog.Ensures.bind
    refine (reserveAll_ensures hcs).mono fun exhausted m ⟨_, hm⟩ => ?_
    apply Prog.Ensures.pure
    apply Prog.Ensures.bind
    refine (ih hcss).mono fun rest n ⟨hrest, hn⟩ => ?_
    apply Prog.Ensures.pure
    refine ⟨List.forall_mem_cons.2 ⟨hcs.sublist List.filter_sublist, hrest⟩, ?_⟩
    funext id
    subst hm hn
    simp [bidsOnAll]
    ring

theorem releaseAll_ensures :
    (releaseAll cs).Ensures PacerOp.delta fun _ m => m = fun id => bidsOn id cs := by
  induction cs with
  | nil => rfl
  | cons c cs ih =>
    apply Prog.Ensures.bind
    intro _
    apply Prog.Ensures.pure
    refine ih.mono fun _ n hn => ?_
    subst hn
    funext id
    simp [PacerOp.delta]

/-- Ranking gives back everything but what the winners bid. -/
theorem rankAll_ensures (imps : List Imp) (i : ℕ) (hd : ∀ cs ∈ css, Distinct cs) :
    (rankAll imps i css).Ensures PacerOp.delta fun ws m =>
      m = fun id => bidsOnAll id css - wonSum id ws := by
  induction css generalizing i with
  | nil => rfl
  | cons cs css ih =>
    obtain ⟨hcs, hcss⟩ := List.forall_mem_cons.1 hd
    cases hw : maxBy rankCmp cs with
    | none =>
      obtain rfl := maxBy_eq_none.1 hw
      simp only [rankAll, hw]
      refine (ih (i + 1) hcss).mono fun ws m hm => ?_
      subst hm
      funext id
      simp [bidsOnAll]
    | some w =>
      simp only [rankAll, hw]
      apply Prog.Ensures.bind
      refine releaseAll_ensures.mono fun _ m hm => ?_
      apply Prog.Ensures.bind
      refine (ih (i + 1) hcss).mono fun ws n hn => ?_
      apply Prog.Ensures.pure
      subst hm hn
      funext id
      have hbid : (if w.campaignId = id then bidsOn id cs else 0) =
          if w.campaignId = id then w.bidPriceCents.toInt else 0 := by
        split_ifs with hid
        · rw [← hid, bidsOn_of_mem hcs (maxBy_mem hw)]
        · rfl
      simp only [Pi.add_apply, bidsOn_losers, hbid, bidsOnAll, wonSum, List.map_cons,
        List.sum_cons, winnerOf, Pi.zero_apply]
      ring

/-- The whole auction takes what it won, and nothing else. -/
theorem auction_ensures (imps : List Imp) (hd : ∀ cs ∈ css, Distinct cs) :
    (auction imps css).Ensures PacerOp.delta fun ws m => m = fun id => -wonSum id ws := by
  apply Prog.Ensures.bind
  refine (paceAll_ensures hd).mono fun kept m ⟨hkept, hm⟩ => ?_
  refine (rankAll_ensures imps 0 hkept).mono fun ws n hn => ?_
  subst hm hn
  funext id
  simp only [Pi.add_apply]
  ring

end PacerProg

section Interleaved

/-- An operation of another request. -/
def PacerOp.act (o : PacerOp) (p : LocalBudgetPacer) : LocalBudgetPacer := (o.apply p).2

/-- What the operation does to a counter that exists. -/
def PacerOp.shift (c : CampaignId) : PacerOp → ℤ
  | .fetchSub id x => if id = c then -x.toInt else 0
  | .fetchAdd id x => if id = c then x.toInt else 0

/-- What the turns of the other requests add to the counter of `c`. -/
def othersNet (c : CampaignId) : List (Turn PacerOp) → ℤ
  | [] => 0
  | .own :: ts => othersNet c ts
  | .other o :: ts => o.shift c + othersNet c ts

/-- One request's auction, interleaved with operations of any other requests. -/
abbrev auctionStep : Config LocalBudgetPacer PacerOp (Option Int64) (List ImpWinner) →
    Turn PacerOp → Option (Config LocalBudgetPacer PacerOp (Option Int64) (List ImpWinner)) :=
  Config.step PacerOp.apply PacerOp.act

variable {p : LocalBudgetPacer} {c : CampaignId}

theorem othersNet_snoc (ts : List (Turn PacerOp)) (t : Turn PacerOp) :
    othersNet c (ts ++ [t]) = othersNet c ts + othersNet c [t] := by
  induction ts with
  | nil => simp [othersNet]
  | cons t' ts ih =>
    cases t' with
    | own => exact ih
    | other o =>
      simp only [List.cons_append, othersNet, ih]
      ring

/-- An operation shifts the counter of its campaign, wrapping. -/
theorem PacerOp.apply_counters (o : PacerOp) (p : LocalBudgetPacer) (c : CampaignId) :
    (o.apply p).2.counters c =
      (p.counters c).map fun v => Int64.ofInt (v.toInt + o.shift c) := by
  cases o with
  | fetchSub id x =>
    by_cases hid : id = c
    · subst hid
      simp [apply, shift, ← sub_eq_add_neg, Int64.ofInt_sub]
    · simp [apply, shift, hid, LocalBudgetPacer.fetchSub_counters_ne p x (Ne.symm hid)]
  | fetchAdd id x =>
    by_cases hid : id = c
    · subst hid
      simp [apply, shift, Int64.ofInt_add]
    · simp [apply, shift, hid, LocalBudgetPacer.fetchAdd_counters_ne p x (Ne.symm hid)]

theorem PacerOp.delta_eq_shift (o : PacerOp) {v : Int64} (h : p.counters c = some v) :
    o.delta (o.apply p).1 c = o.shift c := by
  cases o with
  | fetchSub id x =>
    by_cases hid : id = c
    · subst hid
      simp [delta, apply, shift, h]
    · cases hp : p.counters id <;> simp [delta, apply, shift, hp, hid]
  | fetchAdd id x => rfl

/-- The counters are the first ones shifted by the request's own effects so far and by
the other requests' operations. -/
def Balanced (p : LocalBudgetPacer) (ts : List (Turn PacerOp)) (m : CampaignId → ℤ)
    (p' : LocalBudgetPacer) : Prop :=
  ∀ c, p'.counters c = (p.counters c).map fun v => Int64.ofInt (v.toInt + m c + othersNet c ts)

theorem Balanced.apply {ts ts' : List (Turn PacerOp)} {m m' : CampaignId → ℤ}
    {p' : LocalBudgetPacer} (h : Balanced p ts m p') (o : PacerOp)
    (hshift : ∀ c v, p'.counters c = some v →
      m' c + othersNet c ts' = m c + othersNet c ts + o.shift c) :
    Balanced p ts' m' (o.apply p').2 := by
  intro c
  rw [PacerOp.apply_counters]
  cases hp : p.counters c with
  | none => simp [h c, hp]
  | some v =>
    have hv : p'.counters c = some (Int64.ofInt (v.toInt + m c + othersNet c ts)) := by
      simp [h c, hp]
    have hsum := hshift c _ hv
    rw [hv, Option.map_some, Option.map_some, Option.some.injEq, Int64.ofInt_add,
      Int64.ofInt_toInt, ← Int64.ofInt_add]
    congr 1
    linarith

/-- Through any interleaving with the reservations and releases of other requests,
pacing and ranking change each campaign's counter by what it won in this request. -/
theorem auction_charges_won (imps : List Imp) (css : List (List AdCandidate))
    (hd : ∀ cs ∈ css, Distinct cs) (p : LocalBudgetPacer) {ts : List (Turn PacerOp)}
    {s : Config LocalBudgetPacer PacerOp (Option Int64) (List ImpWinner)}
    (hrun : Lib.Run (· = ⟨p, PacerProg.auction imps css⟩) (Lib.Steps auctionStep) ts s)
    {ws : List ImpWinner} (hdone : s.prog.result = some ws) :
    (∀ c, s.state.counters c =
      (p.counters c).map fun v => Int64.ofInt (v.toInt + othersNet c ts - wonSum c ws)) ∧
    (∀ c, (∀ x ∈ ws, x.campaignId ≠ c) → s.state.counters c =
      (p.counters c).map fun v => Int64.ofInt (v.toInt + othersNet c ts)) ∧
    ∀ c, p.counters c = none → s.state.counters c = none := by
  obtain ⟨m, hens, hbal⟩ := Config.interleaved (R := Balanced p)
    (fun c => by simp [othersNet])
    (fun ts m p' o h => h.apply o fun c v hv => by
      rw [othersNet_snoc, Pi.add_apply, PacerOp.delta_eq_shift o hv]
      simp only [othersNet]
      ring)
    (fun ts m p' o h => h.apply o fun c v hv => by
      rw [othersNet_snoc]
      simp only [othersNet]
      ring)
    (PacerProg.auction_ensures imps hd) hrun
  rw [Prog.result_eq_some hdone] at hens
  have hm : m = fun c => -wonSum c ws := by simpa [Prog.Ensures] using hens
  have hcounter : ∀ c, s.state.counters c =
      (p.counters c).map fun v => Int64.ofInt (v.toInt + othersNet c ts - wonSum c ws) := by
    intro c
    rw [hbal c, hm]
    congr 1
    funext v
    congr 1
    ring
  refine ⟨hcounter, ?_, ?_⟩
  · intro c hnone
    rw [hcounter c, wonSum_of_forall_ne hnone]
    simp only [sub_zero]
  · intro c hnone
    rw [hcounter c, hnone, Option.map_none]

/-- A candidate of the campaign at this price and score. -/
def bidder (campaignId : CampaignId) (cents : Int32) (score : ℚ) : AdCandidate :=
  ⟨campaignId, 1, cents, .fin score, 10, 10⟩

/-- Campaign 1 loses the first impression, wins the second and is refused on the third,
which campaign 2 wins; campaign 3 has no entry. Another request reserves 500 for
campaign 1 before the third impression, releases them after it and takes 20 from
campaign 2 meanwhile. -/
theorem auction_charges_won_sample :
    ∃ ts s ws, Lib.Run (· = ⟨LocalBudgetPacer.new.reload [(1, 250), (2, 300)],
        PacerProg.auction [] [[bidder 1 100 0, bidder 2 60 1], [bidder 1 100 0, bidder 3 70 5],
          [bidder 1 100 9, bidder 2 60 1]]⟩) (Lib.Steps auctionStep) ts s ∧
      s.prog.result = some ws ∧ ws.map (·.campaignId) = [2, 1, 2] ∧
      othersNet 1 ts = 0 ∧ othersNet 2 ts = -20 ∧
      s.state.counters 1 = some (Int64.ofInt ((250 : Int64).toInt + 0 - wonSum 1 ws)) ∧
      s.state.counters 2 = some (Int64.ofInt ((300 : Int64).toInt + -20 - wonSum 2 ws)) ∧
      s.state.counters 3 = none := by
  let ts : List (Turn PacerOp) := [.own, .own, .own, .other (.fetchSub 2 20), .own,
    .other (.fetchSub 1 500), .own, .own, .other (.fetchAdd 1 500), .own, .own]
  obtain ⟨s, hrun, hres, hwon⟩ := Lib.run_of_exec_any
    (P := fun s : Config LocalBudgetPacer PacerOp (Option Int64) (List ImpWinner) =>
      s.prog.result.isSome ∧ s.prog.result.map (List.map (·.campaignId)) = some [2, 1, 2])
    (show (Lib.exec auctionStep ⟨LocalBudgetPacer.new.reload [(1, 250), (2, 300)],
      PacerProg.auction [] [[bidder 1 100 0, bidder 2 60 1], [bidder 1 100 0, bidder 3 70 5],
        [bidder 1 100 9, bidder 2 60 1]]⟩ ts).any _ = true by decide +kernel)
  obtain ⟨ws, hws⟩ := Option.isSome_iff_exists.1 hres
  obtain ⟨hcounters, -, hnone⟩ := auction_charges_won [] _ (by
    simp only [List.forall_mem_cons, List.not_mem_nil, IsEmpty.forall_iff, implies_true, and_true]
    unfold Distinct
    decide) _ hrun hws
  refine ⟨ts, s, ws, hrun, hws, by simpa [hws] using hwon, by decide, by decide, ?_, ?_, ?_⟩
  · exact hcounters 1
  · exact hcounters 2
  · exact hnone 3 rfl

end Interleaved

end RTB
