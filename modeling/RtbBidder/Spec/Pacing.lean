import RtbBidder.Lib.Run

/-! `LocalBudgetPacer` of `bidder-core/src/pacing`: one wrapping `i64` counter of
remaining cents for each campaign that a reload has seeded. -/

namespace RTB

abbrev CampaignId := UInt32

inductive PaceDecision
  | HasBudget
  | Exhausted
  deriving DecidableEq, Repr

structure LocalBudgetPacer where
  counters : CampaignId → Option Int64

namespace LocalBudgetPacer

def new : LocalBudgetPacer := ⟨fun _ => none⟩

def fetchSub (p : LocalBudgetPacer) (id : CampaignId) (x : Int64) : LocalBudgetPacer :=
  ⟨Function.update p.counters id ((p.counters id).map (· - x))⟩

def fetchAdd (p : LocalBudgetPacer) (id : CampaignId) (x : Int64) : LocalBudgetPacer :=
  ⟨Function.update p.counters id ((p.counters id).map (· + x))⟩

def checkAndReserve (p : LocalBudgetPacer) (id : CampaignId) (bidCents : Int32) :
    PaceDecision × LocalBudgetPacer :=
  match p.counters id with
  | none => (.Exhausted, p)
  | some prev =>
    let p := p.fetchSub id bidCents.toInt64
    if prev ≤ 0 then (.Exhausted, p.fetchAdd id bidCents.toInt64) else (.HasBudget, p)

def release (p : LocalBudgetPacer) (id : CampaignId) (bidCents : Int32) : LocalBudgetPacer :=
  p.fetchAdd id bidCents.toInt64

def store (p : LocalBudgetPacer) (b : CampaignId × Int64) : LocalBudgetPacer :=
  ⟨Function.update p.counters b.1 (some b.2)⟩

def reload (p : LocalBudgetPacer) (budgets : List (CampaignId × Int64)) : LocalBudgetPacer :=
  budgets.foldl store p

theorem checkAndReserve_exhausted {p : LocalBudgetPacer} {id : CampaignId} (bid : Int32)
    (h : ∀ v, p.counters id = some v → v ≤ 0) : p.checkAndReserve id bid = (.Exhausted, p) := by
  unfold checkAndReserve
  cases hv : p.counters id with
  | none => rfl
  | some v =>
    have hback : (p.fetchSub id bid.toInt64).fetchAdd id bid.toInt64 = p := by
      cases p
      simp only [fetchAdd, fetchSub, Function.update_self, Function.update_idem, mk.injEq] at hv ⊢
      rw [hv]
      simp only [Option.map_some, Int64.sub_add_cancel]
      rw [← hv, Function.update_eq_self]
    simp only [if_pos (h v hv), hback]

theorem checkAndReserve_hasBudget {p : LocalBudgetPacer} {id : CampaignId} {v : Int64} (bid : Int32)
    (hv : p.counters id = some v) (h : ¬ v ≤ 0) :
    p.checkAndReserve id bid = (.HasBudget, p.fetchSub id bid.toInt64) := by
  simp only [checkAndReserve, hv, if_neg h]

@[simp] theorem fetchSub_counters_self (p : LocalBudgetPacer) (id : CampaignId) (x : Int64) :
    (p.fetchSub id x).counters id = (p.counters id).map (· - x) := Function.update_self ..

@[simp] theorem fetchAdd_counters_self (p : LocalBudgetPacer) (id : CampaignId) (x : Int64) :
    (p.fetchAdd id x).counters id = (p.counters id).map (· + x) := Function.update_self ..

theorem fetchSub_counters_ne (p : LocalBudgetPacer) {id c : CampaignId} (x : Int64) (h : c ≠ id) :
    (p.fetchSub id x).counters c = p.counters c := Function.update_of_ne h ..

theorem fetchAdd_counters_ne (p : LocalBudgetPacer) {id c : CampaignId} (x : Int64) (h : c ≠ id) :
    (p.fetchAdd id x).counters c = p.counters c := Function.update_of_ne h ..

theorem fetchSub_zero (p : LocalBudgetPacer) (id : CampaignId) :
    p.fetchSub id (0 : Int32).toInt64 = p := by
  simp [fetchSub]

/-- A reload that delivers only `B` for `c` leaves the counter or sets it to `B`. -/
theorem reload_counters (p : LocalBudgetPacer) (budgets : List (CampaignId × Int64))
    {c : CampaignId} {B : Int64} (h : ∀ b, (c, b) ∈ budgets → b = B) :
    (p.reload budgets).counters c =
      if c ∈ budgets.map Prod.fst then some B else p.counters c := by
  induction budgets generalizing p with
  | nil => rfl
  | cons b bs ih =>
    have := ih (p.store b) fun b' hb' => h b' (List.mem_cons_of_mem _ hb')
    rw [reload, List.foldl_cons, ← reload, this]
    by_cases hc : c = b.1
    · subst hc
      have hB := h b.2 (by simp)
      simp [store, hB]
    · have hmem : c ∈ (b :: bs).map Prod.fst ↔ c ∈ bs.map Prod.fst := by simp [hc]
      simp only [hmem, store, Function.update_of_ne hc]

end LocalBudgetPacer

/-- A granted reservation of a nonnegative bid does not wrap. -/
theorem toInt_sub_bid {v : Int64} {bid : Int32} (hv : ¬ v ≤ 0) (hb : 0 ≤ bid.toInt) :
    (v - bid.toInt64).toInt = v.toInt - bid.toInt := by
  rw [Int64.le_iff_toInt_le, Int64.toInt_zero] at hv
  have h1 := v.toInt_lt
  have h2 := bid.toInt_lt
  rw [Int64.toInt_sub, Int32.toInt_toInt64, Int.bmod_eq_of_le] <;> omega

/-- Nor does giving a nonnegative bid back, where the result fits. -/
theorem toInt_add_bid {v : Int64} {bid : Int32} (hb : 0 ≤ bid.toInt)
    (hfit : v.toInt + bid.toInt < 2 ^ 63) : (v + bid.toInt64).toInt = v.toInt + bid.toInt := by
  have h1 := v.le_toInt
  rw [Int64.toInt_add, Int32.toInt_toInt64, Int.bmod_eq_of_le] <;> omega

/-- The pacer with the reservations granted so far and the sums granted and
released for each campaign. -/
structure PacerRun where
  pacer : LocalBudgetPacer
  live : List (CampaignId × Int32)
  granted : CampaignId → ℤ
  released : CampaignId → ℤ

inductive PacerEvent
  | checkAndReserve (id : CampaignId) (bidCents : Int32)
  | release (id : CampaignId) (bidCents : Int32)
  | reload (budgets : List (CampaignId × Int64))
  deriving DecidableEq

namespace PacerRun

def init : PacerRun := ⟨.new, [], fun _ => 0, fun _ => 0⟩

/-- One call. A release gives back a reservation that was granted and is live. -/
def step (s : PacerRun) : PacerEvent → Option PacerRun
  | .checkAndReserve id bid =>
    let r := s.pacer.checkAndReserve id bid
    if r.1 = .HasBudget then
      some { s with pacer := r.2, live := (id, bid) :: s.live,
                    granted := Function.update s.granted id (s.granted id + bid.toInt) }
    else some { s with pacer := r.2 }
  | .release id bid =>
    if (id, bid) ∈ s.live then
      some { s with pacer := s.pacer.release id bid, live := s.live.erase (id, bid),
                    released := Function.update s.released id (s.released id + bid.toInt) }
    else none
  | .reload budgets => some { s with pacer := s.pacer.reload budgets }

end PacerRun

end RTB
