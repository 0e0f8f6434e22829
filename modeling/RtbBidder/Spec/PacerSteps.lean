import RtbBidder.Lib.Resumption
import RtbBidder.Spec.Pipeline

/-! The pacer at the granularity of its atomic operations: the auction of one
request as a program of `fetch_sub` and `fetch_add`, and a pool of concurrent
`check_and_reserve` and `release` calls on one campaign. -/

namespace RTB

/-- One atomic operation on a campaign's counter. Without a reload the entries of the
map stay as they are, so looking the counter up is part of the operation. -/
inductive PacerOp
  | fetchSub (id : CampaignId) (x : Int64)
  | fetchAdd (id : CampaignId) (x : Int64)
  deriving DecidableEq

/-- Both operations answer with the value before; there is none without an entry. -/
def PacerOp.apply : PacerOp → LocalBudgetPacer → Option Int64 × LocalBudgetPacer
  | .fetchSub id x, p => (p.counters id, p.fetchSub id x)
  | .fetchAdd id x, p => (p.counters id, p.fetchAdd id x)

abbrev PacerProg := Lib.Prog PacerOp (Option Int64)

namespace PacerProg

def checkAndReserve (id : CampaignId) (bidCents : Int32) : PacerProg PaceDecision :=
  .op (.fetchSub id bidCents.toInt64) fun
    | none => pure .Exhausted
    | some prev =>
      if prev ≤ 0 then .op (.fetchAdd id bidCents.toInt64) fun _ => pure .Exhausted
      else pure .HasBudget

def release (id : CampaignId) (bidCents : Int32) : PacerProg Unit :=
  .op (.fetchAdd id bidCents.toInt64) fun _ => pure ()

def reserveAll : List AdCandidate → PacerProg (List CampaignId)
  | [] => pure []
  | c :: cs => do
    let decision ← checkAndReserve c.campaignId c.bidPriceCents
    let exhausted ← reserveAll cs
    pure (if decision = .Exhausted then c.campaignId :: exhausted else exhausted)

def paceImp (cs : List AdCandidate) : PacerProg (List AdCandidate) := do
  let exhausted ← reserveAll cs
  pure (cs.filter (·.campaignId ∉ exhausted))

def paceAll : List (List AdCandidate) → PacerProg (List (List AdCandidate))
  | [] => pure []
  | cs :: css => do
    let kept ← paceImp cs
    let rest ← paceAll css
    pure (kept :: rest)

def releaseAll : List AdCandidate → PacerProg Unit
  | [] => pure ()
  | c :: cs => do
    release c.campaignId c.bidPriceCents
    releaseAll cs

def rankAll (imps : List Imp) : ℕ → List (List AdCandidate) → PacerProg (List ImpWinner)
  | _, [] => pure []
  | i, cs :: css =>
    match maxBy rankCmp cs with
    | none => rankAll imps (i + 1) css
    | some w => do
      releaseAll (cs.filter (·.campaignId ≠ w.campaignId))
      let rest ← rankAll imps (i + 1) css
      pure (winnerOf imps i w :: rest)

/-- Budget pacing and then ranking, for the candidates of one request. -/
def auction (imps : List Imp) (css : List (List AdCandidate)) : PacerProg (List ImpWinner) := do
  let kept ← paceAll css
  rankAll imps 0 kept

section Alone

/-! Run with no other request in between, the programs are the stages. -/

variable (p : LocalBudgetPacer)

theorem run_checkAndReserve (id : CampaignId) (bid : Int32) :
    (checkAndReserve id bid).run PacerOp.apply p = p.checkAndReserve id bid := by
  unfold LocalBudgetPacer.checkAndReserve
  cases hv : p.counters id with
  | none =>
    have hp : p.fetchSub id bid.toInt64 = p := by
      rw [LocalBudgetPacer.fetchSub, hv, Option.map_none, ← hv, Function.update_eq_self]
    simp [checkAndReserve, Lib.Prog.run, PacerOp.apply, hv, hp]
  | some prev =>
    simp only [checkAndReserve, Lib.Prog.run, PacerOp.apply, hv]
    split_ifs <;> rfl

theorem run_reserveAll (cs : List AdCandidate) :
    (reserveAll cs).run PacerOp.apply p = RTB.reserveAll p cs := by
  induction cs generalizing p with
  | nil => rfl
  | cons c cs ih => simp [reserveAll, RTB.reserveAll, run_checkAndReserve, ih]

theorem run_paceAll (css : List (List AdCandidate)) :
    (paceAll css).run PacerOp.apply p = RTB.paceAll p css := by
  induction css generalizing p with
  | nil => rfl
  | cons cs css ih => simp [paceAll, RTB.paceAll, paceImp, RTB.paceImp, run_reserveAll, ih]

theorem run_releaseAll (cs : List AdCandidate) :
    ((releaseAll cs).run PacerOp.apply p).2 =
      cs.foldl (fun p c => p.release c.campaignId c.bidPriceCents) p := by
  induction cs generalizing p with
  | nil => rfl
  | cons c cs ih =>
    simp only [releaseAll, Lib.Prog.run_bind, ih, List.foldl_cons]
    rfl

theorem run_rankAll (imps : List Imp) (i : ℕ) (css : List (List AdCandidate)) :
    (rankAll imps i css).run PacerOp.apply p = RTB.rankAll imps i p css := by
  induction css generalizing p i with
  | nil => rfl
  | cons cs css ih =>
    cases hw : maxBy rankCmp cs with
    | none => simp [rankAll, RTB.rankAll, hw, ih]
    | some w => simp [rankAll, RTB.rankAll, hw, ih, run_releaseAll, releaseLosers]

theorem run_auction (imps : List Imp) (css : List (List AdCandidate)) :
    (auction imps css).run PacerOp.apply p =
      RTB.rankAll imps 0 (RTB.paceAll p css).2 (RTB.paceAll p css).1 := by
  simp [auction, run_paceAll, run_rankAll]

end Alone

end PacerProg

/-- A call on the campaign that has not returned, at its next atomic operation. -/
inductive PacerCall
  /-- `check_and_reserve` before its `fetch_sub` -/
  | reserve (bidCents : Int32)
  /-- `check_and_reserve`, refused, before the `fetch_add` that restores -/
  | restore (bidCents : Int32)
  | release (bidCents : Int32)
  deriving DecidableEq

/-- The calls in flight on one campaign, with what has been granted and released. -/
structure CallPool where
  pacer : LocalBudgetPacer
  calls : List PacerCall
  /-- the grants that no call to `release` has been made for -/
  live : List Int32
  granted : ℤ
  released : ℤ
  lastGrant : Option Int32

inductive CallEvent
  | checkAndReserve (bidCents : Int32)
  | release (bidCents : Int32)
  | op (call : PacerCall)
  deriving DecidableEq

namespace CallPool

def start (p : LocalBudgetPacer) : CallPool := ⟨p, [], [], 0, 0, none⟩

/-- The next operation of a call that has been taken out of the pool. -/
def perform (c : CampaignId) (s : CallPool) : PacerCall → CallPool
  | .reserve bid =>
    match s.pacer.counters c with
    | none => s
    | some prev =>
      let pacer := s.pacer.fetchSub c bid.toInt64
      if prev ≤ 0 then { s with pacer := pacer, calls := .restore bid :: s.calls }
      else { s with pacer := pacer, live := bid :: s.live, granted := s.granted + bid.toInt,
                    lastGrant := some bid }
  | .restore bid => { s with pacer := s.pacer.fetchAdd c bid.toInt64 }
  | .release bid =>
    { s with pacer := s.pacer.fetchAdd c bid.toInt64, released := s.released + bid.toInt }

/-- A call begins, or one in flight performs its next operation. A release is for a
live grant. -/
def step (c : CampaignId) (s : CallPool) : CallEvent → Option CallPool
  | .checkAndReserve bid => some { s with calls := .reserve bid :: s.calls }
  | .release bid =>
    if bid ∈ s.live then
      some { s with calls := .release bid :: s.calls, live := s.live.erase bid }
    else none
  | .op call =>
    if call ∈ s.calls then some (perform c { s with calls := s.calls.erase call } call) else none

/-- A call that nothing interrupts is the sequential `check_and_reserve`. -/
theorem reserve_uninterrupted (c : CampaignId) (s : CallPool) (bid : Int32) :
    ∃ evs s', Lib.exec (step c) s (.checkAndReserve bid :: .op (.reserve bid) :: evs) = some s' ∧
      s'.pacer = (s.pacer.checkAndReserve c bid).2 ∧ s'.calls = s.calls := by
  unfold LocalBudgetPacer.checkAndReserve
  cases hv : s.pacer.counters c with
  | none => exact ⟨[], s, by simp [Lib.exec, step, perform, hv], rfl, rfl⟩
  | some prev =>
    by_cases hle : prev ≤ 0
    · refine ⟨[.op (.restore bid)],
        { s with pacer := (s.pacer.fetchSub c bid.toInt64).fetchAdd c bid.toInt64 }, ?_, ?_, rfl⟩
      · simp [Lib.exec, step, perform, hv, hle]
      · simp [hle]
    · refine ⟨[], ⟨s.pacer.fetchSub c bid.toInt64, s.calls, bid :: s.live,
        s.granted + bid.toInt, s.released, some bid⟩, ?_, ?_, rfl⟩
      · simp [Lib.exec, step, perform, hv, hle]
      · simp [hle]

end CallPool

end RTB
