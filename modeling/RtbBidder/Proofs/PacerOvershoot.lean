import RtbBidder.Spec.PacerSteps

/-! Concurrent calls on one campaign, interleaved at their atomic operations. A
refused call holds its bid out of the counter until it restores it, which can only
refuse others, so what is granted and not released passes the budget by less than
the latest grant. -/

namespace RTB

/-- The bid of a call. -/
def PacerCall.bid : PacerCall → Int32
  | .reserve bid | .restore bid | .release bid => bid

/-- What a refused call has subtracted and not yet restored. -/
def PacerCall.held : PacerCall → ℤ
  | .restore bid => bid.toInt
  | _ => 0

/-- What a release has not yet added back. -/
def PacerCall.owed : PacerCall → ℤ
  | .release bid => bid.toInt
  | _ => 0

namespace CallPool

/-- The cents that refused calls in flight hold. -/
def heldSum (calls : List PacerCall) : ℤ := (calls.map PacerCall.held).sum

def owedSum (calls : List PacerCall) : ℤ := (calls.map PacerCall.owed).sum

/-- The amount granted and not released. -/
def net (s : CallPool) : ℤ := s.granted - s.released

/-- Bids are not negative and fewer than `2 ^ 30` calls are in flight. -/
def Allowed (s : CallPool) : CallEvent → Prop
  | .checkAndReserve bid => 0 ≤ bid.toInt ∧ s.calls.length + 1 < 2 ^ 30
  | .release _ => s.calls.length + 1 < 2 ^ 30
  | .op _ => True

instance (s : CallPool) : (e : CallEvent) → Decidable (s.Allowed e)
  | .checkAndReserve bid => inferInstanceAs (Decidable (0 ≤ bid.toInt ∧ _))
  | .release _ => inferInstanceAs (Decidable (_ < _))
  | .op _ => .isTrue trivial

/-- The books of a campaign seeded with `B`. -/
structure Sound (c : CampaignId) (B : Int64) (s : CallPool) : Prop where
  few : s.calls.length < 2 ^ 30
  bids : ∀ x ∈ s.calls, 0 ≤ x.bid.toInt
  lives : ∀ b ∈ s.live, 0 ≤ b.toInt
  out : s.net = (s.live.map Int32.toInt).sum + owedSum s.calls
  counter : ∃ v, s.pacer.counters c = some v ∧ v.toInt = B.toInt - s.net - heldSum s.calls
  ungranted : s.lastGrant = none → s.net ≤ 0
  latest : ∀ g, s.lastGrant = some g → s.net < B.toInt + g.toInt

section Sums

variable {calls : List PacerCall} {x : PacerCall}

@[simp] theorem heldSum_cons : heldSum (x :: calls) = x.held + heldSum calls := List.sum_cons

@[simp] theorem owedSum_cons : owedSum (x :: calls) = x.owed + owedSum calls := List.sum_cons

theorem heldSum_bounds (h : ∀ x ∈ calls, 0 ≤ x.bid.toInt) :
    0 ≤ heldSum calls ∧ heldSum calls ≤ calls.length * 2 ^ 31 := by
  induction calls with
  | nil => simp [heldSum]
  | cons x calls ih =>
    obtain ⟨hx, hcalls⟩ := List.forall_mem_cons.1 h
    have hlt := x.bid.toInt_lt
    have hrest := ih hcalls
    have hheld : 0 ≤ x.held ∧ x.held ≤ 2 ^ 31 := by
      cases x <;> simp only [PacerCall.held, PacerCall.bid] at * <;> omega
    simp only [heldSum_cons, List.length_cons]
    push_cast
    omega

theorem owedSum_nonneg (h : ∀ x ∈ calls, 0 ≤ x.bid.toInt) : 0 ≤ owedSum calls := by
  apply List.sum_nonneg
  intro y hy
  obtain ⟨x, hx, rfl⟩ := List.mem_map.1 hy
  have := h x hx
  cases x <;> simp only [PacerCall.owed, PacerCall.bid] at * <;> omega

end Sums

variable {c : CampaignId} {B : Int64} {s s' : CallPool} {bid : Int32}

theorem Sound.start {p : LocalBudgetPacer} (hp : p.counters c = some B) :
    Sound c B (CallPool.start p) where
  few := by simp [CallPool.start]
  bids := by simp [CallPool.start]
  lives := by simp [CallPool.start]
  out := rfl
  counter := ⟨B, hp, by simp [CallPool.start, net, heldSum]⟩
  ungranted := fun _ => le_rfl
  latest := fun _ h => by cases h

theorem liveSum_nonneg (h : Sound c B s) : 0 ≤ (s.live.map Int32.toInt).sum := by
  apply List.sum_nonneg
  intro y hy
  obtain ⟨b, hb, rfl⟩ := List.mem_map.1 hy
  exact h.lives b hb

/-- What is out lies between nothing and the budget plus one bid. -/
theorem Sound.net_range (h : Sound c B s) (hB : 0 ≤ B.toInt) :
    0 ≤ s.net ∧ s.net < B.toInt + 2 ^ 31 := by
  have hlive := liveSum_nonneg h
  have howed := owedSum_nonneg h.bids
  refine ⟨by rw [h.out]; omega, ?_⟩
  cases hg : s.lastGrant with
  | none =>
    have := h.ungranted hg
    omega
  | some g =>
    have := h.latest g hg
    have := g.toInt_lt
    omega

/-- A reservation sees a positive counter only while less than the budget is out. -/
theorem Sound.net_lt_of_pos (h : Sound c B s) {v : Int64} (hv : s.pacer.counters c = some v)
    (hpos : ¬ v ≤ 0) : s.net < B.toInt := by
  obtain ⟨v', hv', hval⟩ := h.counter
  obtain rfl : v' = v := Option.some.inj (hv'.symm.trans hv)
  have hheld := (heldSum_bounds h.bids).1
  rw [Int64.le_iff_toInt_le, Int64.toInt_zero] at hpos
  omega

theorem Sound.checkAndReserve (h : Sound c B s) (hok : s.Allowed (.checkAndReserve bid))
    (hs : step c s (.checkAndReserve bid) = some s') : Sound c B s' := by
  obtain rfl := Option.some.inj hs
  obtain ⟨hbid, hfew⟩ := hok
  exact
    { few := by simpa using hfew
      bids := List.forall_mem_cons.2 ⟨hbid, h.bids⟩
      lives := h.lives
      out := by simpa [net, PacerCall.owed] using h.out
      counter := by simpa [net, PacerCall.held] using h.counter
      ungranted := h.ungranted
      latest := h.latest }

theorem Sound.release (h : Sound c B s) (hok : s.Allowed (.release bid))
    (hs : step c s (.release bid) = some s') : Sound c B s' := by
  simp only [step] at hs
  split_ifs at hs with hmem
  obtain rfl := Option.some.inj hs
  have hsum := List.sum_map_erase Int32.toInt hmem
  exact
    { few := by simpa [Allowed] using hok
      bids := List.forall_mem_cons.2 ⟨h.lives bid hmem, h.bids⟩
      lives := fun b hb => h.lives b (List.mem_of_mem_erase hb)
      out := by
        have := h.out
        simp only [net, owedSum_cons, PacerCall.owed] at *
        omega
      counter := by simpa [net, PacerCall.held] using h.counter
      ungranted := h.ungranted
      latest := h.latest }

/-- The calls in flight have no order. -/
theorem Sound.perm (h : Sound c B s) {calls : List PacerCall} (hp : s.calls.Perm calls) :
    Sound c B { s with calls := calls } where
  few := hp.length_eq ▸ h.few
  bids := fun x hx => h.bids x (hp.mem_iff.2 hx)
  lives := h.lives
  out := by
    have howed : owedSum s.calls = owedSum calls := (hp.map _).sum_eq
    rw [← howed]
    exact h.out
  counter := by
    have hheld : heldSum s.calls = heldSum calls := (hp.map _).sum_eq
    rw [← hheld]
    exact h.counter
  ungranted := h.ungranted
  latest := h.latest

section Perform

/-! One operation of a call, from books that still count the call as in flight. -/

theorem Sound.perform_reserve (h : Sound c B { s with calls := .reserve bid :: s.calls })
    (hB : 0 ≤ B.toInt) : Sound c B (perform c s (.reserve bid)) := by
  obtain ⟨v, hv, hval⟩ := h.counter
  obtain ⟨hnet, hnet'⟩ := h.net_range hB
  obtain ⟨hbid, hbids⟩ := List.forall_mem_cons.1 h.bids
  obtain ⟨hheld, hheld'⟩ := heldSum_bounds hbids
  have hout := h.out
  have hfew : s.calls.length + 1 < 2 ^ 30 := h.few
  simp only [net, heldSum_cons, owedSum_cons, PacerCall.held, PacerCall.owed, PacerCall.bid,
    zero_add] at hval hnet hnet' hbid hout
  have hv : s.pacer.counters c = some v := hv
  have hlt := bid.toInt_lt
  have hvlt := v.toInt_lt
  have hsub : (v - bid.toInt64).toInt = v.toInt - bid.toInt := by
    have hlow : heldSum s.calls ≤ 2 ^ 30 * 2 ^ 31 := by omega
    rw [Int64.toInt_sub, Int32.toInt_toInt64, Int.bmod_eq_of_le] <;> omega
  have hcounter : (s.pacer.fetchSub c bid.toInt64).counters c = some (v - bid.toInt64) := by
    simp [hv]
  by_cases hle : v ≤ 0
  · have hp : perform c s (.reserve bid) = { s with
        pacer := s.pacer.fetchSub c bid.toInt64, calls := .restore bid :: s.calls } := by
      simp only [perform, hv, if_pos hle]
    rw [hp]
    exact
      { few := hfew
        bids := List.forall_mem_cons.2 ⟨hbid, hbids⟩
        lives := h.lives
        out := by simpa [net, PacerCall.owed] using hout
        counter := ⟨_, hcounter, by simp only [hsub, hval, net, heldSum_cons, PacerCall.held]; ring⟩
        ungranted := h.ungranted
        latest := h.latest }
  · have hgrant := h.net_lt_of_pos hv hle
    have hp : perform c s (.reserve bid) =
        ⟨s.pacer.fetchSub c bid.toInt64, s.calls, bid :: s.live, s.granted + bid.toInt,
          s.released, some bid⟩ := by
      simp only [perform, hv, if_neg hle]
    rw [hp]
    simp only [net] at hgrant
    exact
      { few := by simp only; omega
        bids := hbids
        lives := List.forall_mem_cons.2 ⟨hbid, h.lives⟩
        out := by simp only [net, List.map_cons, List.sum_cons]; omega
        counter := ⟨_, hcounter, by simp only [hsub, hval, net]; ring⟩
        ungranted := fun hn => by cases hn
        latest := fun g hg => by
          obtain rfl := Option.some.inj hg
          simp only [net]
          omega }

theorem Sound.perform_restore (h : Sound c B { s with calls := .restore bid :: s.calls })
    (hB : 0 ≤ B.toInt) (hB' : B.toInt < 2 ^ 62) : Sound c B (perform c s (.restore bid)) := by
  obtain ⟨v, hv, hval⟩ := h.counter
  obtain ⟨hnet, -⟩ := h.net_range hB
  obtain ⟨hbid, hbids⟩ := List.forall_mem_cons.1 h.bids
  obtain ⟨hheld, -⟩ := heldSum_bounds hbids
  have hout := h.out
  simp only [net, heldSum_cons, owedSum_cons, PacerCall.held, PacerCall.owed, PacerCall.bid,
    zero_add] at hval hnet hbid hout
  have hcounter : (s.pacer.fetchAdd c bid.toInt64).counters c = some (v + bid.toInt64) := by
    simp [show s.pacer.counters c = some v from hv]
  exact
    { few := (Nat.lt_succ_self _).trans h.few
      bids := hbids
      lives := h.lives
      out := hout
      counter := ⟨_, hcounter, by
        rw [toInt_add_bid hbid (by omega), hval]
        simp only [perform, net]
        ring⟩
      ungranted := h.ungranted
      latest := h.latest }

theorem Sound.perform_release (h : Sound c B { s with calls := .release bid :: s.calls })
    (hB' : B.toInt < 2 ^ 62) : Sound c B (perform c s (.release bid)) := by
  obtain ⟨v, hv, hval⟩ := h.counter
  obtain ⟨hbid, hbids⟩ := List.forall_mem_cons.1 h.bids
  obtain ⟨hheld, -⟩ := heldSum_bounds hbids
  have hout := h.out
  have hlive := liveSum_nonneg h
  have howed := owedSum_nonneg hbids
  simp only [net, heldSum_cons, owedSum_cons, PacerCall.held, PacerCall.owed, PacerCall.bid,
    zero_add] at hval hbid hout hlive
  have hcounter : (s.pacer.fetchAdd c bid.toInt64).counters c = some (v + bid.toInt64) := by
    simp [show s.pacer.counters c = some v from hv]
  exact
    { few := (Nat.lt_succ_self _).trans h.few
      bids := hbids
      lives := h.lives
      out := by simp only [perform, net]; omega
      counter := ⟨_, hcounter, by
        rw [toInt_add_bid hbid (by omega), hval]
        simp only [perform, net]
        ring⟩
      ungranted := fun hn => by
        have hle : s.granted - s.released ≤ 0 := h.ungranted hn
        simp only [perform, net]
        omega
      latest := fun g hg => by
        have hlt : s.granted - s.released < B.toInt + g.toInt := h.latest g hg
        simp only [perform, net]
        omega }

end Perform

theorem Sound.op (h : Sound c B s) (hB : 0 ≤ B.toInt) (hB' : B.toInt < 2 ^ 62) {x : PacerCall}
    (hs : step c s (.op x) = some s') : Sound c B s' := by
  simp only [step] at hs
  split_ifs at hs with hmem
  obtain rfl := Option.some.inj hs
  have htaken := h.perm (List.perm_cons_erase hmem)
  cases x with
  | reserve bid => exact Sound.perform_reserve htaken hB
  | restore bid => exact Sound.perform_restore htaken hB hB'
  | release bid => exact Sound.perform_release htaken hB'

theorem Sound.step (h : Sound c B s) (hB : 0 ≤ B.toInt) (hB' : B.toInt < 2 ^ 62) {e : CallEvent}
    (hs : Lib.Guarded Allowed (Lib.Steps (CallPool.step c)) s e s') : Sound c B s' := by
  obtain ⟨hok, hs⟩ := hs
  cases e with
  | checkAndReserve bid => exact h.checkAndReserve hok hs
  | release bid => exact h.release hok hs
  | op x => exact h.op hB hB' hs

/-- In every state that concurrent calls reach, the counter is the budget less what is
granted, plus what is released, less what refused calls hold; a grant finds less than
the budget out, so the overshoot stays below the latest grant; and with no call in
flight refused calls have left no trace. -/
theorem concurrent_accounting {p : LocalBudgetPacer} (hp : p.counters c = some B)
    (hB : 0 ≤ B.toInt) (hB' : B.toInt < 2 ^ 62) {evs : List CallEvent}
    (hrun : Lib.Run (· = CallPool.start p) (Lib.Guarded Allowed (Lib.Steps (CallPool.step c))) evs s) :
    (∃ v, s.pacer.counters c = some v ∧
      v.toInt = B.toInt - s.granted + s.released - heldSum s.calls) ∧
    (∀ bid s', CallPool.step c s (.op (.reserve bid)) = some s' → s'.live = bid :: s.live →
      s.granted - s.released < B.toInt) ∧
    (∀ g, s.lastGrant = some g → s.granted - s.released < B.toInt + g.toInt) ∧
    (s.calls = [] → ∃ v, s.pacer.counters c = some v ∧
      v.toInt = B.toInt - s.granted + s.released) := by
  have h : Sound c B s := by
    refine hrun.inv ?_ fun s e s' h hs => h.step hB hB' hs
    intro s hs
    exact hs ▸ Sound.start hp
  obtain ⟨v, hv, hval⟩ := h.counter
  have hcounter : v.toInt = B.toInt - s.granted + s.released - heldSum s.calls := by
    rw [hval, net]
    ring
  refine ⟨⟨v, hv, hcounter⟩, ?_, h.latest, ?_⟩
  · intro bid s' hs hlive
    by_contra hge
    have hle : v ≤ 0 := by
      by_contra hpos
      exact hge (h.net_lt_of_pos hv hpos)
    simp only [CallPool.step] at hs
    split_ifs at hs
    obtain rfl := Option.some.inj hs
    simp only [perform, hv, if_pos hle] at hlive
    exact List.cons_ne_self _ _ hlive.symm
  · intro hnil
    refine ⟨v, hv, ?_⟩
    simpa [hnil, heldSum] using hcounter

/-- Budget 100 and bids of 60: the second grant overshoots, a third call is refused and,
while it holds its bid, makes a fourth be refused that the first grant's release had
room for. -/
def overshootEvents : List CallEvent :=
  [.checkAndReserve 60, .checkAndReserve 60, .checkAndReserve 60, .op (.reserve 60),
    .op (.reserve 60), .op (.reserve 60), .release 60, .op (.release 60), .checkAndReserve 60,
    .op (.reserve 60)]

theorem concurrent_accounting_overshoot :
    ∃ s, Lib.Run (· = CallPool.start (LocalBudgetPacer.new.reload [(1, 100)]))
        (Lib.Guarded Allowed (Lib.Steps (CallPool.step 1))) overshootEvents s ∧
      s.granted = 120 ∧ s.released = 60 ∧ heldSum s.calls = 120 ∧
      (∃ v, s.pacer.counters 1 = some v ∧
        v.toInt = (100 : Int64).toInt - s.granted + s.released - heldSum s.calls) ∧
      ∀ g, s.lastGrant = some g → s.granted - s.released < (100 : Int64).toInt + g.toInt := by
  obtain ⟨s, hrun, hgranted, hreleased, hheld⟩ := Lib.run_of_exec_any
    (P := fun s : CallPool => s.granted = 120 ∧ s.released = 60 ∧ heldSum s.calls = 120)
    (show (Lib.exec (fun s e => if Allowed s e then CallPool.step 1 s e else none)
      (CallPool.start (LocalBudgetPacer.new.reload [(1, 100)])) overshootEvents).any _ = true
      by decide +kernel)
  obtain ⟨hcounter, -, hlatest, -⟩ :=
    concurrent_accounting rfl (by decide) (by decide) hrun.guarded_of_check
  exact ⟨s, hrun.guarded_of_check, hgranted, hreleased, hheld, hcounter, hlatest⟩

end CallPool

end RTB
