import RtbBidder.Lib.Nearest
import RtbBidder.Proofs.HedgeRecovery
import RtbBidder.Spec.HedgeFeedback

/-! The trackers lose and repeat nothing, whatever operations fall between the two loads of a
snapshot or the two swaps of a drain, and the hedge capacity is the one that the last window
asks for. Seen from the hedge budget the loop is one more history of `set_load_shed_rate`. -/

namespace RTB

section Thresholds

open Lib.Format (binary64)

/-! The comparisons in `f64` decide the shed rates exactly. -/

theorem shedRate_gt_iff {k t d : ℕ} (hk : 0 < k) (hk' : k < 2 ^ 50) (ht : t < 2 ^ 50)
    (hd : d < 2 ^ 50) :
    (shedRate t d).gt (binary64.nearest (1 / (k : ℚ))) = true ↔ 0 < t ∧ t < k * d := by
  have hbound : (2 : ℕ) ^ 50 < 2 ^ 53 := by norm_num
  unfold shedRate
  split_ifs with hpos
  · rw [Lib.Binary.div_natCast (hd.trans hbound) (ht.trans hbound) hpos, Lib.Binary.gt,
      decide_eq_true_eq, Lib.nearest_inv_lt_iff hk hk' hpos ht]
    exact ⟨fun h => ⟨hpos, h⟩, fun h => h.2⟩
  · have hinv : 0 ≤ binary64.nearest (1 / (k : ℚ)) := binary64.nearest_nonneg (by positivity)
    rw [Lib.Binary.gt, decide_eq_true_eq]
    exact iff_of_false hinv.not_gt fun h => hpos h.1

/-- The literals of `set_load_shed_rate`. -/
theorem nearest_twentieth : binary64.nearest (1 / (20 : ℕ)) = 3602879701896397 / 2 ^ 56 := by
  decide +kernel

theorem nearest_hundredth : binary64.nearest (1 / (100 : ℕ)) = 5764607523034235 / 2 ^ 59 := by
  decide +kernel

theorem HedgeBudget.effective_of_shed (b : HedgeBudget) {t d : ℕ} (ht : t < 2 ^ 50)
    (hd : d < 2 ^ 50) (hpos : 0 < t) (hshed : t < 20 * d) : b.effective (shedRate t d) = 0 := by
  have h20 := shedRate_gt_iff (k := 20) (by norm_num) (by norm_num) ht hd
  rw [nearest_twentieth] at h20
  exact if_pos (h20.2 ⟨hpos, hshed⟩)

/-- `(nominal as f64 * 0.2) as u64` is a fifth of the nominal capacity, rounded down. -/
theorem HedgeBudget.fifth_toNat {b : HedgeBudget} (h : b.nominal.toNat < 2 ^ 50) :
    b.fifth.toNat = b.nominal.toNat / 5 := by
  set n := b.nominal.toNat
  set k := n / 5
  have hexact : Lib.roundEven 53 n = n := Lib.roundEven_of_lt (h.trans (by norm_num))
  -- the literal is `(2 ^ 54 + 1) / 5`
  have hprod : k * 2 ^ 54 ≤ n * 3602879701896397 ∧
      n * 3602879701896397 + 2 ^ 49 < (k + 1) * 2 ^ 54 := by omega
  have hlog : (n * 3602879701896397).log2 + 1 - 53 ≤ 49 := by
    rcases Nat.eq_zero_or_pos n with h0 | hpos
    · simp [h0]
    · have : (n * 3602879701896397).log2 < 102 := (Nat.log2_lt (by omega)).2 (by omega)
      omega
  have hround := Lib.roundEven_within 53 hlog (by norm_num) hprod.1
  have hquot : Lib.roundEven 53 (n * 3602879701896397) / 2 ^ 54 = k :=
    Nat.div_eq_of_lt_le (by omega) (by omega)
  rw [fifth, hexact, hquot, UInt64.toNat_ofNat', Nat.mod_eq_of_lt (by omega)]

/-- The capacity that a window of `t` requests and `d` sheds asks for. -/
theorem HedgeBudget.effective_shedRate {b : HedgeBudget} {t d : ℕ} (hb : b.nominal.toNat < 2 ^ 50)
    (ht : t < 2 ^ 50) (hd : d < 2 ^ 50) :
    (b.effective (shedRate t d)).toNat =
      if 0 < t ∧ t < 20 * d then 0
      else if 0 < t ∧ t < 100 * d then b.nominal.toNat / 5
      else b.nominal.toNat := by
  have h20 := shedRate_gt_iff (k := 20) (by norm_num) (by norm_num) ht hd
  have h100 := shedRate_gt_iff (k := 100) (by norm_num) (by norm_num) ht hd
  rw [nearest_twentieth] at h20
  rw [nearest_hundredth] at h100
  simp only [effective, h20, h100]
  split_ifs
  · rfl
  · exact fifth_toNat hb
  · rfl

end Thresholds

theorem HedgedCall.Moves.effectiveCap {T : Type*} {b b' : HedgeBudget} {c c' : HedgedCall T}
    {x : HedgeInput T} (h : c.Moves b x b' c') : b'.effectiveCap = b.effectiveCap := by
  cases h <;> rfl

namespace MiddlewareCall

/-- Past `record_request`. -/
def counted : MiddlewareCall → Bool
  | .accepted => false
  | _ => true

/-- Past `record_shed`. -/
def shed : MiddlewareCall → Bool
  | .responded true => true
  | _ => false

theorem counted_of_shed {c : MiddlewareCall} (h : c.shed = true) : c.counted = true := by
  cases c <;> first | rfl | cases h

/-- A step adds to the totals what it adds to the call. -/
theorem step_totals {t t' : LoadShedTracker} {c c' : MiddlewareCall} {x : MiddlewareInput}
    (h : c.step t x = some (t', c')) :
    t'.requestsTotal + (if c.counted then 1 else 0) =
        t.requestsTotal + (if c'.counted then 1 else 0) ∧
      t'.shedTotal + (if c.shed then 1 else 0) = t.shedTotal + (if c'.shed then 1 else 0) ∧
      t.requestsTotal ≤ t'.requestsTotal ∧ t.shedTotal ≤ t'.shedTotal := by
  cases c <;> cases x <;> simp only [step, reduceCtorEq, Option.some.injEq, Prod.mk.injEq] at h
  case running.returns status =>
    obtain ⟨rfl, rfl⟩ := h
    by_cases hstatus : status = 503 <;> simp [hstatus, counted, shed]
  all_goals
    obtain ⟨rfl, rfl⟩ := h
    simp [counted, shed, LoadShedTracker.recordRequest, LoadShedTracker.recordShed]

end MiddlewareCall

namespace LatencyRecord

/-- Past the `fetch_add` of the count. -/
def counted : LatencyRecord → Bool
  | .count _ => false
  | _ => true

/-- What the record has added to the sum. -/
def summed : LatencyRecord → ℕ
  | .done us => us
  | _ => 0

/-- The duration to record. -/
def us : LatencyRecord → ℕ
  | .count us | .sum us | .done us => us

def finished : LatencyRecord → Bool
  | .done _ => true
  | _ => false

theorem counted_of_finished {c : LatencyRecord} (h : c.finished = true) : c.counted = true := by
  cases c <;> first | rfl | cases h

theorem summed_of_finished {c : LatencyRecord} (h : c.finished = true) : c.summed = c.us := by
  cases c <;> first | rfl | cases h

theorem step_totals {t t' : RedisLatencyTracker} {c c' : LatencyRecord}
    (h : c.step t = some (t', c')) :
    t'.count + (if c.counted then 1 else 0) = t.count + (if c'.counted then 1 else 0) ∧
      t'.sumUs + c.summed = t.sumUs + c'.summed := by
  cases c <;> simp only [step, reduceCtorEq, Option.some.injEq, Prod.mk.injEq] at h
  all_goals
    obtain ⟨rfl, rfl⟩ := h
    simp [counted, summed]

end LatencyRecord

namespace FeedbackSystem

variable {T : Type*} {nominal : UInt64} {s s' : FeedbackSystem T} {evs : List (FeedbackEvent T)}

/-- What a step can do. -/
inductive Moves (s : FeedbackSystem T) : FeedbackEvent T → FeedbackSystem T → Prop
  | hedgedCall : Moves s .hedgedCall
      { s with hedge := { s.hedge with calls := s.hedge.calls ++ [.first] } }
  | input {i : ℕ} {x : HedgeInput T} {c c' : HedgedCall T} {b' : HedgeBudget}
      (hi : s.hedge.calls[i]? = some c) (hc : c.step s.hedge.budget x = some (b', c')) :
      Moves s (.input i x) { s with hedge := s.hedge.moved i b' c' }
  | request : Moves s .request { s with requests := s.requests ++ [.accepted] }
  | middleware {i : ℕ} {x : MiddlewareInput} {c c' : MiddlewareCall} {t' : LoadShedTracker}
      (hi : s.requests[i]? = some c) (hc : c.step s.loadShed x = some (t', c')) :
      Moves s (.middleware i x) { s with loadShed := t', requests := s.requests.set i c' }
  | record (us : ℕ) : Moves s (.record us) { s with records := s.records ++ [.count us] }
  | recordOp {i : ℕ} {c c' : LatencyRecord} {t' : RedisLatencyTracker}
      (hi : s.records[i]? = some c) (hc : c.step s.redisLatency = some (t', c')) :
      Moves s (.recordOp i) { s with redisLatency := t', records := s.records.set i c' }
  | tick (hp : s.phase = .tick) :
      Moves s .loop { s with phase := .snapshot s.loadShed.requestsTotal }
  | snapshot {curTotal : ℕ} (hp : s.phase = .snapshot curTotal) (hidle : s.hedge.feedback = .idle) :
      Moves s .loop { s with
        hedge := { s.hedge with
          feedback := .store (s.hedge.budget.effective
            (shedRate (curTotal - s.prevTotal) (s.loadShed.shedTotal - s.prevShed)))
          lastRate := some
            (shedRate (curTotal - s.prevTotal) (s.loadShed.shedTotal - s.prevShed)) }
        phase := .setRate
        prevTotal := curTotal
        prevShed := s.loadShed.shedTotal
        windows := s.windows ++ [(curTotal - s.prevTotal, s.loadShed.shedTotal - s.prevShed)] }
  | store {e : UInt64} (hp : s.phase = .setRate) (hf : s.hedge.feedback = .store e) :
      Moves s .loop { s with
        hedge := { s.hedge with
          budget := { s.hedge.budget with effectiveCap := e }, feedback := .clamp e }
        phase := .setRate }
  | clamp {e : UInt64} (hp : s.phase = .setRate) (hf : s.hedge.feedback = .clamp e) :
      Moves s .loop { s with
        hedge := { s.hedge with budget := s.hedge.budget.fetchMin e, feedback := .idle }
        phase := .drain }
  | drain (hp : s.phase = .drain) :
      Moves s .loop { s with
        redisLatency := { s.redisLatency with count := 0 }
        phase := .drainSum s.redisLatency.count }
  | drainSum {count : ℕ} (hp : s.phase = .drainSum count) :
      Moves s .loop { s with
        redisLatency := { s.redisLatency with sumUs := 0 }
        drained := s.drained ++ [(count, s.redisLatency.sumUs)]
        phase := if 0 < count then .updateP95 (p95Estimate count s.redisLatency.sumUs) else .tick }
  | updateP95 {ms : ℕ} (hp : s.phase = .updateP95 ms) :
      Moves s .loop { s with p95Ms := ms, phase := .tick }

theorem loopStep_moves (h : s.loopStep = some s') : Moves s .loop s' := by
  unfold loopStep at h
  cases hp : s.phase with
  | tick =>
    simp only [hp, Option.some.injEq] at h
    exact h ▸ .tick hp
  | snapshot curTotal =>
    simp only [hp, endWindow, HedgeSystem.step] at h
    split_ifs at h with hidle
    · exact Option.some.inj h ▸ .snapshot hp hidle
    · cases h
  | setRate =>
    simp only [hp, HedgeSystem.step] at h
    cases hf : s.hedge.feedback with
    | idle => simp [hf] at h
    | store e =>
      simp only [hf, Option.map_some, Option.some.injEq, reduceCtorEq, if_false] at h
      exact h ▸ .store hp hf
    | clamp e =>
      simp only [hf, Option.map_some, Option.some.injEq, if_true] at h
      exact h ▸ .clamp hp hf
  | drain =>
    simp only [hp, Option.some.injEq] at h
    exact h ▸ .drain hp
  | drainSum count =>
    simp only [hp, Option.some.injEq] at h
    exact h ▸ .drainSum hp
  | updateP95 ms =>
    simp only [hp, Option.some.injEq] at h
    exact h ▸ .updateP95 hp

theorem step_moves {e : FeedbackEvent T} (h : step s e = some s') : Moves s e s' := by
  cases e with
  | hedgedCall => exact Option.some.inj h ▸ .hedgedCall
  | input i x =>
    obtain ⟨hedge, hh, rfl⟩ := Option.map_eq_some_iff.1 h
    obtain ⟨c, b', c', hi, hc, rfl⟩ := HedgeSystem.step_input_inv hh
    exact .input hi hc
  | request => exact Option.some.inj h ▸ .request
  | middleware i x =>
    obtain ⟨⟨t', c'⟩, hr, rfl⟩ := Option.map_eq_some_iff.1 h
    obtain ⟨c, hi, hc⟩ := Option.bind_eq_some_iff.1 hr
    exact .middleware hi hc
  | record us => exact Option.some.inj h ▸ .record us
  | recordOp i =>
    obtain ⟨⟨t', c'⟩, hr, rfl⟩ := Option.map_eq_some_iff.1 h
    obtain ⟨c, hi, hc⟩ := Option.bind_eq_some_iff.1 hr
    exact .recordOp hi hc
  | loop => exact loopStep_moves h

section Ledgers

/-- Where the requests and sheds are: in the windows or not yet seen by the loop. -/
structure ShedLedger (s : FeedbackSystem T) : Prop where
  windowsTotal : (s.windows.map Prod.fst).sum = s.prevTotal
  windowsShed : (s.windows.map Prod.snd).sum = s.prevShed
  prevTotal_le : s.prevTotal ≤ s.loadShed.requestsTotal
  prevShed_le : s.prevShed ≤ s.loadShed.shedTotal
  snapshot_le : ∀ t, s.phase = .snapshot t → s.prevTotal ≤ t ∧ t ≤ s.loadShed.requestsTotal
  requestsTotal : s.loadShed.requestsTotal = s.requests.countP MiddlewareCall.counted
  shedTotal : s.loadShed.shedTotal = s.requests.countP MiddlewareCall.shed

theorem ShedLedger.step {e : FeedbackEvent T} (h : ShedLedger s) (hm : Moves s e s') :
    ShedLedger s' := by
  cases hm with
  | hedgedCall | input | record | recordOp => exact { h with }
  | request =>
    exact { h with
      requestsTotal := by simpa [MiddlewareCall.counted] using h.requestsTotal
      shedTotal := by simpa [MiddlewareCall.shed] using h.shedTotal }
  | @middleware i x c c' t' hi hc =>
    obtain ⟨hreq, hshed, hreq_le, hshed_le⟩ := MiddlewareCall.step_totals hc
    have hcounted := Lib.countP_set_add MiddlewareCall.counted c' hi
    have hsheds := Lib.countP_set_add MiddlewareCall.shed c' hi
    have hr := h.requestsTotal
    have hs := h.shedTotal
    exact { h with
      prevTotal_le := h.prevTotal_le.trans hreq_le
      prevShed_le := h.prevShed_le.trans hshed_le
      snapshot_le := fun t ht => ⟨(h.snapshot_le t ht).1, (h.snapshot_le t ht).2.trans hreq_le⟩
      requestsTotal := by
        simp only
        omega
      shedTotal := by
        simp only
        omega }
  | tick hp =>
    exact { h with
      snapshot_le := by
        intro t ht
        obtain rfl := LoopPhase.snapshot.inj ht
        exact ⟨h.prevTotal_le, le_rfl⟩ }
  | @snapshot curTotal hp hidle =>
    obtain ⟨hlo, hhi⟩ := h.snapshot_le curTotal hp
    have hshed := h.prevShed_le
    exact { h with
      windowsTotal := by
        simp only [List.map_append, List.sum_append, h.windowsTotal, List.map_cons, List.map_nil,
          List.sum_singleton]
        omega
      windowsShed := by
        simp only [List.map_append, List.sum_append, h.windowsShed, List.map_cons, List.map_nil,
          List.sum_singleton]
        omega
      prevTotal_le := hhi
      prevShed_le := le_rfl
      snapshot_le := nofun }
  | store | clamp | drain | updateP95 => exact { h with snapshot_le := nofun }
  | drainSum =>
    exact { h with
      snapshot_le := by
        intro t ht
        simp only at ht
        split_ifs at ht }

theorem ShedLedger.run (h : Reached nominal evs s) : ShedLedger s := by
  refine Lib.Run.inv ?_ (fun s e s' hi hs => hi.step (step_moves hs)) h
  rintro s rfl
  exact ⟨rfl, rfl, le_rfl, le_rfl, nofun, rfl, rfl⟩

/-- Every request and every shed is in exactly one window or is still to be seen by the
loop, and of the shed requests all have been counted. -/
theorem windows_count_each_once (h : Reached nominal evs s) :
    (s.windows.map Prod.fst).sum + (s.loadShed.requestsTotal - s.prevTotal) =
        s.requests.countP MiddlewareCall.counted ∧
      (s.windows.map Prod.snd).sum + (s.loadShed.shedTotal - s.prevShed) =
        s.requests.countP MiddlewareCall.shed ∧
      (s.windows.map Prod.snd).sum ≤ s.requests.countP MiddlewareCall.counted := by
  have hl := ShedLedger.run h
  have hsheds : s.requests.countP MiddlewareCall.shed ≤ s.requests.countP MiddlewareCall.counted :=
    List.countP_mono_left fun c _ => MiddlewareCall.counted_of_shed
  have hprev := hl.prevTotal_le
  have hprevShed := hl.prevShed_le
  rw [hl.windowsTotal, hl.windowsShed, ← hl.requestsTotal, ← hl.shedTotal]
  rw [← hl.requestsTotal, ← hl.shedTotal] at hsheds
  omega

/-- A turn of the loop with nothing to drain. -/
def turn : List (FeedbackEvent Unit) := List.replicate 6 .loop

/-- Between the two loads of the snapshot the request that was counted is shed and another
one is counted. -/
def splitSnapshot : List (FeedbackEvent Unit) :=
  [.request, .middleware 0 .op, .loop, .middleware 0 .timeout, .middleware 0 .op,
   .request, .middleware 1 .op] ++ turn.tail ++ [.middleware 1 (.returns 503), .middleware 1 .op]

theorem windows_count_split_snapshot : ∃ s : FeedbackSystem Unit, Reached 10 splitSnapshot s ∧
    s.windows = [(1, 1)] ∧ s.requests.countP MiddlewareCall.counted = 2 ∧
    s.requests.countP MiddlewareCall.shed = 2 ∧ s.loadShed.requestsTotal - s.prevTotal = 1 ∧
    s.loadShed.shedTotal - s.prevShed = 1 := by
  obtain ⟨s, hrun, hw, hcounted, hshed⟩ := Lib.run_of_exec_any
    (P := fun s : FeedbackSystem Unit => s.windows = [(1, 1)] ∧
      s.requests.countP MiddlewareCall.counted = 2 ∧ s.requests.countP MiddlewareCall.shed = 2)
    (show (Lib.exec step (init 10) splitSnapshot).any _ = true by decide +kernel)
  obtain ⟨htotal, hsheds, -⟩ := windows_count_each_once hrun
  rw [hw, hcounted] at htotal
  rw [hw, hshed] at hsheds
  simp only [List.map_cons, List.map_nil, List.sum_singleton] at htotal hsheds
  exact ⟨s, hrun, hw, hcounted, hshed, by omega, by omega⟩

/-- The count that a drain has swapped out and not yet paired with a sum. -/
def swapped (s : FeedbackSystem T) : ℕ :=
  match s.phase with
  | .drainSum count => count
  | _ => 0

/-- Where the latency samples are: drained, in the hands of the drain or in the tracker. -/
structure SampleLedger (s : FeedbackSystem T) : Prop where
  count : (s.drained.map Prod.fst).sum + s.swapped + s.redisLatency.count =
    s.records.countP LatencyRecord.counted
  sumUs : (s.drained.map Prod.snd).sum + s.redisLatency.sumUs =
    (s.records.map LatencyRecord.summed).sum

theorem SampleLedger.step {e : FeedbackEvent T} (h : SampleLedger s) (hm : Moves s e s') :
    SampleLedger s' := by
  have hcount := h.count
  have hsum := h.sumUs
  cases hm with
  | hedgedCall | input | request | middleware => exact ⟨hcount, hsum⟩
  | record us =>
    refine ⟨hcount.trans ?_, hsum.trans ?_⟩
    · simp [LatencyRecord.counted]
    · simp [LatencyRecord.summed]
  | @recordOp i c c' t' hi hc =>
    obtain ⟨hn, hus⟩ := LatencyRecord.step_totals hc
    have hcounted := Lib.countP_set_add LatencyRecord.counted c' hi
    have hsummed := Lib.sum_map_set (y := c') LatencyRecord.summed hi
    have hswapped : swapped { s with redisLatency := t', records := s.records.set i c' } =
      s.swapped := rfl
    constructor
    · rw [hswapped]
      simp only
      omega
    · simp only
      omega
  | tick hp | snapshot hp | store hp | clamp hp | drain hp | updateP95 hp =>
    have hswapped : s.swapped = 0 := by rw [swapped, hp]
    rw [hswapped] at hcount
    exact ⟨hcount, hsum⟩
  | @drainSum count hp =>
    have hswapped : s.swapped = count := by rw [swapped, hp]
    rw [hswapped] at hcount
    constructor
    · simp only [swapped, List.map_append, List.sum_append, List.map_cons, List.map_nil,
        List.sum_singleton]
      split_ifs <;> simp only <;> omega
    · simp only [List.map_append, List.sum_append, List.map_cons, List.map_nil, List.sum_singleton]
      omega

theorem SampleLedger.run (h : Reached nominal evs s) : SampleLedger s := by
  refine Lib.Run.inv ?_ (fun s e s' hi hs => hi.step (step_moves hs)) h
  rintro s rfl
  exact ⟨rfl, rfl⟩

/-- A sample is counted at most once and summed at most once over all drains, also by drains
that fall between its two operations; with no record and no drain part-way nothing is
missing. -/
theorem samples_drained_once (h : Reached nominal evs s) :
    (s.drained.map Prod.fst).sum + s.swapped + s.redisLatency.count =
        s.records.countP LatencyRecord.counted ∧
      (s.drained.map Prod.snd).sum + s.redisLatency.sumUs =
        (s.records.map LatencyRecord.summed).sum ∧
      ((∀ c ∈ s.records, c.finished = true) → s.swapped = 0 →
        (s.drained.map Prod.fst).sum + s.redisLatency.count = s.records.length ∧
          (s.drained.map Prod.snd).sum + s.redisLatency.sumUs =
            (s.records.map LatencyRecord.us).sum) := by
  have hl := SampleLedger.run h
  refine ⟨hl.count, hl.sumUs, ?_⟩
  intro hdone hswapped
  have hcounted : s.records.countP LatencyRecord.counted = s.records.length :=
    List.countP_eq_length.2 fun c hc => LatencyRecord.counted_of_finished (hdone c hc)
  have hsummed : s.records.map LatencyRecord.summed = s.records.map LatencyRecord.us :=
    List.map_congr_left fun c hc => LatencyRecord.summed_of_finished (hdone c hc)
  have hcount := hl.count
  rw [hswapped, hcounted] at hcount
  exact ⟨hcount, hsummed ▸ hl.sumUs⟩

/-- The first drain falls between the two operations of a record. -/
def tornDrain : List (FeedbackEvent Unit) :=
  [.record 300, .recordOp 0] ++ turn ++ [.loop, .recordOp 0, .record 450, .recordOp 1, .recordOp 1]
    ++ turn ++ [.loop]

theorem samples_drained_torn : ∃ s : FeedbackSystem Unit, Reached 10 tornDrain s ∧
    s.drained = [(1, 0), (1, 750)] ∧ s.redisLatency.count = 0 ∧ s.redisLatency.sumUs = 0 := by
  obtain ⟨s, hrun, hdrained, hrecords, hphase⟩ := Lib.run_of_exec_any
    (P := fun s : FeedbackSystem Unit => s.drained = [(1, 0), (1, 750)] ∧
      s.records = [.done 300, .done 450] ∧ s.phase = .tick)
    (show (Lib.exec step (init 10) tornDrain).any _ = true by decide +kernel)
  obtain ⟨hcount, hsum⟩ := (samples_drained_once hrun).2.2 (by rw [hrecords]; decide)
    (by rw [swapped, hphase])
  rw [hdrained, hrecords] at hcount hsum
  simp only [List.map_cons, List.map_nil, List.sum_cons, List.sum_nil, List.length_cons,
    List.length_nil, LatencyRecord.us] at hcount hsum
  exact ⟨s, hrun, hdrained, by omega, by omega⟩

end Ledgers

section Hedge

/-- A step of the system is a step of the hedge budget or leaves it alone. -/
theorem hedge_step {e : FeedbackEvent T} (h : step s e = some s') :
    s'.hedge = s.hedge ∨ ∃ he, s.hedge.step he = some s'.hedge := by
  cases step_moves h with
  | hedgedCall => exact .inr ⟨.hedgedCall, rfl⟩
  | input hi hc => exact .inr ⟨_, HedgeSystem.step_input hi hc⟩
  | snapshot hp hidle => exact .inr ⟨.setLoadShedRate _, if_pos hidle⟩
  | store hp hf | clamp hp hf =>
    refine .inr ⟨.feedback, ?_⟩
    simp only [HedgeSystem.step, hf]
  | request | middleware | record | recordOp | tick | drain | drainSum | updateP95 => exact .inl rfl

/-- The budget has gone through a history of hedged calls and `set_load_shed_rate` calls. -/
theorem hedge_run (h : Reached nominal evs s) :
    ∃ hevs, HedgeSystem.Run nominal hevs s.hedge := by
  refine Lib.Run.inv (I := fun s => ∃ hevs, HedgeSystem.Run nominal hevs s.hedge) ?_ ?_ h
  · rintro s rfl
    exact ⟨[], .nil rfl⟩
  · rintro s e s' ⟨hevs, hrun⟩ hs
    rcases hedge_step hs with heq | ⟨he, hstep⟩
    · exact ⟨hevs, heq ▸ hrun⟩
    · exact ⟨hevs ++ [he], hrun.snoc hstep⟩

theorem hedge_bounded (h : Reached nominal evs s) : s.hedge.Bounded nominal := by
  obtain ⟨hevs, hrun⟩ := hedge_run h
  exact .run hrun

/-- The capacity that the last window asks for. -/
def asked (nominal : UInt64) (s : FeedbackSystem T) : UInt64 :=
  match s.windows.getLast? with
  | none => nominal
  | some w => (HedgeBudget.new nominal).effective (shedRate w.1 w.2)

theorem effective_new {b : HedgeBudget} (h : b.nominal = nominal) (rate : Lib.F64) :
    b.effective rate = (HedgeBudget.new nominal).effective rate := by
  subst h
  rfl

/-- The loop is in `set_load_shed_rate` with what the last window asks for, or the capacity
has been set to it. -/
structure Steered (nominal : UInt64) (s : FeedbackSystem T) : Prop where
  setRate : s.hedge.feedback ≠ .idle → s.phase = .setRate
  store : ∀ e, s.hedge.feedback = .store e → e = s.asked nominal
  cap : (∀ e, s.hedge.feedback ≠ .store e) → s.hedge.budget.effectiveCap = s.asked nominal

theorem Steered.step {e : FeedbackEvent T} (h : Steered nominal s) (hb : s.hedge.Bounded nominal)
    (hs : FeedbackSystem.step s e = some s') : Steered nominal s' := by
  cases step_moves hs with
  | hedgedCall | request | middleware | record | recordOp => exact { h with }
  | input hi hc =>
    have hcap := (HedgedCall.step_moves hc).effectiveCap
    exact { h with cap := fun hf => hcap.trans (h.cap hf) }
  | tick hp | drain hp | drainSum hp | updateP95 hp =>
    exact { h with
      setRate := by
        intro hne
        have hset := h.setRate hne
        rw [hp] at hset
        cases hset }
  | snapshot hp hidle =>
    exact
      { setRate := fun _ => rfl
        store := by
          intro e he
          rw [← Feedback.store.inj he, effective_new hb.nominal_eq]
          simp [asked]
        cap := fun hf => absurd rfl (hf _) }
  | @store e hp hf =>
    exact
      { setRate := fun _ => rfl
        store := nofun
        cap := fun _ => h.store e hf }
  | clamp hp hf =>
    exact
      { setRate := fun hne => absurd rfl hne
        store := nofun
        cap := fun _ => h.cap (by simp [hf]) }

theorem Steered.run (h : Reached nominal evs s) : Steered nominal s := by
  induction h with
  | nil h =>
    subst h
    exact ⟨fun hne => absurd rfl hne, nofun, fun _ => rfl⟩
  | snoc hrun hs ih => exact ih.step (hedge_bounded hrun) hs

/-- Whenever the loop is not in `set_load_shed_rate`, the capacity is zero, a fifth or all of
the nominal one as more than 5%, more than 1% or at most 1% of the requests of the last
window were shed, and all of it after a window without requests. With no restore part-way the
counter keeps to it. -/
theorem cap_follows_last_window {t d : ℕ} (h : Reached nominal evs s)
    (hn : nominal.toNat < 2 ^ 50) (hw : s.windows.getLast? = some (t, d)) (ht : t < 2 ^ 50)
    (hd : d < 2 ^ 50) (hp : s.phase ≠ .setRate) :
    s.hedge.budget.effectiveCap.toNat =
        (if 0 < t ∧ t < 20 * d then 0
          else if 0 < t ∧ t < 100 * d then nominal.toNat / 5
          else nominal.toNat) ∧
      ((∀ c ∈ s.hedge.calls, c.restoring = false) →
        s.hedge.budget.tokens ≤ s.hedge.budget.effectiveCap) := by
  have hsteered := Steered.run h
  have hidle : s.hedge.feedback = .idle := by
    by_contra hne
    exact hp (hsteered.setRate hne)
  constructor
  · have hcap := hsteered.cap (by simp [hidle])
    rw [hcap, asked, hw]
    exact HedgeBudget.effective_shedRate hn ht hd
  · intro hcalls
    by_contra hover
    rcases (hedge_bounded h).capped (UInt64.not_le.1 hover) with hf | ⟨c, hc, hclamps⟩
    · rw [hidle] at hf
      cases hf
    · have := hcalls c hc
      rw [hclamps.restoring] at this
      cases this

/-- One of two requests is shed before the loop turns. -/
def oneOfTwoShed : List (FeedbackEvent Unit) :=
  [.request, .request, .middleware 0 .op, .middleware 1 .op, .middleware 0 .timeout,
   .middleware 0 .op, .middleware 1 (.returns 200)] ++ turn

theorem cap_follows_shed_window : ∃ s : FeedbackSystem Unit, Reached 10 oneOfTwoShed s ∧
    s.windows.getLast? = some (2, 1) ∧ s.hedge.budget.effectiveCap.toNat = 0 := by
  obtain ⟨s, hrun, hw, hphase⟩ := Lib.run_of_exec_any
    (P := fun s : FeedbackSystem Unit => s.windows.getLast? = some (2, 1) ∧ s.phase = .tick)
    (show (Lib.exec step (init 10) oneOfTwoShed).any _ = true by decide +kernel)
  have hcap := (cap_follows_last_window hrun (by decide) hw (by norm_num) (by norm_num)
    (by rw [hphase]; decide)).1
  exact ⟨s, hrun, hw, hcap⟩

/-- No step of the system adds to the tokens of the counter and of the hedges in flight. -/
theorem available_le_of_step {e : FeedbackEvent T} (h : Reached nominal evs s)
    (hs : step s e = some s') : s'.hedge.available ≤ s.hedge.available := by
  rcases hedge_step hs with heq | ⟨he, hstep⟩
  · rw [heq]
  · exact (HedgeSystem.available_step (hedge_bounded h) hstep).1

theorem available_le_of_exec {later : List (FeedbackEvent T)} (h : Reached nominal evs s)
    (hl : Lib.exec step s later = some s') : s'.hedge.available ≤ s.hedge.available := by
  induction later generalizing evs s with
  | nil =>
    obtain rfl := Option.some.inj hl
    exact le_rfl
  | cons e later ih =>
    obtain ⟨s₁, hs, hl⟩ := Option.bind_eq_some_iff.1 hl
    exact (ih (h.snoc hs) hl).trans (available_le_of_step h hs)

/-- The clamp for a window with more than 5% shed leaves only the tokens in flight. -/
theorem available_clamp {t d : ℕ} (h : Reached nominal evs s)
    (hw : s.windows.getLast? = some (t, d)) (ht : t < 2 ^ 50) (hd : d < 2 ^ 50) (hpos : 0 < t)
    (hshed : t < 20 * d) (hclamp : s.hedge.feedback.partWay = true)
    (hs : step s .loop = some s') : s'.hedge.available = s.hedge.inFlight := by
  obtain ⟨e, hf⟩ : ∃ e, s.hedge.feedback = .clamp e := by
    cases hf : s.hedge.feedback with
    | clamp e => exact ⟨e, rfl⟩
    | idle | store => simp [hf, Feedback.partWay] at hclamp
  have hsteered := Steered.run h
  have hzero : e = 0 := by
    rw [← (hedge_bounded h).clamps e hf, hsteered.cap (by simp [hf]), asked, hw]
    exact HedgeBudget.effective_of_shed _ ht hd hpos hshed
  have hphase : s.phase = .setRate := hsteered.setRate (by simp [hf])
  simp only [step, loopStep, hphase, HedgeSystem.step, hf, Option.map_some,
    Option.some.injEq] at hs
  subst hs
  have hmin : (s.hedge.budget.fetchMin e).tokens.toNat = 0 := by
    rw [hzero, HedgeBudget.fetchMin, UInt64.toNat_min]
    exact Nat.min_zero _
  exact (congrArg (· + s.hedge.inFlight) hmin).trans (Nat.zero_add _)

/-- Once the loop has clamped the counter for a window with more than 5% shed, there are
never again more hedges in flight than at that moment, whatever the rates after it; with
none in flight, no call ever hedges again. -/
theorem shed_window_stops_hedges {t d : ℕ} {s₁ s₂ : FeedbackSystem T}
    {later : List (FeedbackEvent T)} (h : Reached nominal evs s)
    (hw : s.windows.getLast? = some (t, d)) (ht : t < 2 ^ 50) (hd : d < 2 ^ 50) (hpos : 0 < t)
    (hshed : t < 20 * d) (hclamp : s.hedge.feedback.partWay = true) (hs : step s .loop = some s₁)
    (hl : Lib.exec step s₁ later = some s₂) :
    s₂.hedge.budget.tokens.toNat + s₂.hedge.inFlight ≤ s.hedge.inFlight ∧
      (s.hedge.inFlight = 0 → ∀ c ∈ s₂.hedge.calls, c ≠ .hedged) := by
  have hle := available_le_of_exec (h.snoc hs) hl
  rw [available_clamp h hw ht hd hpos hshed hclamp hs] at hle
  have hsum : s₂.hedge.available = s₂.hedge.budget.tokens.toNat + s₂.hedge.inFlight := rfl
  refine ⟨hsum ▸ hle, ?_⟩
  rintro hzero c hc rfl
  have hheld : (HedgedCall.hedged : HedgedCall T).held ≤ s₂.hedge.inFlight :=
    List.le_sum_of_mem (List.mem_map_of_mem hc)
  simp only [HedgedCall.held] at hheld
  omega

/-- A full turn without requests, and a call that would hedge. -/
def laterCall : List (FeedbackEvent Unit) :=
  turn.take 2 ++ turn ++ [.hedgedCall, .input 0 (.trigger true), .input 0 (.op false)]

theorem shed_window_stops_later_call : ∃ s s₁ s₂ : FeedbackSystem Unit,
    Reached 10 (oneOfTwoShed.take 10) s ∧ step s .loop = some s₁ ∧
    Lib.exec step s₁ laterCall = some s₂ ∧ s₂.hedge.budget.effectiveCap = 10 ∧
    s₂.hedge.budget.tokens.toNat + s₂.hedge.inFlight ≤ 0 ∧ ∀ c ∈ s₂.hedge.calls, c ≠ .hedged := by
  obtain ⟨s, hrun, hw, hclamp, hflight, hlater⟩ := Lib.run_of_exec_any
    (P := fun s : FeedbackSystem Unit => s.windows.getLast? = some (2, 1) ∧
      s.hedge.feedback.partWay = true ∧ s.hedge.inFlight = 0 ∧
      (Lib.exec step s (.loop :: laterCall)).any
        (fun s₂ => decide (s₂.hedge.budget.effectiveCap = 10)) = true)
    (show (Lib.exec step (init 10) (oneOfTwoShed.take 10)).any _ = true by decide +kernel)
  obtain ⟨s₂, hexec, hcap⟩ := (Option.any_eq_true _ _).1 hlater
  obtain ⟨s₁, hs, hl⟩ := Option.bind_eq_some_iff.1 hexec
  obtain ⟨hle, hnone⟩ := shed_window_stops_hedges hrun hw (by norm_num) (by norm_num) (by norm_num)
    (by norm_num) hclamp hs hl
  exact ⟨s, s₁, s₂, hrun, hs, hl, of_decide_eq_true hcap, hflight ▸ hle, hnone hflight⟩

end Hedge

end FeedbackSystem

end RTB
