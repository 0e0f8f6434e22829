import RtbBidder.Lib.Hysteresis
import RtbBidder.Spec.MonitorTicks

/-! The incident monitor as a signal with hysteresis: its two counters are the lengths of the
runs that the ticks so far end with, and its policy is decided by the last run that reached
the dwell. -/

namespace RTB

namespace Monitor

open Lib (Ends LastRunTrue)

variable {cfg : MonitorConfig} {last cur first : ℕ × ℕ} {snaps : List (ℕ × ℕ)} {l : List Bool}

/-- The drops of a tick as a share of its events, 0 if it is idle. -/
def tickRate (last cur : ℕ × ℕ) : ℚ :=
  let drops : ℚ := cur.2 - last.2
  let events : ℚ := (cur.1 - last.1) + drops
  if events = 0 then 0 else drops / events

/-- For each tick whether its rate is over the threshold. -/
def classify (cfg : MonitorConfig) : ℕ × ℕ → List (ℕ × ℕ) → List Bool
  | _, [] => []
  | last, cur :: rest => decide (cfg.threshold < tickRate last cur) :: classify cfg cur rest

/-- Totals that do not go down. -/
def Later (last cur : ℕ × ℕ) : Prop := last.1 ≤ cur.1 ∧ last.2 ≤ cur.2

def Below63 (snap : ℕ × ℕ) : Prop := snap.1 < 2 ^ 63 ∧ snap.2 < 2 ^ 63

theorem dropRate_eq_tickRate (h : Later last cur) : dropRate last cur = tickRate last cur := by
  simp only [dropRate, tickRate]
  rw [← Nat.cast_sub h.1, ← Nat.cast_sub h.2, ← Nat.cast_add]
  simp only [Nat.cast_eq_zero]

theorem dropRateU64_eq_dropRate (h : Below63 cur) : dropRateU64 last cur = dropRate last cur := by
  have hsum : (cur.1 - last.1 + (cur.2 - last.2)) % 2 ^ 64 = cur.1 - last.1 + (cur.2 - last.2) := by
    obtain ⟨h1, h2⟩ := h
    exact Nat.mod_eq_of_lt (by omega)
  simp only [dropRateU64, dropRate, hsum]

/-- On such totals a turn of the loop is a tick of the monitor beside the publisher. -/
theorem tickAt_eq_tick (h : Below63 cur) (s : KafkaIncidentState × Monitor) :
    tickAt cfg s cur =
      s.2.tick cfg { s.1 with publishedTotal := cur.1, droppedTotal := cur.2 } := by
  rw [tickAt, dropRateU64_eq_dropRate h]
  rfl

/-- What the loop knows after ticks classified as `l`. -/
structure Tracks (cfg : MonitorConfig) (l : List Bool) (s : KafkaIncidentState × Monitor) : Prop where
  autoFlip : s.1.autoFlip = true
  basePolicy : s.1.basePolicy = .Newest
  overCount : ∀ d < 2 ^ 32, d ≤ s.2.overCount ↔ Ends d true l
  underCount : ∀ d < 2 ^ 32, d ≤ s.2.underCount ↔ Ends d false l
  inIncident : s.2.inIncident = true ↔ LastRunTrue cfg.dwellTicks.toNat l
  effective : s.1.effective = if s.2.inIncident then .RandomSample else .Newest

/-- A counter that goes on counting, up to its saturation. -/
theorem saturatingSucc_ends {n : ℕ} {b : Bool} (h : ∀ d < 2 ^ 32, d ≤ n ↔ Ends d b l) :
    ∀ d < 2 ^ 32, d ≤ saturatingSucc n ↔ Ends d b (l ++ [b]) := by
  intro d hd
  cases d with
  | zero => exact iff_of_true (Nat.zero_le _) List.nil_suffix
  | succ d =>
    rw [Lib.ends_succ_concat, ← h d (by omega), saturatingSucc, eq_self_iff_true, true_and]
    omega

/-- A counter that starts again. -/
theorem zero_ends {b c : Bool} (hne : c ≠ b) : ∀ d < 2 ^ 32, d ≤ 0 ↔ Ends d b (l ++ [c]) := by
  intro d _
  cases d with
  | zero => exact iff_of_true le_rfl List.nil_suffix
  | succ d =>
    rw [Lib.ends_succ_concat]
    exact iff_of_false (Nat.not_succ_le_zero d) fun h => hne h.1

theorem countTick_counts {s : KafkaIncidentState × Monitor} (h : Tracks cfg l s) (rate : ℚ) :
    let b := decide (cfg.threshold < rate)
    let m := countTick cfg rate s.2
    m.inIncident = s.2.inIncident ∧ (∀ d < 2 ^ 32, d ≤ m.overCount ↔ Ends d true (l ++ [b])) ∧
      ∀ d < 2 ^ 32, d ≤ m.underCount ↔ Ends d false (l ++ [b]) := by
  intro b m
  by_cases hover : cfg.threshold < rate
  · simp only [m, b, countTick, if_pos hover, decide_eq_true hover]
    exact ⟨trivial, saturatingSucc_ends h.overCount, zero_ends (by decide)⟩
  · simp only [m, b, countTick, if_neg hover, decide_eq_false hover]
    exact ⟨trivial, zero_ends (by decide), saturatingSucc_ends h.underCount⟩

theorem flipPolicy_tracks (hdwell : 0 < cfg.dwellTicks.toNat) {st : KafkaIncidentState} {m : Monitor}
    {b : Bool} (hauto : st.autoFlip = true) (hbase : st.basePolicy = .Newest)
    (hover : ∀ d < 2 ^ 32, d ≤ m.overCount ↔ Ends d true (l ++ [b]))
    (hunder : ∀ d < 2 ^ 32, d ≤ m.underCount ↔ Ends d false (l ++ [b]))
    (hincident : m.inIncident = true ↔ LastRunTrue cfg.dwellTicks.toNat l)
    (heff : st.effective = if m.inIncident then .RandomSample else .Newest) :
    Tracks cfg (l ++ [b]) (flipPolicy cfg st m) := by
  have hd : cfg.dwellTicks.toNat < 2 ^ 32 := cfg.dwellTicks.toNat_lt
  have hover' := hover _ hd
  have hunder' := hunder _ hd
  unfold flipPolicy
  split_ifs with hstart hend
  · exact ⟨hauto, hbase, hover, hunder,
      iff_of_true rfl (Lib.lastRunTrue_of_ends hdwell (hover'.1 hstart.2)), rfl⟩
  · exact ⟨hauto, hbase, hover, hunder,
      iff_of_false Bool.false_ne_true (Lib.not_lastRunTrue_of_ends hdwell (hunder'.1 hend.2)), hbase⟩
  · refine ⟨hauto, hbase, hover, hunder, ?_, heff⟩
    rw [hover'] at hstart
    rw [hunder'] at hend
    -- a run that ends here agrees with the incident, or else the tick completes no run
    cases hm : m.inIncident with
    | true =>
      have hno : ¬ Ends cfg.dwellTicks.toNat false (l ++ [b]) := fun h => hend ⟨hm, h⟩
      refine iff_of_true rfl ?_
      by_cases hrun : Ends cfg.dwellTicks.toNat true (l ++ [b])
      · exact Lib.lastRunTrue_of_ends hdwell hrun
      · exact (Lib.lastRunTrue_concat hrun hno).2 (hincident.1 hm)
    | false =>
      have hno : ¬ Ends cfg.dwellTicks.toNat true (l ++ [b]) := fun h => hstart ⟨hm, h⟩
      refine iff_of_false Bool.false_ne_true ?_
      by_cases hrun : Ends cfg.dwellTicks.toNat false (l ++ [b])
      · exact Lib.not_lastRunTrue_of_ends hdwell hrun
      · rw [Lib.lastRunTrue_concat hno hrun, ← hincident, hm]
        exact Bool.false_ne_true

theorem Tracks.tickAt (hdwell : 0 < cfg.dwellTicks.toNat) {s : KafkaIncidentState × Monitor}
    (h : Tracks cfg l s) (snap : ℕ × ℕ) :
    Tracks cfg (l ++ [decide (cfg.threshold < dropRateU64 s.2.last snap)])
      (Monitor.tickAt cfg s snap) := by
  have hm : Tracks cfg l (s.1, { s.2 with last := snap }) :=
    ⟨h.autoFlip, h.basePolicy, h.overCount, h.underCount, h.inIncident, h.effective⟩
  obtain ⟨hincident, hover, hunder⟩ := countTick_counts hm (dropRateU64 s.2.last snap)
  have hflip : Monitor.tickAt cfg s snap = flipPolicy cfg
      { s.1 with publishedTotal := snap.1, droppedTotal := snap.2 }
      (countTick cfg (dropRateU64 s.2.last snap) { s.2 with last := snap }) :=
    if_neg (by rw [h.autoFlip]; decide)
  rw [hflip]
  refine flipPolicy_tracks hdwell h.autoFlip h.basePolicy hover hunder ?_ ?_
  · rw [hincident]
    exact h.inIncident
  · rw [hincident]
    exact h.effective

theorem tickAt_last (s : KafkaIncidentState × Monitor) (snap : ℕ × ℕ) :
    (tickAt cfg s snap).2.last = snap := by
  unfold tickAt flipPolicy countTick
  dsimp only
  split_ifs <;> rfl

/-- The whole run, from any tick on. -/
theorem tracks_foldl (hdwell : 0 < cfg.dwellTicks.toNat) {s : KafkaIncidentState × Monitor}
    (h : Tracks cfg l s) (hlast : s.2.last = last) (hlater : (last :: snaps).IsChain Later)
    (hbelow : ∀ snap ∈ snaps, Below63 snap) :
    Tracks cfg (l ++ classify cfg last snaps) (snaps.foldl (tickAt cfg) s) := by
  induction snaps generalizing l s last with
  | nil => rwa [classify, List.append_nil]
  | cons cur snaps ih =>
    obtain ⟨hcur, hrest⟩ := List.isChain_cons_cons.1 hlater
    obtain ⟨hcur63, hbelow⟩ := List.forall_mem_cons.1 hbelow
    have htick := h.tickAt hdwell cur
    rw [hlast, dropRateU64_eq_dropRate hcur63, dropRate_eq_tickRate hcur] at htick
    have htail := ih htick (tickAt_last s cur) hrest hbelow
    rwa [List.append_assoc, List.singleton_append] at htail

theorem tracks_spawn (hdwell : 0 < cfg.dwellTicks.toNat) (first : ℕ × ℕ) :
    Tracks cfg [] (spawn .IncidentMode first) := by
  have hzero (b : Bool) : ∀ d < 2 ^ 32, d ≤ 0 ↔ Ends d b [] := by
    intro d _
    rw [Ends, List.suffix_nil, List.replicate_eq_nil_iff, Nat.le_zero]
  refine ⟨rfl, rfl, hzero true, hzero false, iff_of_false Bool.false_ne_true ?_, rfl⟩
  rintro ⟨pre, post, hnil, -⟩
  have hlen := congrArg List.length hnil
  rw [List.length_append, List.length_append, List.length_replicate, List.length_nil] at hlen
  omega

theorem classify_take (n : ℕ) :
    (classify cfg first snaps).take n = classify cfg first (snaps.take n) := by
  induction snaps generalizing first n with
  | nil => simp [classify]
  | cons cur snaps ih =>
    cases n with
    | zero => rfl
    | succ n => rw [classify, List.take_succ_cons, List.take_succ_cons, classify, ih]

theorem length_classify : (classify cfg first snaps).length = snaps.length := by
  induction snaps generalizing first with
  | nil => rfl
  | cons cur snaps ih => rw [classify, List.length_cons, List.length_cons, ih]

theorem tracks_ticks (hdwell : 0 < cfg.dwellTicks.toNat) (hlater : (first :: snaps).IsChain Later)
    (hbelow : ∀ snap ∈ snaps, Below63 snap) (n : ℕ) :
    Tracks cfg ((classify cfg first snaps).take n) (ticks cfg .IncidentMode first (snaps.take n)) := by
  rw [classify_take]
  refine tracks_foldl hdwell (tracks_spawn hdwell first) rfl ?_ fun snap hsnap =>
    hbelow snap (List.mem_of_mem_take hsnap)
  exact hlater.take (n + 1)

theorem monitor_hysteresis (cfg : MonitorConfig) (hdwell : 1 ≤ cfg.dwellTicks.toNat)
    (first : ℕ × ℕ) (snaps : List (ℕ × ℕ)) (hlater : (first :: snaps).IsChain Later)
    (hbelow : ∀ snap ∈ first :: snaps, Below63 snap) :
    let dwell := cfg.dwellTicks.toNat
    let ticksOver := classify cfg first snaps
    let policy (n : ℕ) := (ticks cfg .IncidentMode first (snaps.take n)).1.effective
    (∀ n ≤ snaps.length,
      (policy n = .RandomSample ↔ LastRunTrue dwell (ticksOver.take n)) ∧
      (policy n ≠ .RandomSample → policy n = .ofDropPolicy .IncidentMode)) ∧
    ∀ i j, i < j → j < snaps.length → policy (i + 1) ≠ policy i → policy (j + 1) ≠ policy j →
      i + dwell ≤ j := by
  intro dwell ticksOver policy
  have hpolicy (n : ℕ) : (policy n = .RandomSample ↔ LastRunTrue dwell (ticksOver.take n)) ∧
      (policy n ≠ .RandomSample → policy n = .ofDropPolicy .IncidentMode) := by
    have htracks := tracks_ticks hdwell hlater (List.forall_mem_cons.1 hbelow).2 n
    have heff : policy n = _ := htracks.effective
    rw [← htracks.inIncident, heff]
    split_ifs with hin
    · exact ⟨iff_of_true rfl hin, fun hne => absurd rfl hne⟩
    · exact ⟨iff_of_false (by decide) hin, fun _ => rfl⟩
  -- a policy that changes is a signal that changes
  have hchange (n : ℕ) (hne : policy (n + 1) ≠ policy n) :
      ¬ (Lib.Signal dwell ticksOver (n + 1) ↔ Lib.Signal dwell ticksOver n) := by
    rw [Lib.Signal, Lib.Signal, ← (hpolicy (n + 1)).1, ← (hpolicy n).1]
    intro hiff
    by_cases hn : policy n = .RandomSample
    · exact hne ((hiff.2 hn).trans hn.symm)
    · exact hne (((hpolicy (n + 1)).2 (mt hiff.1 hn)).trans ((hpolicy n).2 hn).symm)
  refine ⟨fun n _ => hpolicy n, ?_⟩
  intro i j hij hj hi hj'
  refine Lib.changes_apart hdwell hij ?_ (hchange i hi) (hchange j hj')
  rw [length_classify]
  exact hj

/-- Ticks of ten events each; the first two drop five, the next two drop none. -/
def sampleSnaps : List (ℕ × ℕ) := [(5, 5), (10, 10), (20, 10), (30, 10)]

theorem monitor_hysteresis_two_ticks :
    let policy (n : ℕ) := (ticks ⟨2, 1 / 100⟩ .IncidentMode (0, 0) (sampleSnaps.take n)).1.effective
    policy 2 = .RandomSample ∧ policy 3 = .RandomSample ∧ policy 4 = .Newest ∧
      LastRunTrue 2 ((classify ⟨2, 1 / 100⟩ (0, 0) sampleSnaps).take 3) := by
  intro policy
  have hlater : ((0, 0) :: sampleSnaps).IsChain Later := by
    simp [sampleSnaps, Later]
  have hbelow : ∀ snap ∈ (0, 0) :: sampleSnaps, Below63 snap := by
    simp [sampleSnaps, Below63]
  have hpolicy := (monitor_hysteresis ⟨2, 1 / 100⟩ (by decide) (0, 0) sampleSnaps hlater hbelow).1
  have hthree : policy 3 = .RandomSample := by decide +kernel
  exact ⟨by decide +kernel, hthree, by decide +kernel, (hpolicy 3 (by decide)).1.1 hthree⟩

end Monitor

end RTB
