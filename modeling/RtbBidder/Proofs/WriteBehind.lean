import RtbBidder.Lib.Tasks
import RtbBidder.Spec.CapSystem

/-! What the write-behind drain forwards: one event for each recorded impression,
and one more for each cached campaign of each evicted user. -/

namespace RTB

namespace CapSystem

variable {s s' : CapSystem} {e : CapEvent} {u : String} {c : CampaignId}

/-- An impression of `user` and `campaign` is one of `u` and `c`. -/
def hits (u : String) (c : CampaignId) (user : String) (campaign : CampaignId) : Bool :=
  decide (user = u ∧ campaign = c)

/-- The `record_impression` calls made for a user and campaign. -/
def recordedFor (s : CapSystem) (u : String) (c : CampaignId) : ℕ :=
  s.records.countP fun r => hits u c r.userId r.campaignId

/-- The events the drain has forwarded for a user and campaign. -/
def forwardedFor (s : CapSystem) (u : String) (c : CampaignId) : ℕ :=
  s.forwarded.countP fun e => hits u c e.userId e.campaignId

def NoDrops (s : CapSystem) : Prop := s.writes.dropped = 0 ∧ s.recorder.dropped = 0

instance (s : CapSystem) : Decidable s.NoDrops := inferInstanceAs (Decidable (_ ∧ _))

/-- The eviction listener does not find `c` in an evicted map of `u` in this step. -/
def NoFlush (u : String) (c : CampaignId) (s : CapSystem) : CapEvent → Prop
  | .flush k => ∀ ev ∈ s.evicted[k]?, ev.1 = u → ∀ m ∈ s.mapAt ev.2, c ∉ m
  | _ => True

/-- The call has still to send its day write. -/
def RecordPhase.unsent : RecordPhase → Bool
  | .got _ => true
  | .counted => true
  | _ => false

def unsentFor (s : CapSystem) (u : String) (c : CampaignId) : ℕ :=
  s.records.countP fun r => hits u c r.userId r.campaignId && RecordPhase.unsent r.phase

def isDayOp (u : String) (c : CampaignId) (op : WriteBehindOp) : Bool :=
  hits u c op.userId op.campaignId && decide (op.window = .Day)

/-- Impressions of `u` and `c` on their way to the recorder or already there. -/
def underway (s : CapSystem) (u : String) (c : CampaignId) : ℕ :=
  s.forwardedFor u c + s.writes.items.countP (isDayOp u c) + s.unsentFor u c

theorem getWith_frame (s : CapSystem) (u : String) :
    (s.getWith u).2.writes = s.writes ∧ (s.getWith u).2.recorder = s.recorder ∧
      (s.getWith u).2.records = s.records ∧ (s.getWith u).2.forwarded = s.forwarded := by
  unfold getWith
  split <;> exact ⟨rfl, rfl, rfl, rfl⟩

theorem stepCheck_frame (s : CapSystem) (ck : CheckCall) :
    (s.stepCheck ck).2.writes = s.writes ∧ (s.stepCheck ck).2.recorder = s.recorder ∧
      (s.stepCheck ck).2.records = s.records ∧ (s.stepCheck ck).2.forwarded = s.forwarded := by
  unfold stepCheck
  split
  case h_4 =>
    split_ifs
    · exact getWith_frame s ck.userId
    · exact ⟨rfl, rfl, rfl, rfl⟩
  case h_3 => split <;> exact ⟨rfl, rfl, rfl, rfl⟩
  all_goals exact ⟨rfl, rfl, rfl, rfl⟩

/-- The listener sends one day write for each campaign in the map. -/
theorem countP_flushOps (u u' : String) (c : CampaignId) (m : UserCapMap) :
    (flushOps u' m).countP (isDayOp u c) = if u' = u ∧ c ∈ m then 1 else 0 := by
  have hnd := m.keys_nodup
  have hmem : c ∈ m ↔ c ∈ m.keys := AList.mem_keys.symm
  simp only [flushOps, hmem]
  generalize m.keys = l at hnd
  induction l with
  | nil => simp
  | cons a l ih =>
    obtain ⟨ha, hl⟩ := List.nodup_cons.1 hnd
    rw [List.flatMap_cons, List.countP_append, ih hl]
    by_cases hu : u' = u
    · by_cases hc : a = c
      · subst hc hu
        simp [ha, isDayOp, hits]
      · simp [hu, hc, Ne.symm hc, isDayOp, hits]
    · simp [hu, isDayOp, hits]

theorem dropped_mono (hs : s.step e = some s') :
    s.writes.dropped ≤ s'.writes.dropped ∧ s.recorder.dropped ≤ s'.recorder.dropped := by
  cases e with
  | callRecord u c =>
    obtain rfl := Option.some.inj hs
    obtain ⟨hw, hr, -⟩ := getWith_frame s u
    exact ⟨hw ▸ le_rfl, hr ▸ le_rfl⟩
  | stepRecord i =>
    obtain ⟨r, -, rfl⟩ := Option.map_eq_some_iff.1 hs
    simp only [stepRecord]
    split
    · exact ⟨le_rfl, le_rfl⟩
    · exact ⟨Lib.Channel.dropped_le_trySend _ _, le_rfl⟩
    · exact ⟨Lib.Channel.dropped_le_trySend _ _, le_rfl⟩
    · exact ⟨le_rfl, le_rfl⟩
  | callCheck u cands =>
    obtain rfl := Option.some.inj hs
    exact ⟨le_rfl, le_rfl⟩
  | stepCheck i =>
    obtain ⟨ck, -, rfl⟩ := Option.map_eq_some_iff.1 hs
    obtain ⟨hw, hr, -⟩ := stepCheck_frame s ck
    exact ⟨hw ▸ le_rfl, hr ▸ le_rfl⟩
  | skipFallback i =>
    simp only [step] at hs
    split at hs
    · obtain rfl := Option.some.inj hs
      exact ⟨le_rfl, le_rfl⟩
    · cases hs
  | evict u =>
    obtain ⟨i, -, rfl⟩ := Option.map_eq_some_iff.1 hs
    exact ⟨le_rfl, le_rfl⟩
  | flush k =>
    obtain ⟨ev, -, rfl⟩ := Option.map_eq_some_iff.1 hs
    exact ⟨Lib.Channel.dropped_le_sendAll _ _, le_rfl⟩
  | drain =>
    obtain ⟨⟨op, rest⟩, hrecv, rfl⟩ := Option.map_eq_some_iff.1 hs
    have hw := (Lib.Channel.recv_eq_some hrecv).2
    split_ifs
    · exact ⟨hw.ge, Lib.Channel.dropped_le_trySend _ _⟩
    · exact ⟨hw.ge, le_rfl⟩
  | win event =>
    obtain rfl := Option.some.inj hs
    exact ⟨le_rfl, Lib.Channel.dropped_le_trySend _ _⟩
  | take =>
    obtain ⟨⟨ev, rest⟩, hrecv, rfl⟩ := Option.map_eq_some_iff.1 hs
    exact ⟨le_rfl, (Lib.Channel.recv_eq_some hrecv).2.ge⟩
  | write i =>
    obtain ⟨w, -, rfl⟩ := Option.map_eq_some_iff.1 hs
    exact ⟨le_rfl, le_rfl⟩

/-- The step moves impressions of `u` and `c` along, and adds `n` of its own. -/
def Moves (u : String) (c : CampaignId) (s s' : CapSystem) (n : ℕ) : Prop :=
  s'.underway u c + s.recordedFor u c = s.underway u c + s'.recordedFor u c + n

/-- A step that leaves queues and calls alone. -/
theorem Moves.of_frame (hw : s'.writes = s.writes) (hr : s'.records = s.records)
    (hf : s'.forwarded = s.forwarded) : Moves u c s s' 0 := by
  simp only [Moves, underway, forwardedFor, unsentFor, recordedFor, hw, hr, hf]
  omega

theorem stepRecord_moves {i : ℕ} (hs : s.step (.stepRecord i) = some s') (hd : s'.NoDrops) :
    Moves u c s s' 0 := by
  obtain ⟨⟨ru, rc, phase⟩, hi, rfl⟩ := Option.map_eq_some_iff.1 hs
  have hrec := fun b => Lib.countP_set_add (fun r => hits u c r.userId r.campaignId) b hi
  have huns := fun b =>
    Lib.countP_set_add (fun r => hits u c r.userId r.campaignId && RecordPhase.unsent r.phase) b hi
  cases phase with
  | got m =>
    have h1 := hrec ⟨ru, rc, .counted⟩
    have h2 := huns ⟨ru, rc, .counted⟩
    simp only [Moves, underway, stepRecord, modifyMap, recordedFor, unsentFor, forwardedFor,
      RecordPhase.unsent, Bool.and_true] at h1 h2 ⊢
    omega
  | counted =>
    have h1 := hrec ⟨ru, rc, .daySent⟩
    have h2 := huns ⟨ru, rc, .daySent⟩
    have hitems : (s.writes.trySend ⟨ru, rc, .Day⟩).2.items = s.writes.items ++ [⟨ru, rc, .Day⟩] :=
      Lib.Channel.items_trySend hd.1
    have hday : isDayOp u c ⟨ru, rc, .Day⟩ = hits u c ru rc := by simp [isDayOp]
    simp only [Moves, underway, stepRecord, trySend, recordedFor, unsentFor, forwardedFor,
      RecordPhase.unsent, hitems, List.countP_append, List.countP_singleton, hday,
      Bool.and_true, Bool.and_false, Bool.false_eq_true, if_false] at h1 h2 ⊢
    omega
  | daySent =>
    have h1 := hrec ⟨ru, rc, .returned⟩
    have h2 := huns ⟨ru, rc, .returned⟩
    have hitems : (s.writes.trySend ⟨ru, rc, .Hour⟩).2.items =
        s.writes.items ++ [⟨ru, rc, .Hour⟩] := Lib.Channel.items_trySend hd.1
    have hday : isDayOp u c ⟨ru, rc, .Hour⟩ = false := by simp [isDayOp]
    simp only [Moves, underway, stepRecord, trySend, recordedFor, unsentFor, forwardedFor,
      RecordPhase.unsent, hitems, List.countP_append, List.countP_singleton, hday,
      Bool.and_false, Bool.false_eq_true, if_false] at h1 h2 ⊢
    omega
  | returned =>
    have h1 := hrec ⟨ru, rc, .returned⟩
    have h2 := huns ⟨ru, rc, .returned⟩
    simp only [Moves, underway, stepRecord, recordedFor, unsentFor, forwardedFor] at h1 h2 ⊢
    omega

theorem drain_moves (hs : s.step .drain = some s') (hd : s'.NoDrops) : Moves u c s s' 0 := by
  obtain ⟨⟨op, rest⟩, hrecv, rfl⟩ := Option.map_eq_some_iff.1 hs
  have hitems := (Lib.Channel.recv_eq_some hrecv).1
  by_cases hday : op.window = .Day
  · simp only [hday, if_true] at hd ⊢
    have hsent : (s.recorder.trySend (drainEvent op)).1 = true := by
      rcases Lib.Channel.trySend_cases s.recorder (drainEvent op) with ⟨h, -, -⟩ | ⟨-, -, h⟩
      · exact h
      · exact absurd (h.symm.trans hd.2) (Nat.succ_ne_zero _)
    have hop : isDayOp u c op = hits u c (drainEvent op).userId (drainEvent op).campaignId := by
      simp [isDayOp, drainEvent, hday]
    simp only [Moves, underway, recordedFor, unsentFor, forwardedFor, hitems, hsent, if_true,
      List.countP_append, List.countP_cons, List.countP_nil, hop]
    omega
  · simp only [hday, if_false, Moves, underway, recordedFor, unsentFor, forwardedFor, hitems,
      List.countP_cons, isDayOp, decide_false, Bool.and_false, Bool.false_eq_true, if_false]
    omega

/-- Every step moves impressions along; only the eviction listener, on a map of `u` that
holds `c`, adds one. -/
theorem step_moves (hs : s.step e = some s') (hd : s'.NoDrops) :
    ∃ n, Moves u c s s' n ∧ (n = 0 ↔ NoFlush u c s e) := by
  cases e with
  | callRecord u' c' =>
    obtain rfl := Option.some.inj hs
    obtain ⟨hw, -, hr, hf⟩ := getWith_frame s u'
    refine ⟨0, ?_, iff_of_true rfl trivial⟩
    simp only [Moves, underway, recordedFor, unsentFor, forwardedFor, hw, hr, hf,
      List.countP_append, List.countP_singleton, RecordPhase.unsent, Bool.and_true]
    omega
  | stepRecord i => exact ⟨0, stepRecord_moves hs hd, iff_of_true rfl trivial⟩
  | callCheck u' cands =>
    obtain rfl := Option.some.inj hs
    exact ⟨0, .of_frame rfl rfl rfl, iff_of_true rfl trivial⟩
  | stepCheck i =>
    obtain ⟨ck, -, rfl⟩ := Option.map_eq_some_iff.1 hs
    obtain ⟨hw, -, hr, hf⟩ := stepCheck_frame s ck
    exact ⟨0, .of_frame hw hr hf, iff_of_true rfl trivial⟩
  | skipFallback i =>
    simp only [step] at hs
    split at hs
    · obtain rfl := Option.some.inj hs
      exact ⟨0, .of_frame rfl rfl rfl, iff_of_true rfl trivial⟩
    · cases hs
  | evict u' =>
    obtain ⟨i, -, rfl⟩ := Option.map_eq_some_iff.1 hs
    exact ⟨0, .of_frame rfl rfl rfl, iff_of_true rfl trivial⟩
  | flush k =>
    obtain ⟨ev, hev, rfl⟩ := Option.map_eq_some_iff.1 hs
    have hitems := Lib.Channel.items_sendAll hd.1
    refine ⟨((((s.mapAt ev.2).map (flushOps ev.1)).getD []).countP (isDayOp u c)), ?_, ?_⟩
    · simp only [Moves, underway, recordedFor, unsentFor, forwardedFor, hitems, List.countP_append]
      omega
    · cases hm : s.mapAt ev.2 with
      | none => simp [NoFlush, hev, hm]
      | some m => simp [NoFlush, hev, hm, countP_flushOps]
  | drain => exact ⟨0, drain_moves hs hd, iff_of_true rfl trivial⟩
  | win event =>
    obtain rfl := Option.some.inj hs
    exact ⟨0, .of_frame rfl rfl rfl, iff_of_true rfl trivial⟩
  | take =>
    obtain ⟨r, -, rfl⟩ := Option.map_eq_some_iff.1 hs
    exact ⟨0, .of_frame rfl rfl rfl, iff_of_true rfl trivial⟩
  | write i =>
    obtain ⟨w, -, rfl⟩ := Option.map_eq_some_iff.1 hs
    exact ⟨0, .of_frame rfl rfl rfl, iff_of_true rfl trivial⟩

/-- Over a whole run: what is underway exceeds what was recorded by the entries that
the listener flushed. -/
theorem run_underway {cap : ℕ} {redis : String → Option ℤ} {evs : List CapEvent}
    (h : Reached cap redis evs s) (hd : s.NoDrops) :
    ∃ n, s.underway u c = s.recordedFor u c + n ∧
      (n = 0 ↔ Lib.Run (· = init cap redis) (Lib.Guarded (NoFlush u c) (Lib.Steps step)) evs s) := by
  induction h with
  | nil h0 =>
    subst h0
    exact ⟨0, rfl, iff_of_true rfl (.nil rfl)⟩
  | @snoc evs s e s' hrun hs ih =>
    have hmono := dropped_mono hs
    obtain ⟨n, hn, hguard⟩ := ih ⟨Nat.le_zero.1 (hd.1 ▸ hmono.1), Nat.le_zero.1 (hd.2 ▸ hmono.2)⟩
    obtain ⟨k, hk, hflush⟩ := step_moves (u := u) (c := c) hs hd
    refine ⟨n + k, by unfold Moves at hk; omega, ?_⟩
    rw [Nat.add_eq_zero_iff, hguard, hflush, hrun.guarded_snoc_iff hs]

/-- With nothing dropped, no call in progress and the channel empty, the drain has
forwarded what was recorded exactly in the runs in which no evicted map of `u` still
held `c` when the listener ran. -/
theorem forwarded_eq_recorded_iff {cap : ℕ} {redis : String → Option ℤ} {evs : List CapEvent}
    (h : Reached cap redis evs s) (hd : s.NoDrops) (hempty : s.writes.items = [])
    (hidle : ∀ r ∈ s.records, r.phase = .returned) (u : String) (c : CampaignId) :
    s.forwardedFor u c = s.recordedFor u c ↔
      Lib.Run (· = init cap redis) (Lib.Guarded (NoFlush u c) (Lib.Steps step)) evs s := by
  obtain ⟨n, hn, hguard⟩ := run_underway (u := u) (c := c) h hd
  have hsent : s.unsentFor u c = 0 := by
    apply List.countP_eq_zero.2
    intro r hr
    simp [hidle r hr, RecordPhase.unsent]
  rw [underway, hempty, hsent] at hn
  rw [← hguard]
  simp only [List.countP_nil] at hn
  omega

/-- A user is evicted with campaign 8 in the map, then campaign 7 is recorded. -/
theorem forwarded_once_after_other_campaign_flushed :
    ∃ evs s, Reached 8 (fun _ => none) evs s ∧ s.forwardedFor "u" 7 = 1 ∧ s.recordedFor "u" 7 = 1 ∧
      Lib.Run (· = init 8 fun _ => none) (Lib.Guarded (NoFlush "u" 7) (Lib.Steps step)) evs s := by
  let evs : List CapEvent := [.callRecord "u" 8, .stepRecord 0, .stepRecord 0, .stepRecord 0,
    .evict "u", .callRecord "u" 7, .stepRecord 1, .flush 0, .stepRecord 1, .stepRecord 1,
    .drain, .drain, .drain, .drain, .drain, .drain]
  obtain ⟨s, hrun, hd, hempty, hidle, hfor, hrec⟩ := Lib.run_of_exec_any
    (P := fun s : CapSystem => s.NoDrops ∧ s.writes.items = [] ∧
      (∀ r ∈ s.records, r.phase = .returned) ∧ s.forwardedFor "u" 7 = 1 ∧ s.recordedFor "u" 7 = 1)
    (show (Lib.exec step (init 8 fun _ => none) evs).any _ = true by decide +kernel)
  exact ⟨evs, s, hrun, hfor, hrec,
    (forwarded_eq_recorded_iff hrun hd hempty hidle "u" 7).1 (hfor.trans hrec.symm)⟩

/-- One impression is recorded and sent, then its user is evicted: the drain forwards two. -/
theorem eviction_forwards_twice :
    ∃ evs s, Reached 8 (fun _ => none) evs s ∧ s.NoDrops ∧ s.writes.items = [] ∧
      (∀ r ∈ s.records, r.phase = .returned) ∧
      s.recordedFor "u" 7 = 1 ∧ s.forwardedFor "u" 7 = 2 := by
  let evs : List CapEvent := [.callRecord "u" 7, .stepRecord 0, .stepRecord 0, .stepRecord 0,
    .evict "u", .flush 0, .drain, .drain, .drain, .drain]
  exact ⟨evs, Lib.run_of_exec_any
    (show (Lib.exec step (init 8 fun _ => none) evs).any _ = true by decide +kernel)⟩

end CapSystem

end RTB
