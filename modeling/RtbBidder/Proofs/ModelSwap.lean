import RtbBidder.Spec.ModelReload

/-! Each chunk of a `score_all` call loads the current snapshot, so the scores of a call
are all of one model exactly if no reload is stored between two of its loads. -/

namespace RTB

variable {m : MLScorer} {cur : StoredSnapshot}

/-- The snapshots a call has loaded, in order, beside the current one: `between` says that
the call has loaded one and is to load again, `overtaken` counts the reloads then. -/
structure Tracked (loaded : List StoredSnapshot) (between : Bool) (cur : StoredSnapshot)
    (overtaken : ℕ) : Prop where
  le : ∀ snap ∈ loaded, snap.version ≤ cur.version
  /-- every load gave the first snapshot, and so does the next one -/
  same : overtaken = 0 → ∀ f ∈ loaded.head?,
    (∀ snap ∈ loaded, snap = f) ∧ (between → cur = f)
  /-- a later load gave a newer snapshot than the first, or the next one will -/
  mixed : overtaken ≠ 0 → ∃ f ∈ loaded.head?,
    (∃ snap ∈ loaded, f.version < snap.version) ∨ between ∧ f.version < cur.version

namespace Tracked

variable {loaded : List StoredSnapshot} {between : Bool} {overtaken : ℕ}

theorem nil (cur : StoredSnapshot) : Tracked [] false cur 0 := by
  constructor <;> simp

theorem load (h : Tracked loaded between cur overtaken) (hb : loaded ≠ [] → between)
    (between' : Bool) : Tracked (loaded ++ [cur]) between' cur overtaken := by
  cases loaded with
  | nil =>
    have hzero : overtaken = 0 := by
      by_contra hne
      obtain ⟨f, hf, -⟩ := h.mixed hne
      cases hf
    refine ⟨by simp, ?_, fun hne => absurd hzero hne⟩
    intro _ f hf
    obtain rfl : cur = f := by simpa using hf
    simp
  | cons f loaded =>
    have hbetween : between := hb (by simp)
    refine ⟨?_, ?_, ?_⟩
    · intro snap hsnap
      rcases List.mem_append.1 hsnap with hold | hnew
      · exact h.le snap hold
      · obtain rfl := List.mem_singleton.1 hnew
        exact le_rfl
    · intro hzero f' hf'
      obtain rfl : f = f' := by simpa using hf'
      obtain ⟨hall, hcur⟩ := h.same hzero f rfl
      refine ⟨?_, fun _ => hcur hbetween⟩
      intro snap hsnap
      rcases List.mem_append.1 hsnap with hold | hnew
      · exact hall snap hold
      · obtain rfl := List.mem_singleton.1 hnew
        exact hcur hbetween
    · intro hne
      obtain ⟨f', hf', hnewer⟩ := h.mixed hne
      refine ⟨f', by simpa using hf', .inl ?_⟩
      rcases hnewer with ⟨snap, hsnap, hlt⟩ | ⟨-, hlt⟩
      · exact ⟨snap, List.mem_append_left _ hsnap, hlt⟩
      · exact ⟨cur, by simp, hlt⟩

theorem reload {new : StoredSnapshot} (h : Tracked loaded between cur overtaken)
    (hb : between → loaded ≠ []) (hnew : cur.version < new.version) :
    Tracked loaded between new (if between then overtaken + 1 else overtaken) := by
  refine ⟨fun snap hsnap => (h.le snap hsnap).trans hnew.le, ?_, ?_⟩
  · cases between with
    | true => simp
    | false => exact fun hzero f hf => ⟨(h.same hzero f hf).1, by simp⟩
  · cases between with
    | true =>
      intro _
      cases loaded with
      | nil => exact absurd rfl (hb rfl)
      | cons f loaded => exact ⟨f, rfl, .inr ⟨rfl, (h.le f (by simp)).trans_lt hnew⟩⟩
    | false =>
      intro hne
      obtain ⟨f, hf, hnewer | ⟨hfalse, -⟩⟩ := h.mixed hne
      · exact ⟨f, hf, .inl hnewer⟩
      · cases hfalse

/-- Nothing is loaded any more: the loads agree exactly if the call was not overtaken. -/
theorem agree_iff (h : Tracked loaded false cur overtaken) :
    (∀ f ∈ loaded.head?, ∀ snap ∈ loaded, snap = f) ↔ overtaken = 0 := by
  refine ⟨?_, fun hzero f hf => (h.same hzero f hf).1⟩
  intro hagree
  by_contra hne
  obtain ⟨f, hf, ⟨snap, hsnap, hlt⟩ | ⟨hfalse, -⟩⟩ := h.mixed hne
  · rw [hagree f hf snap hsnap] at hlt
    exact lt_irrefl _ hlt
  · cases hfalse

end Tracked

namespace ScoreCall

variable {c c' : ScoreCall}

/-- Neither failed nor dropped. -/
def Alive (c : ScoreCall) : Prop :=
  match c.phase with
  | .fellBack | .dropped => False
  | _ => True

/-- The snapshots loaded so far, in order. -/
def loaded (c : ScoreCall) : List StoredSnapshot :=
  c.done.map (·.snap) ++
    match c.phase with
    | .pick snap => [snap]
    | .infer snap _ => [snap]
    | _ => []

/-- The scores of a chunk are those that a session of the snapshot it loaded gave. -/
def ScoredBy (m : MLScorer) (ctx : ScoringContext) (chunk : List AdCandidate) (p : ScoredChunk) :
    Prop :=
  p.session ∈ p.snap.sessions ∧ m.cfg.scoreBatch m.ln ctx p.session chunk = .ok p.scored

/-- The chunks that are done have the scores that their snapshots gave. -/
def Scores (m : MLScorer) (c : ScoreCall) (chunks : List (List AdCandidate)) : Prop :=
  List.Forall₂ (ScoredBy m c.ctx) chunks c.done

/-- All chunks have been scored with one snapshot, current at some moment of the call. -/
def OneModel (c : ScoreCall) : Prop := ∃ snap ∈ c.current, ∀ p ∈ c.done, p.snap = snap

theorem loaded_ne_nil (h : c.betweenLoads) : c.loaded ≠ [] := by
  unfold betweenLoads at h
  unfold loaded
  split at h <;> simp_all

structure Sound (m : MLScorer) (cur : StoredSnapshot) (c : ScoreCall) : Prop where
  scores : ∃ chunks, c.Scores m chunks ∧ chunks ++ c.todo = Lib.chunks m.cfg.maxBatch c.candidates
  todo : c.phase = .scored → c.todo = []
  picked : ∀ snap session, c.phase = .infer snap session → session ∈ snap.sessions
  nonempty : c.current ≠ []
  current : c.active → cur ∈ c.current
  loaded : ∀ snap ∈ c.loaded, snap ∈ c.current
  tracked : Tracked c.loaded c.betweenLoads cur c.overtaken

theorem sound_new (m : MLScorer) (cs : List AdCandidate) (ctx : ScoringContext)
    (cur : StoredSnapshot) : (new m cs ctx cur).Sound m cur := by
  by_cases hempty : Lib.chunks m.cfg.maxBatch cs = []
  · have hnew : new m cs ctx cur = ⟨cs, ctx, [], [], .scored, [cur], 0⟩ := by
      simp [new, hempty]
    rw [hnew]
    exact ⟨⟨[], .nil, hempty.symm⟩, fun _ => rfl, by simp, by simp, by simp,
      by simp [ScoreCall.loaded], .nil cur⟩
  · have hnew : new m cs ctx cur =
        ⟨cs, ctx, [], Lib.chunks m.cfg.maxBatch cs, .load, [cur], 0⟩ := by
      simp [new, hempty]
    rw [hnew]
    exact ⟨⟨[], .nil, rfl⟩, by simp, by simp, by simp, by simp, by simp [ScoreCall.loaded],
      .nil cur⟩

/-- A chunk loads the snapshot that is current. -/
theorem Sound.onLoad (h : c.Sound m cur) (hs : c.onLoad cur = some c') : c'.Sound m cur := by
  unfold ScoreCall.onLoad at hs
  split at hs
  · rename_i hphase
    cases hs
    have hbefore : c.loaded = c.done.map (·.snap) := by simp [ScoreCall.loaded, hphase]
    have hcur := h.current (by simp [active, hphase])
    have htracked := h.tracked
    have hloaded := h.loaded
    rw [hbefore] at htracked hloaded
    refine ⟨h.scores, by simp, by simp, h.nonempty, fun _ => hcur, ?_, ?_⟩
    · intro snap hsnap
      rcases List.mem_append.1 hsnap with hdone | hlast
      · exact hloaded snap hdone
      · obtain rfl := List.mem_singleton.1 hlast
        exact hcur
    · apply htracked.load
      intro hne
      simpa [betweenLoads, hphase] using hne
  · cases hs

theorem onPick_eq_some {n : UInt64} (hs : c.onPick n = some c') :
    ∃ snap, c.phase = .pick snap ∧ c' = { c with phase := .infer snap (snap.pick n) } := by
  obtain ⟨snap, hpick, rfl⟩ := Option.map_eq_some_iff.1 hs
  refine ⟨snap, ?_, rfl⟩
  unfold picking at hpick
  split at hpick
  · next hphase => rw [hphase, Option.some.inj hpick]
  · cases hpick

/-- The session is one of the snapshot that the chunk loaded; nothing is loaded. -/
theorem Sound.onPick {n : UInt64} (h : c.Sound m cur) (hs : c.onPick n = some c') :
    c'.Sound m cur := by
  obtain ⟨snap, hphase, rfl⟩ := onPick_eq_some hs
  have htracked := h.tracked
  have hloaded := h.loaded
  simp only [ScoreCall.loaded, betweenLoads, hphase] at htracked hloaded
  refine ⟨h.scores, by simp, ?_, h.nonempty, fun _ => h.current (by simp [active, hphase]),
    hloaded, htracked⟩
  rintro snap' session ⟨⟩
  exact snap.pick_mem n

/-- The inference of a chunk that loaded `snap` ends; the loads stay as they are. -/
theorem Sound.onInfer {fault : Bool} (h : c.Sound m cur) (hs : c.onInfer m fault = some c')
    (halive : c'.Alive) : c'.Sound m cur := by
  unfold ScoreCall.onInfer at hs
  split at hs
  · rename_i snap session chunk rest hphase htodo
    split at hs
    · cases hs
      exact halive.elim
    · rename_i scored hok
      cases hs
      have hbatch : m.cfg.scoreBatch m.ln c.ctx session chunk = .ok scored := by
        cases fault with
        | true => cases hok
        | false => exact hok
      obtain ⟨chunks, hchunks, hsplit⟩ := h.scores
      have hcur := h.current (by simp [active, hphase])
      have htracked := h.tracked
      have hloaded := h.loaded
      simp only [ScoreCall.loaded, hphase] at htracked hloaded
      have hbetween : c.betweenLoads = !rest.isEmpty := by
        cases rest <;> simp [betweenLoads, hphase, htodo]
      rw [hbetween] at htracked
      have hscored : ScoredBy m c.ctx chunk ⟨scored, snap, session⟩ :=
        ⟨h.picked snap session hphase, hbatch⟩
      have hscores : ∃ chunks', List.Forall₂ (ScoredBy m c.ctx) chunks'
          (c.done ++ [⟨scored, snap, session⟩]) ∧
          chunks' ++ rest = Lib.chunks m.cfg.maxBatch c.candidates :=
        ⟨chunks ++ [chunk], List.rel_append hchunks (.cons hscored .nil),
          by simp [← hsplit, htodo]⟩
      cases rest with
      | nil =>
        refine ⟨hscores, fun _ => rfl, by simp, h.nonempty, by simp [active], ?_, ?_⟩
        · simpa [ScoreCall.loaded] using hloaded
        · simpa [ScoreCall.loaded, betweenLoads] using htracked
      | cons next rest =>
        refine ⟨hscores, by simp, by simp, h.nonempty, fun _ => hcur, ?_, ?_⟩
        · simpa [ScoreCall.loaded] using hloaded
        · have hdone : (c.done ++ [ScoredChunk.mk scored snap session]).isEmpty = false := by simp
          simpa [ScoreCall.loaded, betweenLoads, hdone] using htracked
  · cases hs

/-- A reload counts for the calls that are between two loads. -/
theorem Sound.onReload {new : StoredSnapshot} (h : c.Sound m cur) (hnew : cur.version < new.version) :
    (c.onReload new).Sound m new := by
  have htracked := h.tracked.reload loaded_ne_nil hnew
  unfold ScoreCall.onReload
  by_cases hactive : c.active
  · rw [if_pos hactive]
    refine ⟨h.scores, h.todo, h.picked, by simp, by simp, ?_, htracked⟩
    intro snap hsnap
    exact List.mem_append_left _ (h.loaded snap hsnap)
  · have hbetween : c.betweenLoads = false := by
      unfold active at hactive
      unfold betweenLoads
      split <;> simp_all
    rw [if_neg hactive]
    refine ⟨h.scores, h.todo, h.picked, h.nonempty, fun hact => absurd hact hactive, h.loaded, ?_⟩
    simpa [hbetween] using htracked

theorem alive_of_onLoad (hs : c.onLoad cur = some c') : c.Alive := by
  unfold ScoreCall.onLoad at hs
  split at hs
  · rename_i hphase
    simp [Alive, hphase]
  · cases hs

theorem alive_of_onPick {n : UInt64} (hs : c.onPick n = some c') : c.Alive := by
  obtain ⟨snap, hphase, -⟩ := onPick_eq_some hs
  simp [Alive, hphase]

theorem alive_of_onInfer {fault : Bool} (hs : c.onInfer m fault = some c') : c.Alive := by
  unfold ScoreCall.onInfer at hs
  split at hs
  · rename_i hphase _
    simp [Alive, hphase]
  · cases hs

theorem alive_onReload {new : StoredSnapshot} : (c.onReload new).Alive ↔ c.Alive := by
  unfold onReload Alive
  split_ifs <;> rfl

theorem onLoad_overtaken (hs : c.onLoad cur = some c') : c'.overtaken = c.overtaken := by
  unfold ScoreCall.onLoad at hs
  split at hs <;> cases hs
  rfl

theorem onPick_overtaken {n : UInt64} (hs : c.onPick n = some c') : c'.overtaken = c.overtaken := by
  obtain ⟨snap, -, rfl⟩ := onPick_eq_some hs
  rfl

theorem onInfer_overtaken {fault : Bool} (hs : c.onInfer m fault = some c') :
    c'.overtaken = c.overtaken := by
  unfold ScoreCall.onInfer at hs
  split at hs
  · split at hs <;> cases hs <;> rfl
  · cases hs

theorem onDrop_overtaken (hs : c.onDrop = some c') : c'.overtaken = c.overtaken := by
  obtain ⟨-, heq⟩ := Option.ite_none_right_eq_some.1 hs
  obtain rfl := Option.some.inj heq
  rfl

theorem onReload_overtaken {new : StoredSnapshot} (h : c.betweenLoads = false) :
    (c.onReload new).overtaken = c.overtaken := by
  unfold onReload
  by_cases hactive : c.active <;> simp [hactive, h]

/-- The call has returned the scores of its chunks. -/
def isScored (c : ScoreCall) : Bool :=
  match c.phase with
  | .scored => true
  | _ => false

theorem phase_of_isScored (h : c.isScored = true) : c.phase = .scored := by
  unfold isScored at h
  split at h
  · assumption
  · cases h

/-- A call that returns scores has all its chunks scored, and with one snapshot exactly if
it was not overtaken. -/
theorem Sound.oneModel_iff (h : c.Sound m cur) (hphase : c.phase = .scored) :
    c.Scores m (Lib.chunks m.cfg.maxBatch c.candidates) ∧ (c.OneModel ↔ c.overtaken = 0) := by
  obtain ⟨chunks, hscores, hsplit⟩ := h.scores
  rw [h.todo hphase, List.append_nil] at hsplit
  have hloaded : c.loaded = c.done.map (·.snap) := by simp [ScoreCall.loaded, hphase]
  have hbetween : c.betweenLoads = false := by simp [betweenLoads, hphase]
  have htracked := h.tracked
  rw [hbetween] at htracked
  refine ⟨hsplit ▸ hscores, ?_⟩
  rw [← htracked.agree_iff, hloaded]
  refine ⟨?_, ?_⟩
  · rintro ⟨snap, -, hall⟩ f hf snap' hsnap'
    obtain ⟨p, hp, rfl⟩ := List.mem_map.1 hsnap'
    obtain ⟨q, hq, rfl⟩ := List.mem_map.1 (List.mem_of_mem_head? hf)
    rw [hall p hp, hall q hq]
  · intro hagree
    cases hdone : c.done with
    | nil =>
      obtain ⟨snap, hsnap⟩ := List.exists_mem_of_ne_nil _ h.nonempty
      exact ⟨snap, hsnap, by simp [hdone]⟩
    | cons p done =>
      rw [hdone] at hagree
      refine ⟨p.snap, h.loaded p.snap (by simp [hloaded, hdone]), ?_⟩
      rw [hdone]
      intro q hq
      exact hagree p.snap rfl q.snap (List.mem_map_of_mem hq)

end ScoreCall

namespace ReloadSystem

variable {evs : List ReloadEvent} {s s' : ReloadSystem}

/-- A call's own step, where it exists. -/
theorem move_eq_some {i : ℕ} {f : ScoreCall → Option ScoreCall} (h : s.move i f = some s') :
    ∃ c c', s.calls[i]? = some c ∧ f c = some c' ∧ s' = { s with calls := s.calls.set i c' } := by
  obtain ⟨c', hbind, rfl⟩ := Option.map_eq_some_iff.1 h
  obtain ⟨c, hc, hf⟩ := Option.bind_eq_some_iff.1 hbind
  exact ⟨c, c', hc, hf, rfl⟩

theorem forall_calls_move {P : ScoreCall → Prop} {i : ℕ} {f : ScoreCall → Option ScoreCall}
    (hs : s.move i f = some s') (h : ∀ c ∈ s.calls, P c)
    (hf : ∀ c c', f c = some c' → P c → P c') : ∀ c ∈ s'.calls, P c := by
  obtain ⟨c, c', hc, hfc, rfl⟩ := move_eq_some hs
  intro x hx
  rcases List.mem_or_eq_of_mem_set hx with hold | rfl
  · exact h x hold
  · exact hf c x hfc (h c (List.mem_of_getElem? hc))

/-- What holds of every call beside the current snapshot still does after a step, if it
holds of new calls and the calls' own steps and the reloads keep it. -/
theorem forall_calls_step {P : StoredSnapshot → ScoreCall → Prop} {e : ReloadEvent}
    (hs : step m s e = some s') (h : ∀ c ∈ s.calls, P s.snapshot c)
    (hnew : ∀ cs ctx, P s.snapshot (.new m cs ctx s.snapshot))
    (hload : ∀ c c', c.onLoad s.snapshot = some c' → P s.snapshot c → P s.snapshot c')
    (hpick : ∀ c c' n, c.onPick n = some c' → P s.snapshot c → P s.snapshot c')
    (hinfer : ∀ c c' fault, c.onInfer m fault = some c' → P s.snapshot c → P s.snapshot c')
    (hdrop : ∀ c c', c.onDrop = some c' → P s.snapshot c → P s.snapshot c')
    (hreload : ∀ built, e = .reload (some built) → ∀ c ∈ s.calls, P s.snapshot c →
      P ⟨built, s.snapshot.version + 1⟩ (c.onReload ⟨built, s.snapshot.version + 1⟩)) :
    ∀ c ∈ s'.calls, P s'.snapshot c := by
  cases e with
  | call cs ctx =>
    cases hs
    intro c hc
    rcases List.mem_append.1 hc with hold | hlast
    · exact h c hold
    · obtain rfl := List.mem_singleton.1 hlast
      exact hnew cs ctx
  | load i =>
    obtain ⟨_, _, _, _, rfl⟩ := move_eq_some hs
    exact forall_calls_move hs h hload
  | pick i =>
    obtain ⟨snap, -, hs⟩ := Option.bind_eq_some_iff.1 hs
    obtain ⟨s₁, hmove, rfl⟩ := Option.map_eq_some_iff.1 hs
    have hcalls := forall_calls_move hmove h fun c c' => hpick c c' _
    obtain ⟨_, _, _, _, rfl⟩ := move_eq_some hmove
    exact hcalls
  | infer i fault =>
    obtain ⟨_, _, _, _, rfl⟩ := move_eq_some hs
    exact forall_calls_move hs h fun c c' => hinfer c c' fault
  | drop i =>
    obtain ⟨_, _, _, _, rfl⟩ := move_eq_some hs
    exact forall_calls_move hs h hdrop
  | reload built =>
    cases built with
    | none =>
      cases hs
      exact h
    | some built =>
      cases hs
      intro c hc
      obtain ⟨c, hmem, rfl⟩ := List.mem_map.1 hc
      exact hreload built rfl c hmem (h c hmem)

def Sound (m : MLScorer) (s : ReloadSystem) : Prop :=
  ∀ c ∈ s.calls, c.Alive → c.Sound m s.snapshot

theorem Sound.step {e : ReloadEvent} (h : s.Sound m) (hs : step m s e = some s') : s'.Sound m := by
  apply forall_calls_step (P := fun cur c => c.Alive → c.Sound m cur) hs h
  · intro cs ctx _
    exact ScoreCall.sound_new m cs ctx s.snapshot
  · intro c c' hc hsound _
    exact (hsound (ScoreCall.alive_of_onLoad hc)).onLoad hc
  · intro c c' n hc hsound _
    exact (hsound (ScoreCall.alive_of_onPick hc)).onPick hc
  · intro c c' fault hc hsound halive
    exact (hsound (ScoreCall.alive_of_onInfer hc)).onInfer hc halive
  · intro c c' hc _ halive
    obtain ⟨-, heq⟩ := Option.ite_none_right_eq_some.1 hc
    obtain rfl := Option.some.inj heq
    exact halive.elim
  · intro built _ c _ hsound halive
    exact (hsound (ScoreCall.alive_onReload.1 halive)).onReload (Nat.lt_succ_self _)

theorem sound_of_reached (h : Reached m evs s) : s.Sound m := by
  refine h.inv (I := Sound m) ?_ fun s e s' hs hstep => hs.step hstep
  rintro s rfl
  simp [Sound, init]

/-- Only a reload between two loads of a call counts. -/
theorem overtaken_step {e : ReloadEvent} (hquiet : s.Quiet e) (hs : step m s e = some s')
    (h : ∀ c ∈ s.calls, c.overtaken = 0) : ∀ c ∈ s'.calls, c.overtaken = 0 := by
  apply forall_calls_step (P := fun _ c => c.overtaken = 0) hs h
  · intro cs ctx
    rfl
  · intro c c' hc hzero
    rw [ScoreCall.onLoad_overtaken hc, hzero]
  · intro c c' n hc hzero
    rw [ScoreCall.onPick_overtaken hc, hzero]
  · intro c c' fault hc hzero
    rw [ScoreCall.onInfer_overtaken hc, hzero]
  · intro c c' hc hzero
    rw [ScoreCall.onDrop_overtaken hc, hzero]
  · rintro built rfl c hmem hzero
    rw [ScoreCall.onReload_overtaken (hquiet c hmem), hzero]

theorem overtaken_of_quiet (h : QuietRun m evs s) : ∀ c ∈ s.calls, c.overtaken = 0 := by
  refine h.inv (I := fun s => ∀ c ∈ s.calls, c.overtaken = 0) ?_
    fun s e s' hs hstep => overtaken_step hstep.1 hstep.2 hs
  rintro s rfl
  simp [init]

/-- The chunks of a call that returns scores have those of the snapshots they loaded; all
of them are of one snapshot exactly if no reload was stored between two of its loads, and
so in every run in which no reload is. -/
theorem one_model_iff (h : Reached m evs s) :
    (∀ c ∈ s.calls, c.phase = .scored →
      c.Scores m (Lib.chunks m.cfg.maxBatch c.candidates) ∧ (c.OneModel ↔ c.overtaken = 0)) ∧
    (QuietRun m evs s → ∀ c ∈ s.calls, c.phase = .scored → c.OneModel) := by
  have hscored : ∀ c ∈ s.calls, c.phase = .scored →
      c.Scores m (Lib.chunks m.cfg.maxBatch c.candidates) ∧ (c.OneModel ↔ c.overtaken = 0) := by
    intro c hc hphase
    exact (sound_of_reached h c hc (by simp [ScoreCall.Alive, hphase])).oneModel_iff hphase
  refine ⟨hscored, ?_⟩
  intro hquiet c hc hphase
  exact (hscored c hc hphase).2.2 (overtaken_of_quiet hquiet c hc)

section Runs

/-- Two sessions of a model that scores every row `q`. -/
def twoSessionsOf (q : ℚ) : ModelSnapshot Inference where
  sessions := List.replicate 2 fun rows => .ok (rows.map fun _ => .fin q)
  nonempty := by simp

/-- One candidate a chunk, and a model that scores every row 1. -/
def oneByOne : MLScorer where
  cfg := ⟨1, 1, by decide, by decide⟩
  ln := id
  initial := twoSessionsOf 1

def twoCandidates : List AdCandidate := [⟨1, 10, 100, .fin 0, 0, 0⟩, ⟨2, 20, 100, .fin 0, 0, 0⟩]

def plainContext : ScoringContext := ⟨[], none, none, 12, false, "", false⟩

/-- The reload is stored after the first of two chunks. -/
def swapped : List ReloadEvent :=
  [.call twoCandidates plainContext, .load 0, .pick 0, .infer 0 false,
   .reload (some (twoSessionsOf 0)), .load 0, .pick 0, .infer 0 false]

theorem scores_of_two_models :
    ∃ s c, Reached oneByOne swapped s ∧ c ∈ s.calls ∧ c.phase = .scored ∧
      (c.result none).map (List.map (·.score)) = some [.fin 1, .fin 0] ∧ ¬ c.OneModel := by
  obtain ⟨s, hrun, c, hc, hscored, hresult, hovertaken⟩ := Lib.run_of_exec_any
    (P := fun s => ∃ c ∈ s.calls, c.isScored = true ∧
      (c.result none).map (List.map (·.score)) = some [.fin 1, .fin 0] ∧ c.overtaken = 1)
    (show (Lib.exec (step oneByOne) (init oneByOne) swapped).any _ = true by decide +kernel)
  have hphase := ScoreCall.phase_of_isScored hscored
  have hiff := ((sound_of_reached hrun c hc (by simp [ScoreCall.Alive, hphase])).oneModel_iff hphase).2
  refine ⟨s, c, hrun, hc, hphase, hresult, ?_⟩
  intro hone
  rw [hiff.1 hone] at hovertaken
  cases hovertaken

instance (s : ReloadSystem) : ∀ e, Decidable (s.Quiet e)
  | .reload (some _) => inferInstanceAs (Decidable (∀ c ∈ s.calls, c.betweenLoads = false))
  | .reload none | .call .. | .load _ | .pick _ | .infer .. | .drop _ => isTrue trivial

/-- The reload is stored while the last chunk of the call waits for its inference. -/
def afterLastLoad : List ReloadEvent :=
  [.call twoCandidates plainContext, .load 0, .pick 0, .infer 0 false, .load 0, .pick 0,
   .reload (some (twoSessionsOf 0)), .infer 0 false]

theorem one_model_after_last_load :
    ∃ s c, Reached oneByOne afterLastLoad s ∧ c ∈ s.calls ∧ c.phase = .scored ∧
      c.current.length = 2 ∧ c.OneModel := by
  obtain ⟨s, hrun, c, hc, hscored, hcurrent⟩ := Lib.run_of_exec_any
    (P := fun s : ReloadSystem => ∃ c ∈ s.calls, c.isScored = true ∧ c.current.length = 2)
    (show (Lib.exec (fun s e => if s.Quiet e then step oneByOne s e else none) (init oneByOne)
      afterLastLoad).any _ = true by decide +kernel)
  have hquiet := hrun.guarded_of_check
  have hphase := ScoreCall.phase_of_isScored hscored
  exact ⟨s, c, hquiet.of_guarded, hc, hphase, hcurrent,
    (one_model_iff hquiet.of_guarded).2 hquiet c hc hphase⟩

end Runs

end ReloadSystem

end RTB
