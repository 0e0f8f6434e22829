import RtbBidder.Spec.ModelWatch

/-! No write of the model file is lost. Until the pool holds the current file there is
always something left to do: a change to notice, an event to receive, or a build that has
read nothing but the current file. All of it is done after finitely many steps. -/

namespace RTB.ModelWatch

variable {F M : Type} {cfg : WatchConfig} {load : F → Except String M} {s s' : ModelWatch F M}
  {evs : List (WatchEvent F)}

/-- The sessions are all of the file as it is, or it does not load. -/
def Current (load : F → Except String M) (file : F) (sessions : List M) : Prop :=
  (∀ session ∈ sessions, load file = .ok session) ∨ ∃ e, load file = .error e

/-- What is left to do while the pool is not current. -/
inductive UpToDate (cfg : WatchConfig) (load : F → Except String M) (s : ModelWatch F M) : Prop
  | changed (h : s.changed = true)
  | queued (ev : FileEvent) (hmem : ev ∈ s.queue) (h : ev.interesting cfg = true)
  | debounce (h : s.phase = .debounce)
  | drain (h : s.phase = .drain)
  | build (built : List M) (h : s.phase = .build built)
      (hbuilt : ∀ session ∈ built, load s.file = .ok session)
  | done (h : s.phase = .recv) (hcur : Current load s.file s.snapshot.sessions)

theorem interesting_modify (cfg : WatchConfig) :
    FileEvent.interesting cfg ⟨.Modify, [cfg.modelPath]⟩ = true := by
  simp [FileEvent.interesting]

/-- What a step of the task can do. -/
inductive Task (cfg : WatchConfig) (load : F → Except String M) (s : ModelWatch F M) :
    ModelWatch F M → Prop
  | take (ev : FileEvent) (queue : List FileEvent) (hp : s.phase = .recv)
      (hq : s.queue = ev :: queue) (hev : ev.interesting cfg = true) :
      Task cfg load s { s with queue := queue, phase := .debounce }
  | skip (ev : FileEvent) (queue : List FileEvent) (hp : s.phase = .recv)
      (hq : s.queue = ev :: queue) (hev : ev.interesting cfg = false) :
      Task cfg load s { s with queue := queue, phase := .recv }
  | wake (hp : s.phase = .debounce) : Task cfg load s { s with phase := .drain }
  | drop (ev : FileEvent) (queue : List FileEvent) (hp : s.phase = .drain)
      (hq : s.queue = ev :: queue) : Task cfg load s { s with queue := queue }
  | start (hp : s.phase = .drain) (hq : s.queue = []) : Task cfg load s { s with phase := .build [] }
  | store (snap : ModelSnapshot M) (hp : s.phase = .build snap.sessions)
      (hfull : snap.sessions.length = cfg.poolSize) :
      Task cfg load s { s with phase := .recv, snapshot := snap }
  | load (built : List M) (session : M) (hp : s.phase = .build built)
      (hopen : built.length ≠ cfg.poolSize) (hload : load s.file = .ok session) :
      Task cfg load s { s with phase := .build (built ++ [session]) }
  | fail (built : List M) (e : String) (hp : s.phase = .build built)
      (hload : load s.file = .error e) : Task cfg load s { s with phase := .recv }

theorem taskStep_cases (h : s.taskStep cfg load = some s') : Task cfg load s s' := by
  unfold taskStep at h
  cases hp : s.phase with
  | recv =>
    cases hq : s.queue with
    | nil => simp [hp, hq] at h
    | cons ev queue =>
      simp only [hp, hq, Option.some.injEq] at h
      cases hev : ev.interesting cfg with
      | true => exact h ▸ by simpa [hev] using .take ev queue hp hq hev
      | false => exact h ▸ by simpa [hev] using .skip ev queue hp hq hev
  | debounce =>
    simp only [hp, Option.some.injEq] at h
    exact h ▸ .wake hp
  | drain =>
    cases hq : s.queue with
    | nil =>
      simp only [hp, hq, Option.some.injEq] at h
      subst h
      have hstart : Task cfg load s { s with phase := .build [] } := .start hp hq
      simpa only [hq] using hstart
    | cons ev queue =>
      simp only [hp, hq, Option.some.injEq] at h
      subst h
      simpa only [hp] using Task.drop ev queue hp hq
  | build built =>
    simp only [hp, Option.some.injEq, buildStep] at h
    split_ifs at h with hfull
    · exact h ▸ .store ⟨built, _⟩ hp hfull
    · cases hload : load s.file with
      | ok session =>
        simp only [hload] at h
        exact h ▸ .load built session hp hfull hload
      | error e =>
        simp only [hload] at h
        exact h ▸ .fail built e hp hload

theorem UpToDate.task (h : UpToDate cfg load s) (ht : Task cfg load s s') :
    UpToDate cfg load s' := by
  cases h with
  | changed h => cases ht <;> exact .changed h
  | queued ev hmem hev =>
    cases ht with
    | take _ _ _ hq => exact .debounce rfl
    | skip ev' queue _ hq hev' =>
      rw [hq] at hmem
      rcases List.mem_cons.1 hmem with rfl | hrest
      · rw [hev] at hev'
        cases hev'
      · exact .queued ev hrest hev
    | wake => exact .drain rfl
    | drop _ _ hp => exact .drain hp
    | start => exact .build [] rfl (by simp)
    | store | load | fail => exact .queued ev hmem hev
  | debounce h =>
    cases ht with
    | wake => exact .drain rfl
    | take _ _ hp | skip _ _ hp | drop _ _ hp | start hp | store _ hp | load _ _ hp | fail _ _ hp =>
      rw [h] at hp
      cases hp
  | drain h =>
    cases ht with
    | drop _ _ hp => exact .drain hp
    | start => exact .build [] rfl (by simp)
    | take _ _ hp | skip _ _ hp | wake hp | store _ hp | load _ _ hp | fail _ _ hp =>
      rw [h] at hp
      cases hp
  | build built h hbuilt =>
    cases ht with
    | store snap hp hfull =>
      obtain rfl := WatchPhase.build.inj (h.symm.trans hp)
      exact .done rfl (.inl hbuilt)
    | load built' session hp hopen hload =>
      obtain rfl := WatchPhase.build.inj (h.symm.trans hp)
      refine .build _ rfl ?_
      simp only [List.forall_mem_append, List.forall_mem_singleton]
      exact ⟨hbuilt, hload⟩
    | fail _ e _ hload => exact .done rfl (.inr ⟨e, hload⟩)
    | take _ _ hp | skip _ _ hp | wake hp | drop _ _ hp | start hp =>
      rw [h] at hp
      cases hp
  | done h hcur =>
    cases ht with
    | take => exact .debounce rfl
    | skip => exact .done rfl hcur
    | wake hp | drop _ _ hp | start hp | store _ hp | load _ _ hp | fail _ _ hp =>
      rw [h] at hp
      cases hp

theorem UpToDate.step {e : WatchEvent F} (h : UpToDate cfg load s) (he : e ≠ .overlook)
    (hs : ModelWatch.step cfg load s e = some s') : UpToDate cfg load s' := by
  cases e with
  | write file =>
    obtain rfl := Option.some.inj hs
    exact .changed rfl
  | poll =>
    simp only [ModelWatch.step] at hs
    split_ifs at hs
    obtain rfl := Option.some.inj hs
    exact .queued _ (List.mem_append_right _ List.mem_cons_self) (interesting_modify cfg)
  | overlook => exact absurd rfl he
  | notify ev =>
    obtain rfl := Option.some.inj hs
    cases h with
    | changed h => exact .changed h
    | queued ev' hmem hev => exact .queued ev' (List.mem_append_left _ hmem) hev
    | debounce h => exact .debounce h
    | drain h => exact .drain h
    | build built h hbuilt => exact .build built h hbuilt
    | done h hcur => exact .done h hcur
  | task => exact h.task (taskStep_cases hs)

/-- The pool is always full, and a build never goes beyond it. -/
structure Pooled (cfg : WatchConfig) (s : ModelWatch F M) : Prop where
  sessions : s.snapshot.sessions.length = cfg.poolSize
  built : ∀ built, s.phase = .build built → built.length ≤ cfg.poolSize

theorem Pooled.task (h : Pooled cfg s) (ht : Task cfg load s s') : Pooled cfg s' := by
  cases ht with
  | take | skip | wake | fail => exact ⟨h.sessions, nofun⟩
  | drop => exact ⟨h.sessions, h.built⟩
  | start =>
    refine ⟨h.sessions, ?_⟩
    rintro built ⟨⟩
    exact Nat.zero_le _
  | store snap hp hfull => exact ⟨hfull, nofun⟩
  | load built session hp hopen =>
    have hle := h.built built hp
    refine ⟨h.sessions, ?_⟩
    rintro built' ⟨⟩
    rw [List.length_append, List.length_singleton]
    omega

theorem Pooled.step {e : WatchEvent F} (h : Pooled cfg s)
    (hs : ModelWatch.step cfg load s e = some s') : Pooled cfg s' := by
  cases e with
  | write | overlook | notify =>
    obtain rfl := Option.some.inj hs
    exact ⟨h.sessions, h.built⟩
  | poll =>
    simp only [ModelWatch.step] at hs
    split_ifs at hs
    obtain rfl := Option.some.inj hs
    exact ⟨h.sessions, h.built⟩
  | task => exact h.task (taskStep_cases hs)

/-- The steps that are left to the poller and the task at most. -/
def work (cfg : WatchConfig) (s : ModelWatch F M) : ℕ :=
  (if s.changed then cfg.poolSize + 5 else 0) + s.queue.length * (cfg.poolSize + 4) +
    match s.phase with
    | .recv => 0
    | .debounce => cfg.poolSize + 3
    | .drain => cfg.poolSize + 2
    | .build built => cfg.poolSize - built.length + 1

theorem work_task (hp : Pooled cfg s) (ht : Task cfg load s s') : s'.work cfg < s.work cfg := by
  cases ht with
  | take ev queue hph hq | skip ev queue hph hq | drop ev queue hph hq =>
    simp only [work, hph, hq, List.length_cons, Nat.add_mul]
    omega
  | wake hph | start hph =>
    simp only [work, hph, List.length_nil]
    omega
  | store snap hph | fail built _ hph =>
    simp only [work, hph]
    omega
  | load built session hph hopen =>
    have hle := hp.built built hph
    simp only [work, hph, List.length_append, List.length_singleton]
    omega

/-- The steps of the poller and the task, when the file is left alone. -/
def Internal (e : WatchEvent F) : Prop := e = .poll ∨ e = .task

theorem work_step {e : WatchEvent F} (hp : Pooled cfg s) (he : Internal e)
    (hs : step cfg load s e = some s') : s'.work cfg < s.work cfg := by
  rcases he with rfl | rfl
  · simp only [step] at hs
    split_ifs at hs with hch
    obtain rfl := Option.some.inj hs
    simp only [work, hch, if_true, Bool.false_eq_true, if_false, List.length_append,
      List.length_singleton, Nat.add_mul]
    omega
  · exact work_task hp (taskStep_cases hs)

/-- When neither the poller nor the task has anything to do, the pool is current. -/
theorem UpToDate.current (h : UpToDate cfg load s) (hpoll : ModelWatch.step cfg load s .poll = none)
    (htask : ModelWatch.step cfg load s .task = none) : Current load s.file s.snapshot.sessions := by
  have hstuck : s.phase = .recv ∧ s.queue = [] := by
    simp only [ModelWatch.step, taskStep] at htask
    split at htask <;> simp_all
  cases h with
  | changed h => simp [ModelWatch.step, h] at hpoll
  | queued ev hmem =>
    rw [hstuck.2] at hmem
    cases hmem
  | debounce h | drain h | build _ h =>
    rw [hstuck.1] at h
    cases h
  | done _ hcur => exact hcur

theorem reached_inv (h : Reached cfg load evs s) :
    Pooled cfg s ∧ ((∀ e ∈ evs, e ≠ .overlook) → UpToDate cfg load s) := by
  refine Lib.Run.inv_trace (I := fun evs s =>
    Pooled cfg s ∧ ((∀ e ∈ evs, e ≠ .overlook) → UpToDate cfg load s)) ?_ ?_ h
  · rintro s ⟨⟨session, hload, hsessions⟩, -, -, hphase⟩
    refine ⟨⟨by rw [hsessions, List.length_replicate], by simp [hphase]⟩, fun _ => ?_⟩
    refine .done hphase (.inl fun m hm => ?_)
    rw [hsessions] at hm
    rw [List.eq_of_mem_replicate hm, hload]
  · rintro evs s e s' ⟨hp, hup⟩ hs
    refine ⟨hp.step hs, fun hseen => ?_⟩
    simp only [List.forall_mem_append, List.forall_mem_singleton] at hseen
    exact (hup hseen.1).step hseen.2 hs

/-- With no further writes the poller and the task stop after finitely many steps, with a
full pool; if the poller has overlooked no change, every session is then of the file as it
is, unless the file does not load. -/
theorem reload_settles {later : List (WatchEvent F)} (h : Reached cfg load evs s)
    (hl : ∀ e ∈ later, Internal e) (he : Lib.exec (step cfg load) s later = some s') :
    later.length ≤ s.work cfg ∧ s'.snapshot.sessions.length = cfg.poolSize ∧
      ((∀ e ∈ evs, e ≠ .overlook) → step cfg load s' .poll = none →
        step cfg load s' .task = none → Current load s'.file s'.snapshot.sessions) := by
  induction later generalizing evs s with
  | nil =>
    obtain rfl := Option.some.inj he
    obtain ⟨hp, hup⟩ := reached_inv h
    exact ⟨Nat.zero_le _, hp.sessions, fun hseen => (hup hseen).current⟩
  | cons e later ih =>
    obtain ⟨hint, hints⟩ := List.forall_mem_cons.1 hl
    obtain ⟨s₁, hs, he⟩ := Option.bind_eq_some_iff.1 he
    have hwork := work_step (reached_inv h).1 hint hs
    obtain ⟨hlen, hpool, hcur⟩ := ih (h.snoc hs) hints he
    refine ⟨?_, hpool, fun hseen => hcur ?_⟩
    · rw [List.length_cons]
      omega
    · simp only [List.forall_mem_append, List.forall_mem_singleton]
      refine ⟨hseen, ?_⟩
      rcases hint with rfl | rfl <;> nofun

/-- A model file is its number, and 0 is a file that is not complete. -/
def loadNumbered (file : ℕ) : Except String ℕ :=
  if file = 0 then .error "commit_from_file" else .ok file

/-- Model 7 is written while the pool is built from model 6. -/
def writeDuringBuild : List (WatchEvent ℕ) :=
  [.write 6, .poll, .task, .task, .task, .task, .write 7, .task, .task]

/-- Two sessions of a model at an absolute path, whose directory can be watched. -/
def twoSessions : WatchConfig := ⟨"/models/model.onnx", 2, Nat.two_pos⟩

theorem reload_settles_after_mixed_pool : ∃ s s' : ModelWatch ℕ ℕ,
    Reached twoSessions loadNumbered writeDuringBuild s ∧ s.snapshot.sessions = [6, 7] ∧
    Lib.exec (step twoSessions loadNumbered) s (.poll :: List.replicate 6 .task) = some s' ∧
    s'.snapshot.sessions = [7, 7] ∧ Current loadNumbered s'.file s'.snapshot.sessions := by
  have hstart : Started twoSessions loadNumbered
      (⟨5, false, [], .recv, ⟨[5, 5], by decide⟩⟩ : ModelWatch ℕ ℕ) :=
    ⟨⟨5, rfl, rfl⟩, rfl, rfl, rfl⟩
  have hrun : Reached twoSessions loadNumbered writeDuringBuild
      (⟨7, true, [], .recv, ⟨[6, 7], by decide⟩⟩ : ModelWatch ℕ ℕ) :=
    (Lib.Run.nil hstart).exec writeDuringBuild rfl
  have hexec : Lib.exec (step twoSessions loadNumbered)
      (⟨7, true, [], .recv, ⟨[6, 7], by decide⟩⟩ : ModelWatch ℕ ℕ)
      (.poll :: List.replicate 6 .task) =
        some ⟨7, false, [], .recv, ⟨[7, 7], by decide⟩⟩ := rfl
  have hinternal : ∀ e ∈ (.poll :: List.replicate 6 .task : List (WatchEvent ℕ)), Internal e := by
    simp [Internal]
  refine ⟨_, _, hrun, rfl, hexec, rfl, (reload_settles hrun hinternal hexec).2.2 ?_ rfl rfl⟩
  simp [writeDuringBuild]

end RTB.ModelWatch
