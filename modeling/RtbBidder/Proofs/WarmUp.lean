import RtbBidder.Spec.WarmCache

/-! Whether `warm_cache` can undo a count. It compares and stores in two operations, and
the increments of `record_impression` come in between without the guard. The store keeps
what they counted as long as it brings the counter at least as far. -/

namespace RTB

/-- A store to come brings the counter at least as far as the increments since the load. -/
def WarmCall.covered (incrs : CapCounter → ℕ) (w : WarmCall) : Bool :=
  match w.phase with
  | .store c loaded before => loaded.toInt + ((incrs c : ℤ) - before) ≤ (w.target c).toInt
  | _ => true

/-- The counter that a `record_impression` call increments next. -/
def RecordIncr.next : RecordIncr → Option CapCounter
  | .incr c => some c
  | .returned => none

namespace CapEntry

variable {s s' : CapEntry} {e : CapEntryEvent} {evs : List CapEntryEvent} {c : CapCounter}
  {v : CapCounter → Int64} {w : WarmCall}

/-- No counter goes down. -/
def Kept (s s' : CapEntry) : Prop :=
  ∀ v ∈ s.counters, ∃ v' ∈ s'.counters, ∀ c, v c ≤ v' c

/-- No increment wraps around, and between the load and the store of a counter at most as
many increments arrive as the store adds to what was loaded. -/
def Covered (s : CapEntry) : CapEntryEvent → Prop
  | .stepWarm => ∀ w ∈ s.warming, w.covered s.incrs = true
  | .stepRecord i => ∀ r ∈ s.records[i]?, ∀ c ∈ r.next, ∀ v ∈ s.counters, v c ≠ Int64.maxValue
  | _ => True

instance (s : CapEntry) : (e : CapEntryEvent) → Decidable (s.Covered e)
  | .stepWarm => inferInstanceAs (Decidable (∀ w ∈ s.warming, w.covered s.incrs = true))
  | .stepRecord i => inferInstanceAs
      (Decidable (∀ r ∈ s.records[i]?, ∀ c ∈ r.next, ∀ v ∈ s.counters, v c ≠ Int64.maxValue))
  | .warm _ _ | .record => .isTrue trivial

/-- What the running calls rely on. -/
structure Sound (s : CapEntry) : Prop where
  warming : s.warming.isSome → s.counters.isSome
  records : s.records ≠ [] → s.counters.isSome
  pending : ∀ w ∈ s.warming, ∀ c loaded before, w.phase = .store c loaded before →
    ∀ v ∈ s.counters, (v c).toInt = loaded.toInt + ((s.incrs c : ℤ) - before)

theorem Sound.init : init.Sound := by
  refine ⟨?_, ?_, ?_⟩
  · intro h
    cases h
  · intro h
    exact absurd rfl h
  · intro w hw
    cases hw

theorem toInt_succ {a : Int64} (h : a ≠ Int64.maxValue) : (a + 1).toInt = a.toInt + 1 := by
  have hmax : a.toInt ≠ 2 ^ 63 - 1 := fun heq => h (Int64.toInt_inj.1 heq)
  have hlt := a.toInt_lt
  have hle := a.le_toInt
  rw [Int64.toInt_add, Int64.toInt_one, Int.bmod_eq_of_le] <;> omega

theorem le_succ_iff {a : Int64} : a ≤ a + 1 ↔ a ≠ Int64.maxValue := by
  refine ⟨?_, ?_⟩
  · rintro hle rfl
    exact absurd hle (by decide)
  · intro h
    rw [Int64.le_iff_toInt_le, toInt_succ h]
    omega

theorem kept_of_eq (h : s'.counters = s.counters) : Kept s s' :=
  fun v hv => ⟨v, h ▸ hv, fun _ => Int64.le_refl _⟩

theorem kept_orInsert (s : CapEntry) (values : CapCounter → Int64) : Kept s (s.orInsert values) := by
  intro v hv
  have hcounters : s.counters = some v := hv
  exact ⟨v, by simp [orInsert, hcounters], fun _ => Int64.le_refl _⟩

/-- A step that writes one counter. -/
theorem kept_update {x : Int64} (hv : s.counters = some v)
    (hv' : s'.counters = some (Function.update v c x)) : Kept s s' ↔ v c ≤ x := by
  refine ⟨?_, ?_⟩
  · intro h
    obtain ⟨v', hmem, hle⟩ := h v hv
    obtain rfl : _ = v' := Option.some.inj (hv'.symm.trans hmem)
    simpa using hle c
  · rintro hle v₁ hv₁
    obtain rfl : v = v₁ := Option.some.inj (hv.symm.trans hv₁)
    refine ⟨_, hv', ?_⟩
    intro c'
    by_cases hc : c' = c
    · subst hc
      simpa using hle
    · rw [Function.update_of_ne hc]
      exact Int64.le_refl _

/-- The load of `warm_cache`, its store and its end. -/
inductive WarmStep (s : CapEntry) (w : WarmCall) : CapEntry → Prop
  | load (c : CapCounter) (v : CapCounter → Int64) (hp : w.phase = .load c)
      (hv : s.counters = some v) (hlt : v c < w.target c) :
      WarmStep s w { s with warming := some { w with phase := .store c (v c) (s.incrs c) } }
  | skip (c : CapCounter) (hp : w.phase = .load c) :
      WarmStep s w { s with warming := some { w with phase := WarmCall.afterCounter c } }
  | store (c : CapCounter) (loaded : Int64) (before : ℕ) (hp : w.phase = .store c loaded before) :
      WarmStep s w
        { s.put c (w.target c) with warming := some { w with phase := WarmCall.afterCounter c } }
  | release (hp : w.phase = .release) : WarmStep s w { s with warming := none }

theorem warmStep (hs : s.stepWarm w = some s') : WarmStep s w s' := by
  unfold stepWarm at hs
  split at hs
  · rename_i c hp
    obtain ⟨v, hv, rfl⟩ := Option.map_eq_some_iff.1 hs
    by_cases hlt : v c < w.target c
    · rw [if_pos hlt]
      exact .load c v hp hv hlt
    · rw [if_neg hlt]
      exact .skip c hp
  · rename_i c loaded before hp
    obtain rfl := Option.some.inj hs
    exact .store c loaded before hp
  · rename_i hp
    obtain rfl := Option.some.inj hs
    exact .release hp

theorem afterCounter_ne_store {c' : CapCounter} {loaded : Int64} {before : ℕ} :
    WarmCall.afterCounter c ≠ .store c' loaded before := by
  cases c <;> simp [WarmCall.afterCounter]

theorem stepRecord_inv {i : ℕ} (hs : step s (.stepRecord i) = some s') :
    ∃ c, s.records[i]? = some (.incr c) ∧
      s' = { s.incr c with records := s.records.set i (RecordIncr.afterCounter c) } := by
  simp only [step] at hs
  split at hs
  · rename_i c hi
    exact ⟨c, hi, (Option.some.inj hs).symm⟩
  · cases hs

theorem Sound.counters_of_record (h : s.Sound) {i : ℕ} {r : RecordIncr}
    (hi : s.records[i]? = some r) : ∃ v, s.counters = some v := by
  apply Option.isSome_iff_exists.1
  apply h.records
  intro hnil
  simp [hnil] at hi

theorem Sound.counters_of_warming (h : s.Sound) (hw : s.warming = some w) :
    ∃ v, s.counters = some v := by
  apply Option.isSome_iff_exists.1
  apply h.warming
  simp [hw]

theorem Sound.stepWarm (h : s.Sound) (hw : s.warming = some w) (hs : WarmStep s w s') :
    s'.Sound := by
  obtain ⟨v, hv⟩ := h.counters_of_warming hw
  have hsome : s.counters.isSome := by rw [hv]; rfl
  cases hs with
  | load c v hp hv hlt =>
    refine ⟨fun _ => hsome, fun _ => hsome, ?_⟩
    intro w' hw' c' loaded before hp' v' hv'
    obtain rfl : _ = w' := Option.some.inj hw'
    obtain ⟨rfl, rfl, rfl⟩ := WarmPhase.store.inj hp'
    obtain rfl : v = v' := Option.some.inj (hv.symm.trans hv')
    simp
  | skip c hp =>
    refine ⟨fun _ => hsome, fun _ => hsome, ?_⟩
    intro w' hw' c' loaded before hp'
    obtain rfl : _ = w' := Option.some.inj hw'
    exact absurd hp' afterCounter_ne_store
  | store c loaded before hp =>
    have hsome' : (s.put c (w.target c)).counters.isSome := by simpa [put] using hsome
    refine ⟨fun _ => hsome', fun _ => hsome', ?_⟩
    intro w' hw' c' loaded before hp'
    obtain rfl : _ = w' := Option.some.inj hw'
    exact absurd hp' afterCounter_ne_store
  | release hp =>
    refine ⟨fun _ => hsome, fun _ => hsome, ?_⟩
    intro w' hw'
    cases hw'

/-- An increment that does not wrap moves the counter of a pending store by one. -/
theorem Sound.incr (h : s.Sound) (hv : s.counters = some v) (hmax : v c ≠ Int64.maxValue)
    {records : List RecordIncr} : Sound { s.incr c with records := records } := by
  refine ⟨fun _ => by simp [CapEntry.incr, hv], fun _ => by simp [CapEntry.incr, hv], ?_⟩
  intro w hw c' loaded before hp v' hv'
  obtain rfl : Function.update v c (v c + 1) = v' := by simpa [CapEntry.incr, hv] using hv'
  have hold := h.pending w hw c' loaded before hp v hv
  by_cases hc : c' = c
  · subst hc
    have hsucc := toInt_succ hmax
    simp only [CapEntry.incr, Function.update_self, Nat.cast_add, Nat.cast_one]
    omega
  · simp only [CapEntry.incr, Function.update_of_ne hc]
    exact hold

theorem Sound.step (h : s.Sound) (hok : s.Covered e) (hs : step s e = some s') : s'.Sound := by
  cases e with
  | warm day hour =>
    simp only [CapEntry.step] at hs
    split_ifs at hs
    obtain rfl := Option.some.inj hs
    refine ⟨fun _ => by simp [orInsert], fun _ => by simp [orInsert], ?_⟩
    intro w hw c loaded before hp
    obtain rfl : _ = w := Option.some.inj hw
    cases hp
  | stepWarm =>
    obtain ⟨w, hw, hs⟩ := Option.bind_eq_some_iff.1 hs
    exact h.stepWarm hw (warmStep hs)
  | record =>
    simp only [CapEntry.step] at hs
    split_ifs at hs with hfree
    obtain rfl := Option.some.inj hs
    refine ⟨fun _ => by simp [orInsert], fun _ => by simp [orInsert], ?_⟩
    intro w hw
    exact absurd (by rw [show s.warming = some w from hw]; rfl) hfree
  | stepRecord i =>
    obtain ⟨c, hi, rfl⟩ := stepRecord_inv hs
    obtain ⟨v, hv⟩ := h.counters_of_record hi
    exact h.incr hv (hok _ hi c rfl v hv)

/-- A step keeps every count exactly if it is covered. -/
theorem kept_iff (h : s.Sound) (hs : step s e = some s') : Kept s s' ↔ s.Covered e := by
  cases e with
  | warm day hour =>
    simp only [CapEntry.step] at hs
    split_ifs at hs
    obtain rfl := Option.some.inj hs
    exact iff_of_true (kept_orInsert s _) trivial
  | stepWarm =>
    obtain ⟨w, hw, hs⟩ := Option.bind_eq_some_iff.1 hs
    have hcovered : s.Covered .stepWarm ↔ w.covered s.incrs = true := by simp [Covered, hw]
    rw [hcovered]
    cases warmStep hs with
    | load c v hp hv hlt => exact iff_of_true (kept_of_eq rfl) (by rw [WarmCall.covered, hp])
    | skip c hp => exact iff_of_true (kept_of_eq rfl) (by rw [WarmCall.covered, hp])
    | store c loaded before hp =>
      obtain ⟨v, hv⟩ := h.counters_of_warming hw
      have hnow := h.pending w hw c loaded before hp v hv
      refine (kept_update hv (by rw [put, hv]; rfl)).trans ?_
      rw [Int64.le_iff_toInt_le, hnow]
      simp [WarmCall.covered, hp]
    | release hp => exact iff_of_true (kept_of_eq rfl) (by rw [WarmCall.covered, hp])
  | record =>
    simp only [CapEntry.step] at hs
    split_ifs at hs
    obtain rfl := Option.some.inj hs
    exact iff_of_true (kept_orInsert s _) trivial
  | stepRecord i =>
    obtain ⟨c, hi, rfl⟩ := stepRecord_inv hs
    obtain ⟨v, hv⟩ := h.counters_of_record hi
    have hcovered : s.Covered (.stepRecord i) ↔ v c ≠ Int64.maxValue := by
      simp [Covered, hi, hv, RecordIncr.next]
    rw [hcovered, ← le_succ_iff]
    exact kept_update hv (by simp [incr, hv])

/-- The runs in which every store is covered and no increment wraps. -/
abbrev CoveredRun : List CapEntryEvent → CapEntry → Prop :=
  Lib.Run (· = init) (Lib.Guarded Covered (Lib.Steps step))

theorem sound_run (h : CoveredRun evs s) : s.Sound := by
  refine h.inv (I := Sound) ?_ fun s e s' hs hstep => hs.step hstep.1 hstep.2
  rintro s rfl
  exact .init

/-- No step of a run takes a counter down exactly if, between each load and store of
`warm_cache`, no more increments arrive than the store adds, and no increment wraps. -/
theorem counts_kept_iff (h : Reached evs s) :
    (∀ k t t', Lib.At (· = init) (Lib.Steps step) evs k t →
      Lib.At (· = init) (Lib.Steps step) evs (k + 1) t' → Kept t t') ↔ CoveredRun evs s := by
  apply h.every_step_iff
  intro evs s e s' hrun hs
  exact kept_iff (sound_run hrun) hs

/-- Two calls of `record_impression` hold the counters, at 0, when `warm_cache` reads the
day counter to raise it to 1; both count before it stores. -/
def overtaken : List CapEntryEvent :=
  [.record, .record, .warm 1 1, .stepWarm, .stepRecord 0, .stepRecord 1]

theorem warm_undoes_count :
    ∃ s s', Reached overtaken s ∧ step s .stepWarm = some s' ∧
      s.counters.map (· .day) = some 2 ∧ s'.counters.map (· .day) = some 1 := by
  obtain ⟨s, hrun, hday, hnext⟩ := Lib.run_of_exec_any
    (P := fun s => s.counters.map (· .day) = some 2 ∧
      (step s .stepWarm).any (fun s' => s'.counters.map (· .day) = some 1) = true)
    (show (Lib.exec step init overtaken).any _ = true by decide +kernel)
  obtain ⟨s', hs', hday'⟩ := (Option.any_eq_true _ _).1 hnext
  exact ⟨s, s', hrun, hs', hday, of_decide_eq_true hday'⟩

/-- An impression is recorded between the load and the store of a larger count. -/
def covered : List CapEntryEvent :=
  [.record, .warm 5 5, .stepWarm, .stepRecord 0, .stepWarm, .stepWarm, .stepRecord 0, .stepWarm,
   .stepWarm]

theorem counts_kept_covered :
    ∃ s, Reached covered s ∧ s.warming = none ∧ s.counters.map (· .hour) = some 5 ∧
      ∀ k t t', Lib.At (· = init) (Lib.Steps step) covered k t →
        Lib.At (· = init) (Lib.Steps step) covered (k + 1) t' → Kept t t' := by
  obtain ⟨s, hrun, hdone, hhour⟩ := Lib.run_of_exec_any
    (P := fun s : CapEntry => s.warming = none ∧ s.counters.map (· .hour) = some 5)
    (show (Lib.exec (fun s e => if s.Covered e then step s e else none) init covered).any _ = true by
      decide +kernel)
  have hguarded := hrun.guarded_of_check
  exact ⟨s, hguarded.of_guarded, hdone, hhour, (counts_kept_iff hguarded.of_guarded).2 hguarded⟩

end CapEntry

end RTB
