import RtbBidder.Proofs.BreakerProbe
import RtbBidder.Spec.BreakerCalls

/-! `allow_request` is linearizable. A call decides under its last lock, except one
that finds the breaker closed again there: it is refused as if at a moment in
between at which another call's probe was in flight. -/

namespace RTB

/-- The probe slot is taken exactly in half-open, and an open breaker knows when it
opened. -/
structure Inner.Settled (i : Inner) : Prop where
  probe : i.halfOpenProbeInFlight = true ↔ i.state = .HalfOpen
  opened : i.state = .Open → ∃ t, i.openedAt = some t

/-- What one step can make of the breaker's state at time `now`. -/
inductive Inner.Moves (cfg : BreakerConfig) (now : ℕ) (i : Inner) : Inner → Prop
  | stay : Moves cfg now i i
  | claim {t : ℕ} (hs : i.state = .Open) (ht : i.openedAt = some t)
      (hd : cfg.openDuration ≤ now - t) : Moves cfg now i ⟨.HalfOpen, some t, true⟩
  | trip (hs : i.state ≠ .Open) : Moves cfg now i ⟨.Open, some now, false⟩
  | close (hs : i.state = .HalfOpen) : Moves cfg now i ⟨.Closed, i.openedAt, false⟩

theorem Inner.Settled.moves {cfg : BreakerConfig} {now : ℕ} {i i' : Inner} (h : i.Settled)
    (hm : Inner.Moves cfg now i i') : i'.Settled := by
  cases hm with
  | stay => exact h
  | claim => exact ⟨by simp, by simp⟩
  | trip => exact ⟨by simp, fun _ => ⟨now, rfl⟩⟩
  | close => exact ⟨by simp, by simp⟩

namespace CircuitBreaker

variable {cfg : BreakerConfig} {now : ℕ} {b : CircuitBreaker}

theorem admission_of_allowRead {r : Bool} (h : b.allowRead cfg now = some r) :
    b.admission cfg now = (r, b) := by
  cases hs : b.inner.state with
  | Closed =>
    obtain rfl : true = r := by simpa [allowRead, hs] using h
    simp [admission, hs]
  | Open =>
    simp only [allowRead, hs] at h
    split_ifs at h with he
    obtain rfl := Option.some.inj h
    simp [admission, hs, he]
  | HalfOpen => simp [allowRead, hs] at h

/-- Under the write lock a breaker that is not closed is admitted from atomically. -/
theorem tryEnterHalfOpen_eq_admission (h : b.inner.state ≠ .Closed) :
    b.tryEnterHalfOpen cfg now = b.admission cfg now := by
  cases hs : b.inner.state with
  | Closed => exact absurd hs h
  | Open =>
    by_cases he : b.elapsed now < cfg.openDuration
    · simp [tryEnterHalfOpen, enterHalfOpen, admission, hs, he, not_le.2 he]
    · simp [tryEnterHalfOpen, enterHalfOpen, admission, hs, he, not_lt.1 he]
  | HalfOpen =>
    cases hp : b.inner.halfOpenProbeInFlight <;>
      simp [tryEnterHalfOpen, enterHalfOpen, admission, hs, hp]

theorem tryEnterHalfOpen_of_closed (h : b.inner.state = .Closed) :
    b.tryEnterHalfOpen cfg now = (false, b) := by
  simp [tryEnterHalfOpen, enterHalfOpen, h]

theorem elapsed_of_openedAt {t : ℕ} (h : b.inner.openedAt = some t) : b.elapsed now = now - t := by
  simp [elapsed, h]

theorem tryEnterHalfOpen_moves (h : b.inner.Settled) :
    Inner.Moves cfg now b.inner (b.tryEnterHalfOpen cfg now).2.inner := by
  by_cases hc : b.Claimable cfg now
  · rcases hc with ⟨hs, hp⟩ | ⟨hs, hd⟩
    · simp [h.probe.2 hs] at hp
    · obtain ⟨t, ht⟩ := h.opened hs
      rw [(tryEnterHalfOpen_claims (.inr ⟨hs, hd⟩)).2, ht]
      exact .claim hs ht (elapsed_of_openedAt ht ▸ hd)
  · rw [tryEnterHalfOpen_refuses hc]
    exact .stay

theorem recordLocked_moves {error slow : Bool} {snap : ℕ × ℕ × ℕ} (h : b.inner.Settled) :
    Inner.Moves cfg now b.inner (b.recordLocked cfg now error slow snap).inner := by
  have hfree : b.inner.state ≠ .HalfOpen → b.inner.halfOpenProbeInFlight = false := by
    intro hs
    simpa using mt h.probe.1 hs
  cases hs : b.inner.state with
  | Closed =>
    have htrip : ∀ w : Window, Inner.Moves cfg now b.inner (tripOpen now ⟨w, b.inner⟩).inner := by
      intro w
      have hinner : (tripOpen now ⟨w, b.inner⟩).inner = ⟨.Open, some now, false⟩ := by
        simp [tripOpen, hfree, hs]
      rw [hinner]
      exact .trip (by simp [hs])
    simp only [recordLocked, hs]
    split_ifs
    · exact htrip _
    · exact htrip _
    · exact .stay
    · exact .stay
  | Open =>
    simp only [recordLocked, hs]
    exact .stay
  | HalfOpen =>
    simp only [recordLocked, hs]
    split_ifs
    · exact .trip (by simp [hs])
    · exact .close hs

end CircuitBreaker

namespace BreakerCalls

open CircuitBreaker

variable {cfg : BreakerConfig} {s s' : BreakerCalls} {e : BreakerEvent} {evs : List BreakerEvent}
  {i : ℕ}

theorem acquire_cases (h : step cfg s (.acquire i) = some s') :
    (s.calls[i]? = some .read ∧ ∃ r, s.breaker.allowRead cfg s.now = some r ∧
      s' = { s with calls := s.calls.set i (.returned r) }) ∨
    (s.calls[i]? = some .read ∧ s.breaker.allowRead cfg s.now = none ∧
      s' = { s with calls := s.calls.set i .write }) ∨
    (s.calls[i]? = some .write ∧ s' = { s with
      breaker := (s.breaker.tryEnterHalfOpen cfg s.now).2
      calls := s.calls.set i (.returned (s.breaker.tryEnterHalfOpen cfg s.now).1) }) := by
  simp only [step] at h
  split at h
  · rename_i hc
    split at h
    · rename_i r hr
      exact .inl ⟨hc, r, hr, (Option.some.inj h).symm⟩
    · rename_i hr
      exact .inr (.inl ⟨hc, hr, (Option.some.inj h).symm⟩)
  · rename_i hc
    exact .inr (.inr ⟨hc, (Option.some.inj h).symm⟩)
  · cases h

/-- Time does not go back, and the breaker moves only while it stands still. -/
theorem step_moves (h : s.breaker.inner.Settled) (hs : step cfg s e = some s') :
    s.now ≤ s'.now ∧ Inner.Moves cfg s.now s.breaker.inner s'.breaker.inner ∧
      (s'.breaker.inner = s.breaker.inner ∨ s'.now = s.now) := by
  cases e with
  | advance d =>
    obtain rfl := Option.some.inj hs
    exact ⟨Nat.le_add_right _ _, .stay, .inl rfl⟩
  | allowRequest =>
    obtain rfl := Option.some.inj hs
    exact ⟨le_rfl, .stay, .inl rfl⟩
  | acquire i =>
    rcases acquire_cases hs with ⟨-, r, -, rfl⟩ | ⟨-, -, rfl⟩ | ⟨-, rfl⟩
    · exact ⟨le_rfl, .stay, .inl rfl⟩
    · exact ⟨le_rfl, .stay, .inl rfl⟩
    · exact ⟨le_rfl, tryEnterHalfOpen_moves h, .inr rfl⟩
  | window w =>
    obtain rfl := Option.some.inj hs
    exact ⟨le_rfl, .stay, .inl rfl⟩
  | recordLocked error slow snap =>
    obtain rfl := Option.some.inj hs
    exact ⟨le_rfl, recordLocked_moves h, .inr rfl⟩

theorem settled_init : init.breaker.inner.Settled :=
  ⟨by simp [init, CircuitBreaker.new], by simp [init, CircuitBreaker.new]⟩

theorem settled_run (h : Lib.Run (· = init) (Lib.Steps (step cfg)) evs s) :
    s.breaker.inner.Settled := by
  refine h.inv (I := fun s => s.breaker.inner.Settled) ?_
    fun s e s' hi hs => hi.moves (step_moves hi hs).2.1
  intro s hs
  exact hs ▸ settled_init

/-- A returned call's answer `r` and effect are those of an atomic admission in the
state `m` after `k` events, where `k` lies between the calls' first and last lock. The
last lock took the breaker from `b` to `b'`. -/
structure LinearizedAt (cfg : BreakerConfig) (evs : List BreakerEvent) (i : ℕ) (r : Bool)
    (first k last : ℕ) (m b b' : BreakerCalls) : Prop where
  firstLock : evs[first]? = some (.acquire i)
  lastLock : evs[last]? = some (.acquire i)
  locks : ∀ j, evs[j]? = some (.acquire i) → first ≤ j ∧ j ≤ last
  between : first ≤ k ∧ k ≤ last
  moment : At cfg evs k m
  before : At cfg evs last b
  after : At cfg evs (last + 1) b'
  answer : (m.breaker.admission cfg m.now).1 = r
  effect : k = last ∧ b'.breaker = (m.breaker.admission cfg m.now).2 ∨
    (m.breaker.admission cfg m.now).2 = m.breaker ∧ b'.breaker = b.breaker

/-- A call between its locks: if the breaker is closed now, it was half-open at a moment
since the first lock. -/
structure Waits (cfg : BreakerConfig) (evs : List BreakerEvent) (s : BreakerCalls) (i first : ℕ) :
    Prop where
  firstLock : evs[first]? = some (.acquire i)
  locks : ∀ j, evs[j]? = some (.acquire i) → j = first
  closed : s.breaker.inner.state = .Closed →
    ∃ k m, first ≤ k ∧ At cfg evs k m ∧ m.breaker.inner.state = .HalfOpen

/-- What is known of a call from where it is. -/
def Tracked (cfg : BreakerConfig) (evs : List BreakerEvent) (s : BreakerCalls) (i : ℕ) :
    Option AllowCall → Prop
  | none | some .read => .acquire i ∉ evs
  | some .write => ∃ first, Waits cfg evs s i first
  | some (.returned r) => ∃ first k last m b b', LinearizedAt cfg evs i r first k last m b b'

theorem getElem?_snoc {α : Type} {l : List α} {a x : α} {j : ℕ}
    (h : (l ++ [a])[j]? = some x) : l[j]? = some x ∨ j = l.length ∧ a = x := by
  rcases lt_trichotomy j l.length with hlt | rfl | hgt
  · rw [List.getElem?_append_left hlt] at h
    exact .inl h
  · simp only [List.getElem?_concat_length, Option.some.injEq] at h
    exact .inr ⟨rfl, h⟩
  · rw [List.getElem?_eq_none (by simpa using hgt)] at h
    cases h

theorem getElem?_snoc_of_some {α : Type} {l : List α} {x : α} {j : ℕ} (h : l[j]? = some x) (a : α) :
    (l ++ [a])[j]? = some x := by
  rw [List.getElem?_append_left (List.getElem?_eq_some_iff.1 h).1]
  exact h

theorem LinearizedAt.snoc {r : Bool} {first k last : ℕ} {m b b' : BreakerCalls}
    (h : LinearizedAt cfg evs i r first k last m b b') (he : e ≠ .acquire i) :
    LinearizedAt cfg (evs ++ [e]) i r first k last m b b' where
  firstLock := getElem?_snoc_of_some h.firstLock e
  lastLock := getElem?_snoc_of_some h.lastLock e
  locks := by
    intro j hj
    rcases getElem?_snoc hj with hj | ⟨-, hj⟩
    · exact h.locks j hj
    · exact absurd hj he
  between := h.between
  moment := h.moment.append _
  before := h.before.append _
  after := h.after.append _
  answer := h.answer
  effect := h.effect

theorem Waits.snoc {first : ℕ} (hrun : Lib.Run (· = init) (Lib.Steps (step cfg)) evs s)
    (h : Waits cfg evs s i first) (hs : step cfg s e = some s') (he : e ≠ .acquire i) :
    Waits cfg (evs ++ [e]) s' i first where
  firstLock := getElem?_snoc_of_some h.firstLock e
  locks := by
    intro j hj
    rcases getElem?_snoc hj with hj | ⟨-, hj⟩
    · exact h.locks j hj
    · exact absurd hj he
  closed := by
    intro hclosed
    by_cases hc : s.breaker.inner.state = .Closed
    · obtain ⟨k, m, hk, hm, hh⟩ := h.closed hc
      exact ⟨k, m, hk, hm.append _, hh⟩
    · -- the breaker closes in this step, so it is half-open before it
      have hhalf : s.breaker.inner.state = .HalfOpen := by
        have hmove := (step_moves (settled_run hrun) hs).2.1
        generalize s'.breaker.inner = i' at hclosed hmove
        cases hmove with
        | stay => exact absurd hclosed hc
        | claim => cases hclosed
        | trip => cases hclosed
        | close hs => exact hs
      exact ⟨evs.length, s, (List.getElem?_eq_some_iff.1 h.firstLock).1.le, hrun.at.append _, hhalf⟩

theorem Tracked.snoc {c : Option AllowCall}
    (hrun : Lib.Run (· = init) (Lib.Steps (step cfg)) evs s) (h : Tracked cfg evs s i c)
    (hs : step cfg s e = some s') (he : e ≠ .acquire i) : Tracked cfg (evs ++ [e]) s' i c := by
  match c with
  | none | some .read =>
    intro hmem
    rcases List.mem_append.1 hmem with hmem | hmem
    · exact h hmem
    · exact he (List.mem_singleton.1 hmem).symm
  | some .write =>
    obtain ⟨first, hw⟩ := h
    exact ⟨first, hw.snoc hrun hs he⟩
  | some (.returned r) =>
    obtain ⟨first, k, last, m, b, b', hl⟩ := h
    exact ⟨first, k, last, m, b, b', hl.snoc he⟩

/-- The call returns under the lock that it takes now. -/
theorem LinearizedAt.now {r : Bool} {first k : ℕ} {m : BreakerCalls}
    (hrun : Lib.Run (· = init) (Lib.Steps (step cfg)) evs s)
    (hs : step cfg s (.acquire i) = some s')
    (hfirst : (evs ++ [.acquire i])[first]? = some (.acquire i))
    (hlocks : ∀ j, (evs ++ [.acquire i])[j]? = some (.acquire i) → first ≤ j ∧ j ≤ evs.length)
    (hk : first ≤ k) (hm : At cfg evs k m) (hr : (m.breaker.admission cfg m.now).1 = r)
    (he : k = evs.length ∧ s'.breaker = (m.breaker.admission cfg m.now).2 ∨
      (m.breaker.admission cfg m.now).2 = m.breaker ∧ s'.breaker = s.breaker) :
    LinearizedAt cfg (evs ++ [.acquire i]) i r first k evs.length m s s' where
  firstLock := hfirst
  lastLock := by simp
  locks := hlocks
  between := ⟨hk, hm.1⟩
  moment := hm.append _
  before := hrun.at.append _
  after := by simpa using (hrun.snoc hs).at
  answer := hr
  effect := he

/-- A call that had taken no lock has taken only the latest one. -/
theorem locks_of_not_mem (h : BreakerEvent.acquire i ∉ evs) {j : ℕ}
    (hj : (evs ++ [.acquire i])[j]? = some (BreakerEvent.acquire i)) : j = evs.length := by
  rcases getElem?_snoc hj with hj | ⟨hj, -⟩
  · exact absurd (List.mem_of_getElem? hj) h
  · exact hj

theorem Waits.locks_le {first : ℕ} (h : Waits cfg evs s i first) {j : ℕ}
    (hj : (evs ++ [.acquire i])[j]? = some (BreakerEvent.acquire i)) :
    first ≤ j ∧ j ≤ evs.length := by
  have hlen := (List.getElem?_eq_some_iff.1 h.firstLock).1
  rcases getElem?_snoc hj with hj | ⟨rfl, -⟩
  · rw [h.locks j hj]
    exact ⟨le_rfl, hlen.le⟩
  · exact ⟨hlen.le, le_rfl⟩

/-- The call's own lock acquisition. -/
theorem Tracked.acquire (hrun : Lib.Run (· = init) (Lib.Steps (step cfg)) evs s)
    (h : Tracked cfg evs s i s.calls[i]?) (hs : step cfg s (.acquire i) = some s') :
    Tracked cfg (evs ++ [.acquire i]) s' i s'.calls[i]? := by
  have hlock : (evs ++ [BreakerEvent.acquire i])[evs.length]? = some (.acquire i) := by simp
  rcases acquire_cases hs with ⟨hc, r, hr, rfl⟩ | ⟨hc, hr, rfl⟩ | ⟨hc, rfl⟩
  · -- decided under the read lock
    rw [hc] at h
    rw [Lib.getElem?_set_moved hc]
    have hadm := admission_of_allowRead hr
    refine ⟨evs.length, evs.length, evs.length, s, s, _, .now hrun hs hlock ?_ le_rfl hrun.at
      (by rw [hadm]) (.inl ⟨rfl, by rw [hadm]⟩)⟩
    intro j hj
    exact ⟨(locks_of_not_mem h hj).ge, (locks_of_not_mem h hj).le⟩
  · rw [hc] at h
    rw [Lib.getElem?_set_moved hc]
    refine ⟨evs.length, hlock, fun j hj => locks_of_not_mem h hj, ?_⟩
    intro hclosed
    simp [allowRead, show s.breaker.inner.state = .Closed from hclosed] at hr
  · rw [hc] at h
    obtain ⟨first, hw⟩ := h
    have hfirst := getElem?_snoc_of_some hw.firstLock (BreakerEvent.acquire i)
    rw [Lib.getElem?_set_moved hc]
    by_cases hclosed : s.breaker.inner.state = .Closed
    · -- refused, as at the moment at which the breaker was half-open
      obtain ⟨k, m, hk, hm, hhalf⟩ := hw.closed hclosed
      have hprobe := (settled_run hm.2).probe.2 hhalf
      have hadm : m.breaker.admission cfg m.now = (false, m.breaker) := by
        simp [admission, hhalf, hprobe]
      have htry : s.breaker.tryEnterHalfOpen cfg s.now = (false, s.breaker) :=
        tryEnterHalfOpen_of_closed hclosed
      exact ⟨first, k, evs.length, m, s, _, .now hrun hs hfirst (fun j => hw.locks_le) hk hm
        (by rw [hadm, htry]) (.inr ⟨by rw [hadm], by rw [htry]⟩)⟩
    · have hadm : s.breaker.tryEnterHalfOpen cfg s.now = s.breaker.admission cfg s.now :=
        tryEnterHalfOpen_eq_admission hclosed
      have hlen := (List.getElem?_eq_some_iff.1 hw.firstLock).1
      exact ⟨first, evs.length, evs.length, s, s, _, .now hrun hs hfirst (fun j => hw.locks_le)
        hlen.le hrun.at (by rw [hadm]) (.inl ⟨rfl, by rw [hadm]⟩)⟩

theorem tracked_run (hrun : Lib.Run (· = init) (Lib.Steps (step cfg)) evs s) (i : ℕ) :
    Tracked cfg evs s i s.calls[i]? := by
  induction hrun generalizing i with
  | nil h =>
    subst h
    simp [init, Tracked]
  | @snoc evs s s' e hrun hs ih =>
    by_cases he : e = .acquire i
    · subst he
      exact Tracked.acquire hrun (ih i) hs
    have htracked := (ih i).snoc hrun hs he
    cases e with
    | advance d =>
      obtain rfl := Option.some.inj hs
      exact htracked
    | allowRequest =>
      obtain rfl := Option.some.inj hs
      dsimp only at htracked ⊢
      rcases lt_trichotomy i s.calls.length with hlt | rfl | hgt
      · rwa [List.getElem?_append_left hlt]
      · -- the new call has taken no lock, as none of its index could
        rw [List.getElem?_eq_none le_rfl] at htracked
        rw [List.getElem?_concat_length]
        exact htracked
      · rw [List.getElem?_eq_none (by simpa using hgt)]
        rwa [List.getElem?_eq_none hgt.le] at htracked
    | acquire j =>
      have hne : j ≠ i := fun h => he (h ▸ rfl)
      rcases acquire_cases hs with ⟨-, r, -, rfl⟩ | ⟨-, -, rfl⟩ | ⟨-, rfl⟩
      · rwa [List.getElem?_set_ne hne]
      · rwa [List.getElem?_set_ne hne]
      · rwa [List.getElem?_set_ne hne]
    | window w =>
      obtain rfl := Option.some.inj hs
      exact htracked
    | recordLocked error slow snap =>
      obtain rfl := Option.some.inj hs
      exact htracked

/-- The `k`-th event makes call `i` return `true`. -/
def Admits (cfg : BreakerConfig) (evs : List BreakerEvent) (k i : ℕ) : Prop :=
  evs[k]? = some (.acquire i) ∧ ∃ s, At cfg evs (k + 1) s ∧ s.calls[i]? = some (.returned true)

/-- A call is admitted by a closed breaker, or as the probe of one that has been open
long enough. -/
theorem Admits.state {k : ℕ} (h : Admits cfg evs k i) :
    ∃ s, At cfg evs k s ∧ (s.breaker.inner.state = .Closed ∨
      s.breaker.inner.state = .Open ∧ cfg.openDuration ≤ s.breaker.elapsed s.now) := by
  obtain ⟨hlock, s', hs', hret⟩ := h
  obtain ⟨s, e, hs, he, hstep⟩ := hs'.prev
  obtain rfl := Option.some.inj (hlock.symm.trans he)
  refine ⟨s, hs, ?_⟩
  rcases acquire_cases hstep with ⟨hc, r, hr, rfl⟩ | ⟨hc, -, rfl⟩ | ⟨hc, rfl⟩
  · rw [Lib.getElem?_set_moved hc] at hret
    obtain rfl : r = true := by simpa using hret
    cases hst : s.breaker.inner.state with
    | Closed => exact .inl rfl
    | Open => simp [allowRead, hst] at hr
    | HalfOpen => simp [allowRead, hst] at hr
  · rw [Lib.getElem?_set_moved hc] at hret
    simp at hret
  · rw [Lib.getElem?_set_moved hc] at hret
    by_cases hclaim : s.breaker.Claimable cfg s.now
    · rcases hclaim with ⟨hst, hp⟩ | hopen
      · simp [(settled_run hs.2).probe.2 hst] at hp
      · exact .inr hopen
    · rw [tryEnterHalfOpen_refuses hclaim] at hret
      simp at hret

/-- The breaker opened at `t` and has not been probed since, or `open_duration` is over. -/
structure OpenSince (cfg : BreakerConfig) (t : ℕ) (s : BreakerCalls) : Prop where
  settled : s.breaker.inner.Settled
  past : t ≤ s.now
  since : s.breaker.inner.state = .Open ∧ s.breaker.inner.openedAt = some t ∨
    t + cfg.openDuration ≤ s.now

theorem OpenSince.step {t : ℕ} (h : OpenSince cfg t s) (hs : step cfg s e = some s') :
    OpenSince cfg t s' := by
  obtain ⟨hnow, hmove, -⟩ := step_moves h.settled hs
  refine ⟨h.settled.moves hmove, h.past.trans hnow, ?_⟩
  rcases h.since with ⟨hopen, hat⟩ | hover
  · generalize s'.breaker.inner = i' at hmove
    cases hmove with
    | stay => exact .inl ⟨hopen, hat⟩
    | @claim t' _ ht hd =>
      obtain rfl : t' = t := Option.some.inj (ht.symm.trans hat)
      have := h.past
      exact .inr (by omega)
    | trip hne => exact absurd hopen hne
    | close hh =>
      rw [hopen] at hh
      cases hh
  · exact .inr (hover.trans hnow)

theorem OpenSince.of_opening {k : ℕ} (h : At cfg evs k s) (h' : At cfg evs (k + 1) s')
    (hnot : s.breaker.inner.state ≠ .Open) (hopen : s'.breaker.inner.state = .Open) :
    OpenSince cfg s'.now s' := by
  obtain ⟨s₁, e, hs₁, -, hs⟩ := h'.prev
  obtain rfl := h.det hs₁
  obtain ⟨-, hmove, hsame⟩ := step_moves (settled_run h.2) hs
  have hnow : s'.now = s.now := hsame.resolve_left fun heq => hnot (heq ▸ hopen)
  refine ⟨settled_run h'.2, le_rfl, .inl ⟨hopen, ?_⟩⟩
  rw [hnow]
  generalize s'.breaker.inner = i' at hmove hopen
  cases hmove with
  | stay => exact absurd hopen hnot
  | claim => cases hopen
  | trip => rfl
  | close => cases hopen

/-- Every `allow_request` is one atomic admission at a moment between its first and its
last lock; from the moment the breaker opens no call is admitted before
`open_duration` is over; and no two calls are admitted in one half-open episode. -/
theorem admission_linearizable (hrun : Lib.Run (· = init) (Lib.Steps (step cfg)) evs s) :
    (∀ i r, s.calls[i]? = some (.returned r) →
      ∃ first k last m b b', LinearizedAt cfg evs i r first k last m b b') ∧
    (∀ k s₁ s₂, At cfg evs k s₁ → At cfg evs (k + 1) s₂ →
      s₁.breaker.inner.state ≠ .Open → s₂.breaker.inner.state = .Open →
      ∀ k' i s', k < k' → Admits cfg evs k' i → At cfg evs k' s' →
        s₂.now + cfg.openDuration ≤ s'.now) ∧
    (∀ k k' i i', k < k' →
      (∀ j s, k < j → j ≤ k' → At cfg evs j s → s.breaker.inner.state = .HalfOpen) →
      Admits cfg evs k i → ¬ Admits cfg evs k' i') := by
  refine ⟨?_, ?_, ?_⟩
  · intro i r hret
    have := tracked_run hrun i
    rwa [hret] at this
  · intro k s₁ s₂ h₁ h₂ hnot hopen k' i s' hk hadm hs'
    have hsince : OpenSince cfg s₂.now s' :=
      h₂.inv_from (fun _ _ _ h hs => h.step hs) hs' hk (.of_opening h₁ h₂ hnot hopen)
    obtain ⟨s'', hs'', hstate⟩ := hadm.state
    obtain rfl := hs''.det hs'
    rcases hsince.since with ⟨hst, hat⟩ | hover
    · rcases hstate with hclosed | ⟨-, hlong⟩
      · rw [hst] at hclosed
        cases hclosed
      · rw [elapsed_of_openedAt hat] at hlong
        have := hsince.past
        omega
    · exact hover
  · intro k k' i i' hk hhalf _ hadm
    obtain ⟨s', hs', hstate⟩ := hadm.state
    rw [hhalf k' s' hk le_rfl hs'] at hstate
    simp at hstate

/-- Two calls find the breaker open long enough. The second one probes and closes it
before the first takes its write lock, where it is refused by a closed breaker. -/
theorem admission_linearizable_overtaken :
    ∃ evs s, Lib.Run (· = init) (Lib.Steps (step .redis)) evs s ∧
      s.calls = [.returned false, .returned true] ∧ s.breaker.inner.state = .Closed ∧
      ∃ first k last m b b', LinearizedAt .redis evs 0 false first k last m b b' := by
  let evs : List BreakerEvent := [.recordLocked true false (20, 20, 0), .advance 10000000,
    .allowRequest, .allowRequest, .acquire 0, .acquire 1, .acquire 1,
    .recordLocked false false (1, 0, 0), .acquire 0]
  obtain ⟨s, hrun, hcalls, hclosed⟩ := Lib.run_of_exec_any
    (P := fun s : BreakerCalls => s.calls = [.returned false, .returned true] ∧
      s.breaker.inner.state = .Closed)
    (show (Lib.exec (step .redis) init evs).any _ = true by decide +kernel)
  exact ⟨evs, s, hrun, hcalls, hclosed,
    (admission_linearizable hrun).1 0 false (by rw [hcalls]; rfl)⟩

end BreakerCalls

end RTB
