import RtbBidder.Proofs.WinOnce

/-! When a win is counted at most once in the lifetime of a frequency counter: the
dedup TTL has to cover the longest counter window and the delay of the writes. -/

namespace RTB

open WinNoticeGateService

namespace CounterWrite

variable {w w' : CounterWrite}

/-- The counters it has yet to write. -/
def keys (w : CounterWrite) : List String := w.todo.map fun window => w.key window.1

theorem key_inj {window window' : CapWindow} (hk : w.key window = w.key window') :
    window = window' := (fcKey_inj hk).2.2

/-- What a counter write has to do is the end of the list of windows. -/
theorem todo_cases (hw : w.todo <:+ counterWindows) (hne : w.todo ≠ []) :
    ∃ window ttlSecs rest, w.todo = (window, ttlSecs) :: rest ∧ 0 < ttlSecs ∧ ttlSecs ≤ 86400 ∧
      window ∉ rest.map Prod.fst := by
  obtain ⟨done, hdone⟩ := hw
  unfold counterWindows at hdone
  rcases done with _ | ⟨a, _ | ⟨b, done⟩⟩
  · exact ⟨.Hour, 3600, _, hdone, by decide⟩
  · obtain ⟨-, hdone⟩ := List.cons.inj hdone
    exact ⟨.Day, 86400, _, hdone, by decide⟩
  · simp_all

theorem next_todo (hn : w.next = some w') (hw : w.todo <:+ counterWindows) :
    w'.todo <:+ counterWindows := by
  rw [(next_eq_some hn).2.2.1]
  exact (List.tail_suffix _).trans hw

theorem next_keys (hn : w.next = some w') : w'.keys = w.keys.tail := by
  obtain ⟨-, hevent, htodo, -⟩ := next_eq_some hn
  unfold keys key
  rw [hevent, htodo, List.map_tail]

end CounterWrite

section Counter

variable {counters : Lib.Keyspace String Counter} {now ttlSecs : ℕ} {key key' : String}
  {win : CountedWin}

theorem incrExpire_entries_ne (hk : key' ≠ key) :
    (incrExpire counters now key ttlSecs win).entries key' = counters.entries key' := by
  unfold incrExpire
  split <;> simp [Lib.Keyspace.put, hk]

/-- The counter script counts on in a live counter, and starts one otherwise. -/
theorem incrExpire_entries_self : (incrExpire counters now key ttlSecs win).entries key =
    match counters.live now key with
    | some (c, expires) => some (⟨c.count + 1, c.wins ++ [win]⟩,
        if c.count + 1 = 1 then now + ttlSecs * 1000 else expires)
    | none => some (⟨1, [win]⟩, now + ttlSecs * 1000) := by
  unfold incrExpire
  cases counters.live now key <;> simp [Lib.Keyspace.put]

end Counter

namespace WinSystem

variable {h : Hmac} {svc : WinNoticeGateService} {s s' : WinSystem} {e : WinStep}
  {evs : List WinStep} {δ : ℕ}

/-- A counter is written at most `δ` ms after a `SET` of its win was applied. -/
def Prompt (δ : ℕ) (s : WinSystem) : WinStep → Prop
  | .write j => ∀ w ∈ s.workers[j]?, ∃ v ∈ s.handlers[w.handler]?, ∃ t ∈ v.applied, s.now ≤ t + δ
  | _ => True

instance (δ : ℕ) (s : WinSystem) : (e : WinStep) → Decidable (Prompt δ s e)
  | .write j => inferInstanceAs (Decidable
      (∀ w ∈ s.workers[j]?, ∃ v ∈ s.handlers[w.handler]?, ∃ t ∈ v.applied, s.now ≤ t + δ))
  | .tick _ | .receive _ | .authenticate _ | .serve _ | .reply _ _ | .fail _ | .cancel _ | .record _
  | .publish _ | .take | .writeFails _ => .isTrue trivial

/-- The ids of the notice that a handler is for. -/
def idsOf (s : WinSystem) (i : ℕ) : Option (String × String) :=
  (s.handlers[i]?).map fun w => (w.params.requestId, w.params.impId)

/-- No counter has counted one pair of ids twice since it was created. -/
def CountedOnce (s : WinSystem) : Prop := ∀ key c expires,
  s.counters.entries key = some (c, expires) → (c.wins.map fun win => s.idsOf win.handler).Nodup

/-- A win counted in the counter at `key`: when, after which `SET`, and that its handler
has nothing more to write there. -/
structure WinCounted (δ : ℕ) (s : WinSystem) (key : String) (expires : ℕ) (win : CountedWin) :
    Prop where
  past : win.time ≤ s.now
  lives : win.time < expires
  expires_le : expires ≤ win.time + 86400000
  handler : ∃ v, s.handlers[win.handler]? = some v ∧ v.recordCalls ≠ [] ∧
    ∃ t ∈ v.applied, t ≤ win.time ∧ win.time ≤ t + δ
  finished : ∀ p ∈ s.pending, p.handler = win.handler → key ∉ p.keys

structure CounterOk (δ : ℕ) (s : WinSystem) (key : String) (c : Counter) (expires : ℕ) : Prop where
  count : c.count = c.wins.length
  ne_nil : c.wins ≠ []
  distinct : (c.wins.map CountedWin.handler).Nodup
  wins : ∀ win ∈ c.wins, WinCounted δ s key expires win

structure Counts (δ : ℕ) (s : WinSystem) : Prop where
  distinct : (s.pending.map CounterWrite.handler).Nodup
  todo : ∀ p ∈ s.pending, p.todo <:+ counterWindows ∧ p.todo ≠ []
  counters : ∀ key c expires, s.counters.entries key = some (c, expires) → CounterOk δ s key c expires

theorem WinCounted.step {key : String} {expires : ℕ} {win : CountedWin}
    (hw : WinCounted δ s key expires win) (hc : Change h svc s s' e) (hn : s.now ≤ s'.now)
    (hp : ∀ p ∈ s'.pending, p.handler = win.handler →
      ∃ q ∈ s.pending, q.handler = p.handler ∧ p.keys ⊆ q.keys) :
    WinCounted δ s' key expires win where
  past := hw.past.trans hn
  lives := hw.lives
  expires_le := hw.expires_le
  handler := by
    obtain ⟨v, hv, hcalls, t, ht, htimes⟩ := hw.handler
    obtain ⟨v', hv', -, happ, hrec⟩ := handlers_grow hc hv
    refine ⟨v', hv', ?_, t, happ ht, htimes⟩
    intro hnil
    rw [hnil] at hrec
    exact hcalls (List.subset_nil.1 hrec)
  finished := by
    intro p hpp hhandler hkey
    obtain ⟨q, hq, hqp, hkeys⟩ := hp p hpp hhandler
    exact hw.finished q hq (hqp.trans hhandler) (hkeys hkey)

theorem CounterOk.step {key : String} {c : Counter} {expires : ℕ} (hok : CounterOk δ s key c expires)
    (hc : Change h svc s s' e) (hn : s.now ≤ s'.now)
    (hp : ∀ win ∈ c.wins, ∀ p ∈ s'.pending, p.handler = win.handler →
      ∃ q ∈ s.pending, q.handler = p.handler ∧ p.keys ⊆ q.keys) :
    CounterOk δ s' key c expires :=
  ⟨hok.count, hok.ne_nil, hok.distinct, fun win hwin => (hok.wins win hwin).step hc hn (hp win hwin)⟩

theorem now_le (hc : Change h svc s s' e) : s.now ≤ s'.now := by
  cases hc with
  | quiet _ _ hn => exact hn
  | received _ _ _ hn => exact hn.ge
  | moved _ _ _ _ _ _ _ hn => exact hn.ge
  | served i w _ _ _ hs => exact hs ▸ le_rfl

/-- A counter write after its next window, among the others. -/
theorem wrote_pending {w p : CounterWrite} {rest : List CounterWrite}
    (hp' : s'.pending.Perm (w.next.toList ++ rest)) (hp : p ∈ s'.pending) :
    (w.next = some p ∧ p.handler = w.handler ∧ p.keys = w.keys.tail) ∨ p ∈ rest := by
  rcases List.mem_append.1 (hp'.subset hp) with hnext | hrest
  · have hnext := Option.mem_toList.1 hnext
    exact .inl ⟨hnext, (CounterWrite.next_eq_some hnext).1, CounterWrite.next_keys hnext⟩
  · exact .inr hrest

/-- The win that a counter script counts. -/
theorem winCounted_write (hs : Sound h svc s) (hk : Counts δ s) (hc : Change h svc s s' e) {j : ℕ}
    {w : CounterWrite} {rest : List CounterWrite} (hw : s.workers[j]? = some w)
    (hperm : s.pending.Perm (w :: rest)) (hperm' : s'.pending.Perm (w.next.toList ++ rest))
    (hprompt : Prompt δ s (.write j)) {window : CapWindow} {ttlSecs : ℕ}
    {todo : List (CapWindow × ℕ)} (htodo : w.todo = (window, ttlSecs) :: todo)
    (hfresh : window ∉ todo.map Prod.fst) {expires : ℕ} (hlt : s.now < expires)
    (hle : expires ≤ s.now + 86400000) :
    WinCounted δ s' (w.key window) expires ⟨w.handler, s.now⟩ where
  past := now_le hc
  lives := hlt
  expires_le := hle
  handler := by
    obtain ⟨v, hv, t, ht, hδ⟩ := hprompt w hw
    obtain ⟨v₁, hv₁, hmem⟩ := hs.issued w (hperm.symm.subset (by simp))
    obtain rfl := Option.some.inj (hv₁.symm.trans hv)
    obtain ⟨v', hv', -, happ, hcalls⟩ := handlers_grow hc hv
    exact ⟨v', hv', List.ne_nil_of_mem (hcalls hmem), t, happ ht,
      hs.ledger.past _ (List.mem_of_getElem? hv) t ht, hδ⟩
  finished := by
    intro p hp hhandler
    rcases wrote_pending hperm' hp with ⟨-, -, hkeys⟩ | hrest
    · rw [hkeys, CounterWrite.keys, htodo, List.map_cons, List.tail_cons]
      intro hmem
      obtain ⟨window', hmem', hkey⟩ := List.mem_map.1 hmem
      exact hfresh (List.mem_map.2 ⟨window', hmem', CounterWrite.key_inj hkey⟩)
    · -- no other counter write has the same handler
      have hdistinct := (hperm.map CounterWrite.handler).nodup_iff.1 hk.distinct
      rw [List.map_cons, List.nodup_cons] at hdistinct
      exact absurd (List.mem_map.2 ⟨p, hrest, hhandler⟩) hdistinct.1

theorem counterOk_write (hs : Sound h svc s) (hk : Counts δ s) (hc : Change h svc s s' e) {j : ℕ}
    {w : CounterWrite} {rest : List CounterWrite} (hw : s.workers[j]? = some w)
    (hperm : s.pending.Perm (w :: rest)) (hperm' : s'.pending.Perm (w.next.toList ++ rest))
    (hprompt : Prompt δ s (.write j)) (hcounters : s'.counters = (s.writeCounter w).counters)
    (hold : ∀ key c expires, s.counters.entries key = some (c, expires) → CounterOk δ s' key c expires)
    {key : String} {c : Counter} {expires : ℕ} (hc' : s'.counters.entries key = some (c, expires)) :
    CounterOk δ s' key c expires := by
  have hmem : w ∈ s.pending := hperm.symm.subset (by simp)
  obtain ⟨window, ttlSecs, todo, htodo, hpos, hle, hfresh⟩ :=
    CounterWrite.todo_cases (hk.todo w hmem).1 (hk.todo w hmem).2
  have hwin {expires : ℕ} (hlt : s.now < expires) (hle : expires ≤ s.now + 86400000) :=
    winCounted_write hs hk hc hw hperm hperm' hprompt htodo hfresh hlt hle
  have hput : s'.counters = incrExpire s.counters s.now (w.key window) ttlSecs ⟨w.handler, s.now⟩ := by
    rw [hcounters]
    simp only [writeCounter, htodo]
  by_cases hkey : key = w.key window
  · subst hkey
    rw [hput, incrExpire_entries_self] at hc'
    cases hlive : s.counters.live s.now (w.key window) with
    | some e₀ =>
      obtain ⟨c₀, exp₀⟩ := e₀
      obtain ⟨hentry, hlt⟩ := Lib.Keyspace.live_eq_some.1 hlive
      have hok := hk.counters _ _ _ hentry
      obtain ⟨win₀, hwin₀⟩ := List.exists_mem_of_ne_nil _ hok.ne_nil
      have hcount : c₀.count + 1 ≠ 1 := by
        have := List.length_pos_of_mem hwin₀
        have := hok.count
        omega
      simp only [hlive, if_neg hcount, Option.some.injEq, Prod.mk.injEq] at hc'
      obtain ⟨rfl, rfl⟩ := hc'
      have hexp : exp₀ ≤ s.now + 86400000 := by
        have := (hok.wins win₀ hwin₀).expires_le
        have := (hok.wins win₀ hwin₀).past
        omega
      refine ⟨by simp [hok.count], by simp, ?_, ?_⟩
      · rw [List.map_append, List.map_singleton]
        refine hok.distinct.append (List.nodup_singleton _) (List.disjoint_singleton.2 ?_)
        intro hcounted
        obtain ⟨win, hwin', hhandler⟩ := List.mem_map.1 hcounted
        exact (hok.wins win hwin').finished w hmem hhandler.symm (by simp [CounterWrite.keys, htodo])
      · intro win hmem
        rcases List.mem_append.1 hmem with hmem | hmem
        · exact (hold _ _ _ hentry).wins win hmem
        · obtain rfl := List.mem_singleton.1 hmem
          exact hwin hlt hexp
    | none =>
      simp only [hlive, Option.some.injEq, Prod.mk.injEq] at hc'
      obtain ⟨rfl, rfl⟩ := hc'
      refine ⟨by simp, by simp, by simp, fun win hmem => ?_⟩
      obtain rfl := List.mem_singleton.1 hmem
      exact hwin (by omega) (by omega)
  · rw [hput, incrExpire_entries_ne hkey] at hc'
    exact hold key c expires hc'

theorem Counts.step (hk : Counts δ s) (hs : Sound h svc s) (hc : Change h svc s s' e)
    (hf : Flow s s' e) (hprompt : Prompt δ s e) : Counts δ s' := by
  have hn := now_le hc
  cases hf with
  | kept hperm hcounters =>
    refine ⟨(hperm.map _).nodup_iff.2 hk.distinct, fun p hp => hk.todo p (hperm.subset hp), ?_⟩
    intro key c expires hentry
    rw [hcounters] at hentry
    exact (hk.counters key c expires hentry).step hc hn fun _ _ p hp _ =>
      ⟨p, hperm.subset hp, rfl, List.Subset.refl _⟩
  | issued i w event hw hphase hev hh hperm hcounters =>
    have hnone : w.recordCalls = [] :=
      ((hs.handlers w (List.mem_of_getElem? hw)).effects.none_before (.inr (.inr hphase))).1
    refine ⟨?_, ?_, ?_⟩
    · rw [(hperm.map _).nodup_iff, List.map_cons, List.nodup_cons]
      refine ⟨fun hmem => ?_, hk.distinct⟩
      obtain ⟨p, hp, hhandler⟩ := List.mem_map.1 hmem
      obtain ⟨v, hv, hcall⟩ := hs.issued p hp
      rw [hhandler, hw] at hv
      obtain rfl := Option.some.inj hv
      simp [hnone] at hcall
    · intro p hp
      rcases List.mem_cons.1 (hperm.subset hp) with rfl | hp
      · exact ⟨List.suffix_refl _, by simp [counterWindows]⟩
      · exact hk.todo p hp
    · intro key c expires hentry
      rw [hcounters] at hentry
      refine (hk.counters key c expires hentry).step hc hn fun win hwin p hp hhandler => ?_
      rcases List.mem_cons.1 (hperm.subset hp) with rfl | hp
      · -- a counted win has been recorded
        obtain ⟨v, hv, hcalls, -⟩ := ((hk.counters key c expires hentry).wins win hwin).handler
        rw [← hhandler, hw] at hv
        obtain rfl := Option.some.inj hv
        exact absurd hnone hcalls
      · exact ⟨p, hp, rfl, List.Subset.refl _⟩
  | wrote j w rest hw hperm hperm' hcounters =>
    have hmem : w ∈ s.pending := hperm.symm.subset (by simp)
    have hold : ∀ key c expires, s.counters.entries key = some (c, expires) →
        CounterOk δ s' key c expires := by
      intro key c expires hentry
      refine (hk.counters key c expires hentry).step hc hn fun _ _ p hp _ => ?_
      rcases wrote_pending hperm' hp with ⟨-, hhandler, hkeys⟩ | hrest
      · exact ⟨w, hmem, hhandler.symm, hkeys ▸ List.tail_subset _⟩
      · exact ⟨p, hperm.symm.subset (by simp [hrest]), rfl, List.Subset.refl _⟩
    refine ⟨?_, ?_, ?_⟩
    · have hdistinct := (hperm.map CounterWrite.handler).nodup_iff.1 hk.distinct
      rw [(hperm'.map _).nodup_iff]
      cases hnext : w.next with
      | none => exact (List.nodup_cons.1 hdistinct).2
      | some w' => simpa [(CounterWrite.next_eq_some hnext).1] using hdistinct
    · intro p hp
      rcases wrote_pending hperm' hp with ⟨hnext, -, -⟩ | hrest
      · exact ⟨CounterWrite.next_todo hnext (hk.todo w hmem).1, (CounterWrite.next_eq_some hnext).2.2.2⟩
      · exact hk.todo p (hperm.symm.subset (by simp [hrest]))
    · intro key c expires hentry
      rcases hcounters with hsame | ⟨rfl, hwrite⟩
      · exact hold key c expires (hsame ▸ hentry)
      · exact counterOk_write hs hk hc hw hperm hperm' hprompt hwrite hold hentry

/-- Runs in which every counter write comes at most `δ` ms after the `SET`. -/
def PromptRun (h : Hmac) (svc : WinNoticeGateService) (δ : ℕ) : List WinStep → WinSystem → Prop :=
  Lib.Run (· = init) (Lib.Guarded (Prompt δ) (Lib.Steps (step h svc)))

theorem PromptRun.step (hrun : PromptRun h svc δ evs s) (hs : WinSystem.step h svc s e = some s')
    (hp : Prompt δ s e) : PromptRun h svc δ (evs ++ [e]) s' := hrun.snoc ⟨hp, hs⟩

theorem counts_run (hrun : PromptRun h svc δ evs s) : Sound h svc s ∧ Counts δ s := by
  refine Lib.Run.inv (I := fun s => Sound h svc s ∧ Counts δ s) ?_ ?_ hrun
  · rintro s rfl
    refine ⟨sound_run (.nil rfl), ?_, ?_, ?_⟩ <;>
      simp [pending, init, Lib.Channel.empty, Lib.Keyspace.empty]
  · rintro s e s' ⟨hs, hk⟩ ⟨hprompt, hstep⟩
    exact ⟨hs.step hstep, hk.step hs (step_change hstep) (step_flow hstep) hprompt⟩

theorem countedOnce_of_long_ttl (hs : Sound h svc s) (hk : Counts δ s)
    (hlong : svc.ttl ≤ 0 ∨ 86400000 + δ ≤ svc.ttlMs) : s.CountedOnce := by
  intro key c expires hentry
  have hok := hk.counters key c expires hentry
  rw [List.Nodup, List.pairwise_map]
  have hdistinct := List.pairwise_map.1 hok.distinct
  refine hdistinct.imp_of_mem ?_
  intro win win' hwin hwin' hne hids
  obtain ⟨v, hv, -, t, ht, hle, hδ⟩ := (hok.wins win hwin).handler
  obtain ⟨v', hv', -, t', ht', hle', hδ'⟩ := (hok.wins win' hwin').handler
  have hkey : v.key = v'.key := by
    simp only [idsOf, hv, hv', Option.map_some, Option.some.injEq, Prod.mk.injEq] at hids
    rw [WinHandler.key, WinHandler.key, hids.1, hids.2]
  have httl : svc.ttlMs ≥ 86400000 + δ := by
    refine hlong.resolve_left fun hneg => ?_
    exact absurd hneg (Int64.not_le.2
      (hs.ledger.taken v (List.mem_of_getElem? hv) (List.ne_nil_of_mem ht)))
  have := hs.ledger.apart hv hv' hne hkey t ht t' ht'
  have := (hok.wins win hwin).lives
  have := (hok.wins win hwin).expires_le
  have := (hok.wins win' hwin').lives
  have := (hok.wins win' hwin').expires_le
  omega

section Replay

variable {n : WinParams} {event : ImpressionEvent}

theorem serveSet_of_not_live {ks : Lib.Keyspace String Unit} {now : ℕ} {key : String}
    (hserves : 0 < svc.ttl) (hlive : ks.live now key = none) :
    svc.serveSet ks now key = (.ok, ks.put key () (now + svc.ttlMs)) := by
  simp only [serveSet, Int64.not_le.2 hserves, if_false, Lib.Keyspace.setNx_of_not_live hlive, if_true]

/-- A notice whose key is not live passes both gates at once. -/
theorem accept_notice (hrun : PromptRun h svc δ evs s) (hauth : svc.authenticates h n = true)
    (hserves : 0 < svc.ttl) (hlive : s.dedup.live s.now (dedupKey n.requestId n.impId) = none) :
    ∃ evs' w, w.params = n ∧ w.phase = .accepted ∧ s.now ∈ w.applied ∧
      PromptRun h svc δ evs' { s with
        handlers := s.handlers ++ [w]
        dedup := s.dedup.put (dedupKey n.requestId n.impId) () (s.now + svc.ttlMs) } := by
  let i := s.handlers.length
  let s₁ : WinSystem := { s with handlers := s.handlers ++ [.new n] }
  let w₂ : WinHandler := { WinHandler.new n with phase := .waiting }
  let w₄ : WinHandler := { w₂ with phase := .accepted, applied := [s.now], replies := [.ok] }
  have hserve := serveSet_of_not_live hserves hlive
  have hw₁ : s₁.handlers[i]? = some (.new n) := by simp [s₁, i]
  have hw₂ := getElem?_setHandler hw₁ w₂
  have hw₃ : ((s₁.setHandler i w₂).serve svc i w₂).handlers[i]? = _ := getElem?_setHandler hw₂ _
  have h₂ : step h svc s₁ (.authenticate i) = some (s₁.setHandler i w₂) := by
    rw [step_authenticate hw₁ rfl]
    simp [WinHandler.new, hauth, w₂]
  have hr : .ok ∈ ((s₁.setHandler i w₂).served svc w₂).replies := by
    simp [served, setHandler, s₁, w₂, WinHandler.key, WinHandler.new, hserve]
  have hlast : ((s₁.setHandler i w₂).serve svc i w₂).setHandler i
      { (s₁.setHandler i w₂).served svc w₂ with phase := .accepted } = { s with
        handlers := s.handlers ++ [w₄]
        dedup := s.dedup.put (dedupKey n.requestId n.impId) () (s.now + svc.ttlMs) } := by
    simp [serve, served, setHandler, s₁, i, w₂, w₄, WinHandler.key, WinHandler.new, hserve]
  have h₁ : step h svc s (.receive n) = some s₁ := rfl
  have hrun₃ := ((hrun.step h₁ trivial).step h₂ trivial).step (step_serve hw₂ rfl) trivial
  have hrun₄ := hrun₃.step (step_reply hw₃ rfl hr) trivial
  exact ⟨_, w₄, rfl, rfl, List.mem_singleton.2 rfl, hlast ▸ hrun₄⟩

/-- An accepted notice is recorded and counted `d` ms later, if nothing else is queued. -/
theorem count_notice (hrun : PromptRun h svc δ evs s) {w : WinHandler} {i d : ℕ}
    (hw : s.handlers[i]? = some w) (hphase : w.phase = .accepted) (happ : s.now ∈ w.applied)
    (hev : w.params.impression s.now = some event) (hd : d ≤ δ)
    (hitems : s.recorder.items = []) (hcap : 0 < s.recorder.capacity) (hworkers : s.workers = []) :
    ∃ evs' w' recorder, w'.params = w.params ∧ recorder.items = [] ∧
      recorder.capacity = s.recorder.capacity ∧
      PromptRun h svc δ evs' { s with
        now := s.now + d
        handlers := s.handlers.set i w'
        recorder := recorder
        workers := []
        counters := incrExpire
          (incrExpire s.counters (s.now + d) (fcKey event.userId "c" event.campaignId .Hour) 3600
            ⟨i, s.now + d⟩)
          (s.now + d) (fcKey event.userId "c" event.campaignId .Day) 86400 ⟨i, s.now + d⟩ } := by
  let w' : WinHandler := { w with phase := .recorded, recordCalls := w.recordCalls ++ [event] }
  have hroom : s.recorder.items.length < s.recorder.capacity := by simpa [hitems]
  obtain ⟨hsent, hcap'⟩ := Lib.Channel.trySend_of_lt ⟨i, event⟩ hroom
  rw [hitems, List.nil_append] at hsent
  obtain ⟨recorder, hrecv, hempty, hcap''⟩ := Lib.Channel.recv_of_items hsent
  let s₁ : WinSystem := { s.setHandler i w' with recorder := (s.recorder.trySend ⟨i, event⟩).2 }
  let s₂ : WinSystem := { s₁ with now := s.now + d }
  let s₃ : WinSystem := { s₂ with recorder := recorder, workers := [⟨i, event, counterWindows⟩] }
  have hrecord : step h svc s (.record i) = some s₁ := by
    rw [step, handlerIn_eq_some.2 ⟨hw, hphase⟩, Option.map_some, record, hev]
  have htake : step h svc s₂ .take = some s₃ := by
    simp only [step, s₂, s₁, hrecv, Option.map_some, setHandler, hworkers, List.nil_append]
    rfl
  let s₄ : WinSystem := { s₃ with
    workers := [⟨i, event, [(.Day, 86400)]⟩]
    counters := incrExpire s.counters (s.now + d) (fcKey event.userId "c" event.campaignId .Hour) 3600
      ⟨i, s.now + d⟩ }
  have hhour : step h svc s₃ (.write 0) = some s₄ := rfl
  have hday : step h svc s₄ (.write 0) = some { s₄ with
    workers := []
    counters := incrExpire s₄.counters (s.now + d) (fcKey event.userId "c" event.campaignId .Day) 86400
      ⟨i, s.now + d⟩ } := rfl
  have hw' : s₃.handlers[i]? = some w' := getElem?_setHandler hw w'
  have hprompt₃ : Prompt δ s₃ (.write 0) := by
    intro x hx
    obtain rfl := Option.some.inj hx
    exact ⟨w', hw', s.now, happ, Nat.add_le_add_left hd _⟩
  have hprompt₄ : Prompt δ s₄ (.write 0) := by
    intro x hx
    obtain rfl := Option.some.inj hx
    exact ⟨w', hw', s.now, happ, Nat.add_le_add_left hd _⟩
  have htick : step h svc s₁ (.tick d) = some s₂ := rfl
  have hrun₃ := ((hrun.step hrecord trivial).step htick trivial).step htake trivial
  exact ⟨_, w', recorder, rfl, hempty, hcap''.trans hcap',
    (hrun₃.step hhour hprompt₃).step hday hprompt₄⟩

/-- Nothing is queued or being written. -/
structure Idle (s : WinSystem) : Prop where
  items : s.recorder.items = []
  capacity : 0 < s.recorder.capacity
  workers : s.workers = []

/-- The notice `n` of user `u` has been handled between `s` and `s'`, and counted `d` ms
after it was accepted. -/
structure Handled (svc : WinNoticeGateService) (n : WinParams) (u : String) (d : ℕ)
    (s s' : WinSystem) : Prop where
  idle : Idle s'
  now : s'.now = s.now + d
  dedup : s'.dedup = s.dedup.put (dedupKey n.requestId n.impId) () (s.now + svc.ttlMs)
  handlers : ∃ w, w.params = n ∧ s'.handlers = s.handlers ++ [w]
  counters : s'.counters = incrExpire
    (incrExpire s.counters (s.now + d) (fcKey u "c" n.campaignId .Hour) 3600
      ⟨s.handlers.length, s.now + d⟩)
    (s.now + d) (fcKey u "c" n.campaignId .Day) 86400 ⟨s.handlers.length, s.now + d⟩

theorem handle_notice (hrun : PromptRun h svc δ evs s) (hidle : Idle s)
    (hauth : svc.authenticates h n = true) (hserves : 0 < svc.ttl)
    (hlive : s.dedup.live s.now (dedupKey n.requestId n.impId) = none) {u : String}
    (hu : n.userId = some u) (hne : u ≠ "") {d : ℕ} (hd : d ≤ δ) :
    ∃ evs' s', PromptRun h svc δ evs' s' ∧ Handled svc n u d s s' := by
  obtain ⟨evs₁, w, rfl, hphase, happ, hrun₁⟩ := accept_notice hrun hauth hserves hlive
  have hev : w.params.impression s.now =
      some ⟨u, w.params.campaignId, w.params.creativeId, 0, currentHourOfDay s.now⟩ := by
    simp [WinParams.impression, hu, hne]
  obtain ⟨evs₂, w', recorder, hparams, hitems, hcap, hrun₂⟩ := count_notice hrun₁
    (i := s.handlers.length) (by simp) hphase happ hev hd hidle.items hidle.capacity hidle.workers
  refine ⟨evs₂, _, hrun₂, ⟨hitems, hcap ▸ hidle.capacity, rfl⟩, rfl, rfl, ⟨w', hparams, ?_⟩, rfl⟩
  simp

/-- The day counter goes on from where it was; the hour counter has another key. -/
theorem Handled.day {u : String} {d : ℕ} (hh : Handled svc n u d s s') :
    s'.counters.entries (fcKey u "c" n.campaignId .Day) =
      (incrExpire s.counters (s.now + d) (fcKey u "c" n.campaignId .Day) 86400
        ⟨s.handlers.length, s.now + d⟩).entries (fcKey u "c" n.campaignId .Day) := by
  have hne : fcKey u "c" n.campaignId .Day ≠ fcKey u "c" n.campaignId .Hour := fun hk => by
    cases (fcKey_inj hk).2.2
  rw [hh.counters, incrExpire_entries_self, incrExpire_entries_self, Lib.Keyspace.live,
    incrExpire_entries_ne hne, Lib.Keyspace.live]

/-- A notice of user `u`, with the token of the gate. -/
def signedNotice (h : Hmac) (svc : WinNoticeGateService) : WinParams where
  requestId := "r"
  impId := "1"
  campaignId := 7
  creativeId := 8
  clearingPriceMicros := 0
  userId := some "u"
  token := svc.sign h (signingMessage "r" "1" 7 8) ""
  exchangeId := none

theorem authenticates_signedNotice (hmac : ∀ key msg, (h.mac key msg).isSome = true)
    (svc : WinNoticeGateService) : svc.authenticates h (signedNotice h svc) = true := by
  change svc.verifyToken h (signingMessage "r" "1" 7 8) (signedNotice h svc).token "" = true
  cases hsecret : svc.secretFor "" with
  | none => exact verifyToken_iff.2 (.inl hsecret)
  | some secret =>
    obtain ⟨tag, htag⟩ := Option.isSome_iff_exists.1 (hmac secret (asBytes (signingMessage "r" "1" 7 8)))
    have hsign : svc.sign h (signingMessage "r" "1" 7 8) "" = some (hexEncode tag) := by
      simp only [sign, hsecret, htag, Option.bind_some, Option.map_some]
    rw [signedNotice, hsign]
    exact (verifyToken_sign hsign fun _ _ _ _ _ => rfl).2 rfl

/-- With a shorter TTL a replay is counted in the day counter of the first notice. -/
theorem replay_counted_twice (hmac : ∀ key msg, (h.mac key msg).isSome = true)
    (hserves : 0 < svc.ttl) (hshort : svc.ttlMs < 86400000 + δ) :
    ∃ evs s, PromptRun h svc δ evs s ∧ ¬ s.CountedOnce := by
  let d := min δ svc.ttlMs
  have hauth := authenticates_signedNotice hmac svc
  have hinit : PromptRun h svc δ [] init := .nil rfl
  obtain ⟨evs₁, s₁, hrun₁, h₁⟩ := handle_notice hinit ⟨rfl, by decide, rfl⟩ hauth hserves rfl rfl
    (by decide) (Nat.min_le_left δ svc.ttlMs)
  let s₂ : WinSystem := { s₁ with now := s₁.now + (svc.ttlMs - d) }
  have hrun₂ : PromptRun h svc δ (evs₁ ++ [.tick (svc.ttlMs - d)]) s₂ := hrun₁.step rfl trivial
  have hnow₂ : s₂.now = svc.ttlMs := by
    have := h₁.now
    have : init.now = 0 := rfl
    simp only [s₂, d]
    omega
  obtain ⟨evs₃, s₃, hrun₃, h₃⟩ := handle_notice (d := 0) hrun₂ ⟨h₁.idle.items, h₁.idle.capacity,
    h₁.idle.workers⟩ hauth hserves (by rw [hnow₂]; simp [s₂, h₁.dedup, Lib.Keyspace.live_put, init]) rfl
    (by decide) (Nat.zero_le δ)
  refine ⟨evs₃, s₃, hrun₃, fun hcounted => ?_⟩
  have hday₁ : s₂.counters.entries (fcKey "u" "c" 7 .Day) = some (⟨1, [⟨0, d⟩]⟩, d + 86400000) := by
    have := h₁.day
    rw [incrExpire_entries_self] at this
    simpa [init, Lib.Keyspace.live, Lib.Keyspace.empty, signedNotice] using this
  have hlive : s₂.counters.live (s₂.now + 0) (fcKey "u" "c" 7 .Day) =
      some (⟨1, [⟨0, d⟩]⟩, d + 86400000) := by
    refine Lib.Keyspace.live_eq_some.2 ⟨hday₁, ?_⟩
    simp only [hnow₂, d]
    omega
  obtain ⟨w₁, hw₁, hhandlers₁⟩ := h₁.handlers
  obtain ⟨w₃, hw₃, hhandlers₃⟩ := h₃.handlers
  have hs₃ : s₃.handlers = [w₁, w₃] := by simp [hhandlers₃, s₂, hhandlers₁, init]
  have hday₃ : s₃.counters.entries (fcKey "u" "c" 7 .Day) =
      some (⟨1 + 1, [⟨0, d⟩, ⟨1, s₂.now + 0⟩]⟩, d + 86400000) := by
    have hday := h₃.day
    rw [incrExpire_entries_self, signedNotice, hlive] at hday
    simpa [s₂, hhandlers₁, init] using hday
  have hnodup := hcounted _ _ _ hday₃
  simp [idsOf, hs₃, hw₁, hw₃] at hnodup

end Replay

/-- Wins are counted once per lifetime of every counter, in all runs whose counter writes
come at most `δ` ms after the `SET`, exactly if the dedup TTL covers the day and the delay
(or the server refuses the TTL, and nothing is accepted). HMAC takes keys of any length. -/
theorem counted_once_iff (hmac : ∀ key msg, (h.mac key msg).isSome = true)
    (svc : WinNoticeGateService) (δ : ℕ) :
    (∀ evs s, PromptRun h svc δ evs s → s.CountedOnce) ↔
      svc.ttl ≤ 0 ∨ 86400000 + δ ≤ svc.ttlMs := by
  refine ⟨?_, ?_⟩
  · intro hall
    by_contra hno
    obtain ⟨hserves, hshort⟩ := not_or.1 hno
    obtain ⟨evs, s, hrun, hs⟩ :=
      replay_counted_twice hmac (Int64.not_le.1 hserves) (Nat.not_le.1 hshort)
    exact hs (hall evs s hrun)
  · intro hlong evs s hrun
    obtain ⟨hs, hk⟩ := counts_run hrun
    exact countedOnce_of_long_ttl hs hk hlong

/-- A TTL of a day and an hour covers delays of up to an hour: a notice counted after half
an hour, and replayed after another half. -/
theorem replay_counted_once_with_long_ttl :
    ∃ svc evs s, PromptRun sampled svc 3600000 evs s ∧
      s.handlers.map WinHandler.phase = [.returned .Accept, .returned .Duplicate] ∧
      (s.counters.live s.now (fcKey "u" "c" 7 .Day)).isSome ∧ s.CountedOnce := by
  let svc := new ⟨true, "k", fun _ => none, 90000⟩
  let n : WinParams := ⟨"r", "1", 7, 8, 0, some "u",
    some "ae7e6f312584462f659b0948aa4ce91d949c3cff3b0c5a338ea4620650af587b", none⟩
  let evs : List WinStep := [.receive n, .authenticate 0, .serve 0, .reply 0 .ok, .record 0,
    .publish 0, .tick 1800000, .take, .write 0, .write 0, .tick 1800000, .receive n,
    .authenticate 1, .serve 1, .reply 1 .nil]
  obtain ⟨s, hrun, hphases, hcounter⟩ := Lib.run_of_exec_any
    (P := fun s : WinSystem => s.handlers.map WinHandler.phase =
      [.returned .Accept, .returned .Duplicate] ∧
      (s.counters.live s.now (fcKey "u" "c" 7 .Day)).isSome)
    (show (Lib.exec (fun s e => if Prompt 3600000 s e then step sampled svc s e else none)
      init evs).any _ = true by decide +kernel)
  have hprompt : PromptRun sampled svc 3600000 evs s := hrun.guarded_of_check
  exact ⟨svc, evs, s, hprompt, hphases, hcounter,
    (counted_once_iff (fun _ _ => rfl) svc 3600000).2 (.inr (by decide +kernel)) evs s hprompt⟩

/-- With the default TTL of one hour, a notice replayed after an hour is counted twice in
the day counter. -/
theorem hourly_replay_counted_twice :
    3600 ≤ openGate.dedupTtlSecs ∧ ∃ evs s, Reached sampled openGate evs s ∧
      (s.counters.live s.now (fcKey "u" "c" 7 .Day)).any (fun e =>
        decide (e.1.wins.map (fun win => s.idsOf win.handler) = [some ("r", "1"), some ("r", "1")]))
        = true := by
  let n : WinParams := { noticeFor "r" "1" with userId := some "u" }
  let handle (i : ℕ) : List WinStep := [.receive n, .authenticate i, .serve i, .reply i .ok,
    .record i, .publish i, .take, .write 0, .write 0]
  refine ⟨by decide, handle 0 ++ [.tick 3600000] ++ handle 1, ?_⟩
  exact Lib.run_of_exec_any (show (Lib.exec (step sampled openGate) init _).any _ = true by
    decide +kernel)

end WinSystem

end RTB
