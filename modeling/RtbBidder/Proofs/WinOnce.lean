import RtbBidder.Lib.Tasks
import RtbBidder.Proofs.WinDedup
import RtbBidder.Spec.WinSystem

/-! Win notices take effect at most once per TTL of their dedup key, however the
handlers, retries and timeouts interleave. -/

namespace RTB

open WinNoticeGateService

variable {h : Hmac} {svc : WinNoticeGateService}

/-- What a handler does on its own at time `now`. -/
inductive WinHandler.Move (h : Hmac) (svc : WinNoticeGateService) (now : ℕ) (w : WinHandler) :
    WinHandler → Prop
  | authenticate (hp : w.phase = .received) : Move h svc now w { w with
      phase := if svc.authenticates h w.params then .waiting else .returned .AuthFailed }
  | reply (r : SetReply) (hp : w.phase = .waiting) (hr : r ∈ w.replies) :
      Move h svc now w { w with phase := WinSystem.afterGate (gateOf r) }
  | fail (hp : w.phase = .waiting) : Move h svc now w { w with phase := .returned .DedupUnavailable }
  | cancel (hp : w.phase = .waiting) : Move h svc now w { w with phase := .cancelled }
  | record (hp : w.phase = .accepted) : Move h svc now w { w with
      phase := .recorded, recordCalls := w.recordCalls ++ (w.params.impression now).toList }
  | publish (hp : w.phase = .recorded) : Move h svc now w { w with
      phase := .returned .Accept, published := w.published ++ [w.params.winEvent now] }

namespace WinHandler

variable {w w' : WinHandler} {now : ℕ}

/-- The side effects so far: none before the record, both of them once in the end. -/
def Effects (w : WinHandler) : Prop :=
  match w.phase with
  | .recorded => (∃ t, w.recordCalls = (w.params.impression t).toList) ∧ w.published = []
  | .returned .Accept =>
    (∃ t, w.recordCalls = (w.params.impression t).toList) ∧ ∃ t, w.published = [w.params.winEvent t]
  | _ => w.recordCalls = [] ∧ w.published = []

structure Ok (h : Hmac) (svc : WinNoticeGateService) (w : WinHandler) : Prop where
  authenticated : w.sent = true → svc.authenticates h w.params = true
  unsent : w.sent = false → w.applied = []
  answered : .ok ∈ w.replies → w.applied ≠ []
  won : w.proceeds = true → w.applied ≠ []
  effects : w.Effects

theorem Ok.new (p : WinParams) : Ok h svc (.new p) where
  authenticated := by simp [WinHandler.new, sent]
  unsent := fun _ => rfl
  answered := by simp [WinHandler.new]
  won := by simp [WinHandler.new, proceeds]
  effects := ⟨rfl, rfl⟩

theorem Move.params (hm : w.Move h svc now w') : w'.params = w.params := by
  cases hm <;> rfl

theorem Move.applied (hm : w.Move h svc now w') : w'.applied = w.applied := by
  cases hm <;> rfl

theorem Move.recordCalls (hm : w.Move h svc now w') : w.recordCalls ⊆ w'.recordCalls := by
  cases hm <;> simp

theorem Effects.none_before (hw : w.Effects)
    (hp : w.phase = .received ∨ w.phase = .waiting ∨ w.phase = .accepted) :
    w.recordCalls = [] ∧ w.published = [] := by
  unfold Effects at hw
  rcases hp with hp | hp | hp <;> rwa [hp] at hw

/-- A handler leaves the wait for its `SET`; it goes on only with an `OK` in hand. -/
theorem Ok.of_waiting (hok : w.Ok h svc) (hp : w.phase = .waiting) {p : WinPhase}
    (hsent : ({ w with phase := p } : WinHandler).sent = true)
    (hwon : ({ w with phase := p } : WinHandler).proceeds = true → .ok ∈ w.replies)
    (heff : w.recordCalls = [] ∧ w.published = [] → ({ w with phase := p } : WinHandler).Effects) :
    ({ w with phase := p } : WinHandler).Ok h svc where
  authenticated := fun _ => hok.authenticated (by simp [sent, hp])
  unsent := fun hno => by simp [hsent] at hno
  answered := hok.answered
  won := fun hgo => hok.answered (hwon hgo)
  effects := heff (hok.effects.none_before (.inr (.inl hp)))

theorem Ok.move (hok : w.Ok h svc) (hm : w.Move h svc now w') : w'.Ok h svc := by
  cases hm with
  | authenticate hp =>
    have hnone : w.applied = [] := hok.unsent (by simp [sent, hp])
    have heff := hok.effects.none_before (.inl hp)
    cases hauth : svc.authenticates h w.params with
    | true => exact ⟨fun _ => hauth, by simp [sent], hok.answered, by simp [proceeds], heff⟩
    | false => exact ⟨by simp [sent], fun _ => hnone, hok.answered, by simp [proceeds], heff⟩
  | reply r hp hr =>
    cases r with
    | ok => exact hok.of_waiting hp rfl (fun _ => hr) id
    | nil => exact hok.of_waiting hp rfl nofun id
    | failed => exact hok.of_waiting hp rfl nofun id
  | fail hp => exact hok.of_waiting hp rfl nofun id
  | cancel hp => exact hok.of_waiting hp rfl nofun id
  | record hp =>
    obtain ⟨hcalls, hpublished⟩ := hok.effects.none_before (.inr (.inr hp))
    refine ⟨fun _ => hok.authenticated (by simp [sent, hp]), by simp [sent], hok.answered,
      fun _ => hok.won (by simp [proceeds, hp]), ?_⟩
    exact ⟨⟨now, by simp [hcalls]⟩, hpublished⟩
  | publish hp =>
    have heff := hok.effects
    unfold Effects at heff
    rw [hp] at heff
    refine ⟨fun _ => hok.authenticated (by simp [sent, hp]), by simp [sent], hok.answered,
      fun _ => hok.won (by simp [proceeds, hp]), ?_⟩
    exact ⟨heff.1, now, by simp [heff.2]⟩

end WinHandler

theorem CounterWrite.next_eq_some {w w' : CounterWrite} (hn : w.next = some w') :
    w'.handler = w.handler ∧ w'.event = w.event ∧ w'.todo = w.todo.tail ∧ w'.todo ≠ [] := by
  unfold next at hn
  split at hn
  · cases hn
  · rename_i htail
    obtain rfl := Option.some.inj hn
    exact ⟨rfl, rfl, rfl, htail⟩

namespace WinSystem

variable {s s' : WinSystem} {e : WinStep} {evs : List WinStep}

/-- What a step does to the handlers and the dedup keys. -/
inductive Change (h : Hmac) (svc : WinNoticeGateService) (s s' : WinSystem) (e : WinStep) : Prop
  | quiet (hh : s'.handlers = s.handlers) (hd : s'.dedup = s.dedup) (hn : s.now ≤ s'.now)
  | received (p : WinParams) (hh : s'.handlers = s.handlers ++ [.new p]) (hd : s'.dedup = s.dedup)
      (hn : s'.now = s.now)
  | moved (i : ℕ) (w w' : WinHandler) (hw : s.handlers[i]? = some w) (hm : w.Move h svc s.now w')
      (hh : s'.handlers = s.handlers.set i w') (hd : s'.dedup = s.dedup) (hn : s'.now = s.now)
  | served (i : ℕ) (w : WinHandler) (he : e = .serve i) (hw : s.handlers[i]? = some w)
      (hsent : w.sent = true) (hs : s' = s.serve svc i w)

theorem handlerIn_eq_some {i : ℕ} {phase : WinPhase} {w : WinHandler} :
    s.handlerIn i phase = some w ↔ s.handlers[i]? = some w ∧ w.phase = phase := by
  simp [handlerIn, Option.filter_eq_some_iff]

theorem step_change (hs : step h svc s e = some s') : Change h svc s s' e := by
  cases e with
  | tick ms =>
    obtain rfl := Option.some.inj hs
    exact .quiet rfl rfl (Nat.le_add_right _ _)
  | receive p =>
    obtain rfl := Option.some.inj hs
    exact .received p rfl rfl rfl
  | authenticate i =>
    obtain ⟨w, hw, rfl⟩ := Option.map_eq_some_iff.1 hs
    obtain ⟨hw, hp⟩ := handlerIn_eq_some.1 hw
    exact .moved i w _ hw (.authenticate hp) rfl rfl rfl
  | serve i =>
    obtain ⟨w, hw, rfl⟩ := Option.map_eq_some_iff.1 hs
    obtain ⟨hw, hsent⟩ := Option.filter_eq_some_iff.1 hw
    exact .served i w rfl hw hsent rfl
  | reply i r =>
    obtain ⟨w, hw, rfl⟩ := Option.map_eq_some_iff.1 hs
    obtain ⟨hw, hr⟩ := Option.filter_eq_some_iff.1 hw
    obtain ⟨hw, hp⟩ := handlerIn_eq_some.1 hw
    exact .moved i w _ hw (.reply r hp (of_decide_eq_true hr)) rfl rfl rfl
  | fail i =>
    obtain ⟨w, hw, rfl⟩ := Option.map_eq_some_iff.1 hs
    obtain ⟨hw, hp⟩ := handlerIn_eq_some.1 hw
    exact .moved i w _ hw (.fail hp) rfl rfl rfl
  | cancel i =>
    obtain ⟨w, hw, rfl⟩ := Option.map_eq_some_iff.1 hs
    obtain ⟨hw, hp⟩ := handlerIn_eq_some.1 hw
    exact .moved i w _ hw (.cancel hp) rfl rfl rfl
  | record i =>
    obtain ⟨w, hw, rfl⟩ := Option.map_eq_some_iff.1 hs
    obtain ⟨hw, hp⟩ := handlerIn_eq_some.1 hw
    refine .moved i w _ hw (.record hp) ?_ ?_ ?_ <;> unfold record <;> split <;>
      simp_all [setHandler]
  | publish i =>
    obtain ⟨w, hw, rfl⟩ := Option.map_eq_some_iff.1 hs
    obtain ⟨hw, hp⟩ := handlerIn_eq_some.1 hw
    exact .moved i w _ hw (.publish hp) rfl rfl rfl
  | take =>
    obtain ⟨r, -, rfl⟩ := Option.map_eq_some_iff.1 hs
    exact .quiet rfl rfl le_rfl
  | write j =>
    obtain ⟨w, -, rfl⟩ := Option.map_eq_some_iff.1 hs
    refine .quiet ?_ ?_ ?_ <;> simp only [finishWindow, writeCounter] <;> split <;> rfl
  | writeFails j =>
    obtain ⟨w, -, rfl⟩ := Option.map_eq_some_iff.1 hs
    exact .quiet rfl rfl le_rfl

/-- The server applies a `SET` where the key is not live, and changes nothing otherwise. -/
theorem serveSet_cases (svc : WinNoticeGateService) (ks : Lib.Keyspace String Unit) (now : ℕ)
    (key : String) :
    ((svc.serveSet ks now key).1 = .ok ∧ 0 < svc.ttl ∧ ks.live now key = none ∧
      (svc.serveSet ks now key).2 = ks.put key () (now + svc.ttlMs)) ∨
    ((svc.serveSet ks now key).1 ≠ .ok ∧ (svc.serveSet ks now key).2 = ks) := by
  unfold serveSet
  split_ifs with httl
  · exact .inr ⟨by simp, rfl⟩
  · cases hlive : ks.live now key with
    | some e => exact .inr (by simp [Lib.Keyspace.setNx_of_live hlive])
    | none => exact .inl (by simp [Lib.Keyspace.setNx_of_not_live hlive, Int64.not_le.1 httl])

theorem served_ok {w : WinHandler} (hok : w.Ok h svc) (hsent : w.sent = true) :
    (s.served svc w).Ok h svc where
  authenticated := fun _ => hok.authenticated hsent
  unsent := fun hno => by
    have : (s.served svc w).sent = w.sent := rfl
    simp_all
  answered := by
    intro hr
    simp only [served] at hr ⊢
    split_ifs with hserve
    · simp
    · exact hok.answered (by simpa [Ne.symm hserve] using hr)
  won := by
    intro hp
    have := hok.won hp
    simp only [served]
    split_ifs <;> simp [this]
  effects := hok.effects

/-- A handler of the state after a step is new, moved, was served, or stood there before. -/
theorem handlers_ok (hc : Change h svc s s' e) (hok : ∀ w ∈ s.handlers, w.Ok h svc) :
    ∀ w ∈ s'.handlers, w.Ok h svc := by
  intro w hw
  cases hc with
  | quiet hh => exact hok w (hh ▸ hw)
  | received p hh =>
    rw [hh, List.mem_append, List.mem_singleton] at hw
    rcases hw with hw | rfl
    · exact hok w hw
    · exact .new p
  | moved i w₀ w₁ hw₀ hm hh =>
    rw [hh] at hw
    rcases List.mem_or_eq_of_mem_set hw with hw | rfl
    · exact hok w hw
    · exact (hok w₀ (List.mem_of_getElem? hw₀)).move hm
  | served i w₀ he hw₀ hsent hs =>
    subst hs
    rcases List.mem_or_eq_of_mem_set hw with hw | rfl
    · exact hok w hw
    · exact served_ok (hok w₀ (List.mem_of_getElem? hw₀)) hsent

/-- The applied `SET`s have a positive TTL and are in the past, their keys are held for the
TTL, and those of one key are a TTL apart. -/
structure Ledger (svc : WinNoticeGateService) (s : WinSystem) : Prop where
  taken : ∀ w ∈ s.handlers, w.applied ≠ [] → 0 < svc.ttl
  past : ∀ w ∈ s.handlers, ∀ t ∈ w.applied, t ≤ s.now
  held : ∀ w ∈ s.handlers, ∀ t ∈ w.applied, ∃ e, s.dedup.entries w.key = some e ∧ t + svc.ttlMs ≤ e.2
  apart : ∀ {i j : ℕ} {w w' : WinHandler}, s.handlers[i]? = some w → s.handlers[j]? = some w' →
    i ≠ j → w.key = w'.key → ∀ t ∈ w.applied, ∀ t' ∈ w'.applied,
      t + svc.ttlMs ≤ t' ∨ t' + svc.ttlMs ≤ t

/-- The handlers have the keys and applied `SET`s they had, and new ones have none. -/
def Keeps (s s' : WinSystem) : Prop := ∀ (i : ℕ) (w' : WinHandler), s'.handlers[i]? = some w' →
  w'.applied = [] ∨ ∃ w, s.handlers[i]? = some w ∧ w.key = w'.key ∧ w.applied = w'.applied

theorem Ledger.of_keeps (hl : Ledger svc s) (hk : Keeps s s') (hd : s'.dedup = s.dedup)
    (hn : s.now ≤ s'.now) : Ledger svc s' where
  taken := by
    intro w' hw' hne
    obtain ⟨i, hi⟩ := List.getElem?_of_mem hw'
    rcases hk _ _ hi with hnil | ⟨w, hw, -, happ⟩
    · exact absurd hnil hne
    · exact hl.taken w (List.mem_of_getElem? hw) (happ ▸ hne)
  past := by
    intro w' hw' t ht
    obtain ⟨i, hi⟩ := List.getElem?_of_mem hw'
    rcases hk _ _ hi with hnil | ⟨w, hw, -, happ⟩
    · simp [hnil] at ht
    · exact (hl.past w (List.mem_of_getElem? hw) t (happ ▸ ht)).trans hn
  held := by
    intro w' hw' t ht
    obtain ⟨i, hi⟩ := List.getElem?_of_mem hw'
    rcases hk _ _ hi with hnil | ⟨w, hw, hkey, happ⟩
    · simp [hnil] at ht
    · rw [hd, ← hkey]
      exact hl.held w (List.mem_of_getElem? hw) t (happ ▸ ht)
  apart := by
    intro i j w₁ w₂ h₁ h₂ hij hkey t ht t' ht'
    rcases hk _ _ h₁ with hnil | ⟨v₁, hv₁, hk₁, ha₁⟩
    · simp [hnil] at ht
    · rcases hk _ _ h₂ with hnil | ⟨v₂, hv₂, hk₂, ha₂⟩
      · simp [hnil] at ht'
      · exact hl.apart hv₁ hv₂ hij (by rw [hk₁, hk₂, hkey]) t (ha₁ ▸ ht) t' (ha₂ ▸ ht')

theorem Keeps.set {i : ℕ} {w w' : WinHandler} (hw : s.handlers[i]? = some w) (hkey : w.key = w'.key)
    (happ : w.applied = w'.applied) (hh : s'.handlers = s.handlers.set i w') : Keeps s s' := by
  intro j v hv
  rw [hh, List.getElem?_set] at hv
  split_ifs at hv with hij hlt
  · obtain rfl := Option.some.inj hv
    exact .inr ⟨w, hij ▸ hw, hkey, happ⟩
  · exact .inr ⟨v, hv, rfl, rfl⟩

theorem Ledger.serve (hl : Ledger svc s) {i : ℕ} {w : WinHandler} (hw : s.handlers[i]? = some w)
    (hlive : s.dedup.live s.now w.key = none)
    (hh : s'.handlers = s.handlers.set i (s.served svc w))
    (hd : s'.dedup = s.dedup.put w.key () (s.now + svc.ttlMs)) (hn : s'.now = s.now)
    (hok : (svc.serveSet s.dedup s.now w.key).1 = .ok) (httl : 0 < svc.ttl) : Ledger svc s' := by
  -- an earlier `SET` of the key has expired
  have hexpired : ∀ v ∈ s.handlers, v.key = w.key → ∀ t ∈ v.applied, t + svc.ttlMs ≤ s.now := by
    intro v hv hkey t ht
    obtain ⟨e, he, hle⟩ := hl.held v hv t ht
    by_contra hlt
    have : s.dedup.live s.now w.key = some e :=
      Lib.Keyspace.live_eq_some.2 ⟨hkey ▸ he, by omega⟩
    simp [hlive] at this
  have hnew : ∀ {j : ℕ} {v : WinHandler}, s'.handlers[j]? = some v → ∃ v₀, s.handlers[j]? = some v₀ ∧
      v.key = v₀.key ∧ ∀ t ∈ v.applied, t ∈ v₀.applied ∨ (j = i ∧ v.key = w.key ∧ t = s.now) := by
    intro j v hv
    rw [hh, List.getElem?_set] at hv
    split_ifs at hv with hij hlt
    · obtain rfl := Option.some.inj hv
      refine ⟨w, hij ▸ hw, rfl, fun t ht => ?_⟩
      simp only [served, hok, if_true, List.mem_append, List.mem_singleton] at ht
      exact ht.imp id fun ht => ⟨hij.symm, rfl, ht⟩
    · exact ⟨v, hv, rfl, fun t ht => .inl ht⟩
  refine ⟨fun _ _ _ => httl, ?_, ?_, ?_⟩
  · intro v hv t ht
    obtain ⟨j, hj⟩ := List.getElem?_of_mem hv
    obtain ⟨v₀, hv₀, -, happ⟩ := hnew hj
    rcases happ t ht with ht | ⟨-, -, rfl⟩
    · exact hn ▸ hl.past v₀ (List.mem_of_getElem? hv₀) t ht
    · exact hn.ge
  · intro v hv t ht
    obtain ⟨j, hj⟩ := List.getElem?_of_mem hv
    obtain ⟨v₀, hv₀, hkey, happ⟩ := hnew hj
    rw [hd]
    by_cases hvk : v.key = w.key
    · have hle : t ≤ s.now := by
        rcases happ t ht with ht | ⟨-, -, rfl⟩
        · exact hl.past v₀ (List.mem_of_getElem? hv₀) t ht
        · exact le_rfl
      exact ⟨((), s.now + svc.ttlMs), by simp [Lib.Keyspace.put, hvk], by dsimp only; omega⟩
    · obtain ⟨e, he, hle⟩ := hl.held v₀ (List.mem_of_getElem? hv₀) t
        ((happ t ht).resolve_right fun hr => hvk hr.2.1)
      rw [← hkey] at he
      exact ⟨e, by simpa [Lib.Keyspace.put, hvk] using he, hle⟩
  · intro j k v v' hj hk hjk hkey t ht t' ht'
    obtain ⟨v₀, hv₀, hkey₀, happ⟩ := hnew hj
    obtain ⟨v₀', hv₀', hkey₀', happ'⟩ := hnew hk
    rcases happ t ht with ht | ⟨rfl, hvk, rfl⟩
    · rcases happ' t' ht' with ht' | ⟨-, hvk', rfl⟩
      · exact hl.apart hv₀ hv₀' hjk (by rw [← hkey₀, ← hkey₀', hkey]) t ht t' ht'
      · exact .inl (hexpired v₀ (List.mem_of_getElem? hv₀) (by rw [← hkey₀, hkey, hvk']) t ht)
    · rcases happ' t' ht' with ht' | ⟨rfl, -, -⟩
      · exact .inr (hexpired v₀' (List.mem_of_getElem? hv₀') (by rw [← hkey₀', ← hkey, hvk]) t' ht')
      · exact absurd rfl hjk

theorem Ledger.step (hl : Ledger svc s) (hc : Change h svc s s' e) : Ledger svc s' := by
  cases hc with
  | quiet hh hd hn => exact hl.of_keeps (fun _ _ hw => .inr ⟨_, hh ▸ hw, rfl, rfl⟩) hd hn
  | received p hh hd hn =>
    refine hl.of_keeps (fun i w hw => ?_) hd hn.ge
    rw [hh, List.getElem?_append] at hw
    split_ifs at hw
    · exact .inr ⟨w, hw, rfl, rfl⟩
    · obtain rfl := List.mem_singleton.1 (List.mem_of_getElem? hw)
      exact .inl rfl
  | moved i w w' hw hm hh hd hn =>
    exact hl.of_keeps (Keeps.set hw (by simp [WinHandler.key, hm.params]) hm.applied.symm hh) hd hn.ge
  | served i w he hw hsent hs =>
    subst hs
    rcases serveSet_cases svc s.dedup s.now w.key with ⟨hok, httl, hlive, hput⟩ | ⟨hno, hsame⟩
    · exact hl.serve hw hlive rfl hput rfl hok httl
    · have hkey : w.key = (s.served svc w).key := rfl
      have happ : w.applied = (s.served svc w).applied := by simp [served, hno]
      exact hl.of_keeps (Keeps.set hw hkey happ rfl) hsame le_rfl

/-- A handler stays in its place with its notice, and its history grows. -/
theorem handlers_grow (hc : Change h svc s s' e) {i : ℕ} {w : WinHandler}
    (hw : s.handlers[i]? = some w) : ∃ w', s'.handlers[i]? = some w' ∧ w'.params = w.params ∧
      w.applied ⊆ w'.applied ∧ w.recordCalls ⊆ w'.recordCalls := by
  have hset {j : ℕ} {v v' : WinHandler} (hv : s.handlers[j]? = some v) (hp : v'.params = v.params)
      (ha : v.applied ⊆ v'.applied) (hr : v.recordCalls ⊆ v'.recordCalls) :
      ∃ w', (s.handlers.set j v')[i]? = some w' ∧ w'.params = w.params ∧
        w.applied ⊆ w'.applied ∧ w.recordCalls ⊆ w'.recordCalls := by
    by_cases hij : j = i
    · subst hij
      obtain rfl := Option.some.inj (hw.symm.trans hv)
      obtain ⟨hlt, -⟩ := List.getElem?_eq_some_iff.1 hw
      exact ⟨v', by simp [hlt], hp, ha, hr⟩
    · exact ⟨w, by rw [List.getElem?_set_ne hij, hw], rfl, List.Subset.refl _, List.Subset.refl _⟩
  cases hc with
  | quiet hh => exact ⟨w, hh ▸ hw, rfl, List.Subset.refl _, List.Subset.refl _⟩
  | received p hh =>
    refine ⟨w, ?_, rfl, List.Subset.refl _, List.Subset.refl _⟩
    obtain ⟨hlt, -⟩ := List.getElem?_eq_some_iff.1 hw
    rw [hh, List.getElem?_append_left hlt, hw]
  | moved j v v' hv hm hh =>
    rw [hh]
    exact hset hv hm.params (by rw [hm.applied]; exact List.Subset.refl _) hm.recordCalls
  | served j v he hv hsent hs =>
    subst hs
    have happ : v.applied ⊆ (s.served svc v).applied := by
      simp only [served]
      split_ifs <;> simp
    have hcalls : v.recordCalls ⊆ (s.served svc v).recordCalls := List.Subset.refl _
    exact hset hv rfl happ hcalls

/-- The counter writes that are queued or under way. -/
def pending (s : WinSystem) : List CounterWrite := s.recorder.items.map Impression.write ++ s.workers

@[simp] theorem writeCounter_workers (w : CounterWrite) :
    (s.writeCounter w).workers = s.workers := by
  unfold writeCounter
  split <;> rfl

@[simp] theorem writeCounter_pending (w : CounterWrite) :
    (s.writeCounter w).pending = s.pending := by
  unfold writeCounter
  split <;> rfl

/-- What a step does to the counter writes and the counters. -/
inductive Flow (s s' : WinSystem) (e : WinStep) : Prop
  | kept (hp : s'.pending.Perm s.pending) (hk : s'.counters = s.counters)
  | issued (i : ℕ) (w : WinHandler) (event : ImpressionEvent) (hw : s.handlers[i]? = some w)
      (hphase : w.phase = .accepted) (hev : w.params.impression s.now = some event)
      (hh : s'.handlers = s.handlers.set i
        { w with phase := .recorded, recordCalls := w.recordCalls ++ [event] })
      (hp : s'.pending.Perm (⟨i, event, counterWindows⟩ :: s.pending)) (hk : s'.counters = s.counters)
  | wrote (j : ℕ) (w : CounterWrite) (rest : List CounterWrite) (hw : s.workers[j]? = some w)
      (hp : s.pending.Perm (w :: rest)) (hp' : s'.pending.Perm (w.next.toList ++ rest))
      (hk : s'.counters = s.counters ∨ (e = .write j ∧ s'.counters = (s.writeCounter w).counters))

theorem finishWindow_pending {j : ℕ} {w : CounterWrite} (hw : s.workers[j]? = some w) :
    ∃ rest, s.pending.Perm (w :: rest) ∧
      (s.finishWindow j w).pending.Perm (w.next.toList ++ rest) := by
  obtain ⟨hlt, hget⟩ := List.getElem?_eq_some_iff.1 hw
  refine ⟨s.recorder.items.map Impression.write ++ s.workers.eraseIdx j, ?_, ?_⟩
  · have hperm := List.getElem_cons_eraseIdx_perm hlt
    rw [hget] at hperm
    exact (hperm.symm.append_left _).trans List.perm_middle
  · unfold finishWindow pending
    cases w.next with
    | none => exact .refl _
    | some w' =>
      have hlt' : j < (s.workers.set j w').length := by simpa using hlt
      have hperm := List.getElem_cons_eraseIdx_perm hlt'
      rw [List.getElem_set_self, List.eraseIdx_set_eq] at hperm
      exact (hperm.symm.append_left _).trans List.perm_middle

theorem pending_trySend (s : WinSystem) (a : Impression) :
    (s.recorder.trySend a).2.items.map Impression.write ++ s.workers = s.pending ∨
      ((s.recorder.trySend a).2.items.map Impression.write ++ s.workers).Perm (a.write :: s.pending) := by
  rcases Lib.Channel.trySend_cases s.recorder a with ⟨-, hitems, -⟩ | ⟨-, hitems, -⟩
  · right
    rw [hitems, List.map_append, List.append_assoc]
    exact List.perm_middle
  · left
    rw [hitems]
    rfl

theorem step_flow (hs : step h svc s e = some s') : Flow s s' e := by
  cases e with
  | record i =>
    obtain ⟨w, hw, rfl⟩ := Option.map_eq_some_iff.1 hs
    obtain ⟨hw, hphase⟩ := handlerIn_eq_some.1 hw
    unfold record
    cases hev : w.params.impression s.now with
    | none => exact .kept (.refl _) rfl
    | some event =>
      rcases pending_trySend s ⟨i, event⟩ with hsame | hperm
      · exact .kept (.of_eq hsame) rfl
      · exact .issued i w event hw hphase hev rfl hperm rfl
  | take =>
    obtain ⟨r, hr, rfl⟩ := Option.map_eq_some_iff.1 hs
    obtain ⟨hitems, -⟩ := Lib.Channel.recv_eq_some hr
    refine .kept ?_ rfl
    unfold pending
    rw [hitems, List.map_cons, List.cons_append, ← List.append_assoc]
    exact List.perm_append_singleton _ _
  | write j =>
    obtain ⟨w, hw, rfl⟩ := Option.map_eq_some_iff.1 hs
    obtain ⟨rest, hp, hp'⟩ := finishWindow_pending (s := s.writeCounter w) (by simpa using hw)
    rw [writeCounter_pending] at hp
    exact .wrote j w rest hw hp hp' (.inr ⟨rfl, rfl⟩)
  | writeFails j =>
    obtain ⟨w, hw, rfl⟩ := Option.map_eq_some_iff.1 hs
    obtain ⟨rest, hp, hp'⟩ := finishWindow_pending hw
    exact .wrote j w rest hw hp hp' (.inl rfl)
  | tick | receive =>
    obtain rfl := Option.some.inj hs
    exact .kept (.refl _) rfl
  | authenticate | serve | reply | fail | cancel | publish =>
    obtain ⟨w, -, rfl⟩ := Option.map_eq_some_iff.1 hs
    exact .kept (.refl _) rfl

/-- Every queued impression comes from a `try_record` call of its handler. -/
def Issued (s : WinSystem) : Prop :=
  ∀ p ∈ s.pending, ∃ w, s.handlers[p.handler]? = some w ∧ p.event ∈ w.recordCalls

theorem Issued.step (hi : Issued s) (hc : Change h svc s s' e) (hf : Flow s s' e) : Issued s' := by
  have hold : ∀ p : CounterWrite, (∃ q ∈ s.pending, q.handler = p.handler ∧ q.event = p.event) →
      ∃ w, s'.handlers[p.handler]? = some w ∧ p.event ∈ w.recordCalls := by
    rintro p ⟨q, hq, hhandler, hevent⟩
    obtain ⟨w, hw, hmem⟩ := hi q hq
    obtain ⟨w', hw', -, -, hcalls⟩ := handlers_grow hc hw
    exact ⟨w', hhandler ▸ hw', hevent ▸ hcalls hmem⟩
  intro p hp
  cases hf with
  | kept hperm => exact hold p ⟨p, hperm.subset hp, rfl, rfl⟩
  | issued i w event hw hphase hev hh hperm =>
    rcases List.mem_cons.1 (hperm.subset hp) with rfl | hp
    · obtain ⟨hlt, -⟩ := List.getElem?_eq_some_iff.1 hw
      exact ⟨_, by rw [hh, List.getElem?_set_self hlt], by simp⟩
    · exact hold p ⟨p, hp, rfl, rfl⟩
  | wrote j w rest hw hperm hperm' =>
    rcases List.mem_append.1 (hperm'.subset hp) with hnext | hrest
    · obtain ⟨hhandler, hevent, -⟩ := CounterWrite.next_eq_some (Option.mem_toList.1 hnext)
      exact hold p ⟨w, hperm.symm.subset (by simp), hhandler.symm, hevent.symm⟩
    · exact hold p ⟨p, hperm.symm.subset (by simp [hrest]), rfl, rfl⟩

/-- What holds of the win path in every reached state. -/
structure Sound (h : Hmac) (svc : WinNoticeGateService) (s : WinSystem) : Prop where
  handlers : ∀ w ∈ s.handlers, w.Ok h svc
  ledger : Ledger svc s
  issued : Issued s

theorem Sound.step (hs : Sound h svc s) (hstep : WinSystem.step h svc s e = some s') :
    Sound h svc s' :=
  have hc := step_change hstep
  ⟨handlers_ok hc hs.handlers, hs.ledger.step hc, hs.issued.step hc (step_flow hstep)⟩

theorem sound_run (hrun : Reached h svc evs s) : Sound h svc s := by
  refine hrun.inv ?_ (fun _ _ _ => Sound.step)
  rintro s rfl
  exact ⟨by simp [init], ⟨by simp [init], by simp [init], by simp [init], by simp [init]⟩,
    by simp [Issued, pending, init, Lib.Channel.empty]⟩

/-- The server first applied a `SET` of the key at `t`. -/
def FirstSet (s : WinSystem) (key : String) (t : ℕ) : Prop :=
  (∃ w ∈ s.handlers, w.key = key ∧ t ∈ w.applied) ∧
    ∀ w ∈ s.handlers, w.key = key → ∀ t' ∈ w.applied, t ≤ t'

/-- Two handlers that go on for one key had their `SET`s applied a TTL apart. -/
theorem Sound.apart (hs : Sound h svc s) {i j : ℕ} {w w' : WinHandler}
    (hi : s.handlers[i]? = some w) (hj : s.handlers[j]? = some w') (hij : i ≠ j)
    (hkey : w.key = w'.key) (hp : w.proceeds = true) (hp' : w'.proceeds = true) :
    ∃ t ∈ w.applied, ∃ t' ∈ w'.applied, t + svc.ttlMs ≤ t' ∨ t' + svc.ttlMs ≤ t := by
  obtain ⟨t, ht⟩ := List.exists_mem_of_ne_nil _ ((hs.handlers w (List.mem_of_getElem? hi)).won hp)
  obtain ⟨t', ht'⟩ := List.exists_mem_of_ne_nil _ ((hs.handlers w' (List.mem_of_getElem? hj)).won hp')
  exact ⟨t, ht, t', ht', hs.ledger.apart hi hj hij hkey t ht t' ht'⟩

theorem effects_le {w : WinHandler} (hw : w.Effects) :
    w.recordCalls.length ≤ 1 ∧ w.published.length ≤ 1 ∧
      (w.proceeds = false → w.recordCalls = [] ∧ w.published = []) := by
  unfold WinHandler.Effects at hw
  unfold WinHandler.proceeds
  split at hw
  · obtain ⟨⟨t, ht⟩, hp⟩ := hw
    rename_i hphase
    simp [ht, hp, hphase, Option.length_toList_le]
  · obtain ⟨⟨t, ht⟩, t', ht'⟩ := hw
    rename_i hphase
    simp [ht, ht', hphase]
  · simp [hw]

/-- During the TTL after the first applied `SET` of a key at most one notice with that key
goes on to the side effects. Each handler makes each of its calls at most once, and none
unless it goes on, so nothing is queued for the others. The dedup keys change only by the
`SET` of a handler that has passed the token check. -/
theorem at_most_once_per_ttl (hrun : Reached h svc evs s) :
    (∀ key t, s.FirstSet key t → s.now < t + svc.ttlMs → ∀ (i j : ℕ) (w w' : WinHandler),
      s.handlers[i]? = some w → s.handlers[j]? = some w' → w.key = key → w'.key = key →
      w.proceeds = true → w'.proceeds = true → i = j) ∧
    (∀ w ∈ s.handlers, w.recordCalls.length ≤ 1 ∧ w.published.length ≤ 1 ∧
      (w.proceeds = false → w.recordCalls = [] ∧ w.published = [])) ∧
    (∀ a ∈ s.recorder.items, ∃ w, s.handlers[a.handler]? = some w ∧ a.event ∈ w.recordCalls) ∧
    (∀ e s', step h svc s e = some s' → s'.dedup = s.dedup ∨ ∃ (i : ℕ) (w : WinHandler),
      e = .serve i ∧ s.handlers[i]? = some w ∧ w.phase ≠ .returned .AuthFailed ∧
      svc.authenticates h w.params = true) := by
  have hsound := sound_run hrun
  refine ⟨?_, fun w hw => effects_le (hsound.handlers w hw).effects, ?_, ?_⟩
  · intro key t hfirst hnow i j w w' hi hj hkey hkey' hp hp'
    by_contra hij
    obtain ⟨t₁, ht₁, t₂, ht₂, hapart⟩ := hsound.apart hi hj hij (hkey.trans hkey'.symm) hp hp'
    have hw := List.mem_of_getElem? hi
    have hw' := List.mem_of_getElem? hj
    have := hfirst.2 w hw hkey t₁ ht₁
    have := hfirst.2 w' hw' hkey' t₂ ht₂
    have := hsound.ledger.past w hw t₁ ht₁
    have := hsound.ledger.past w' hw' t₂ ht₂
    omega
  · intro a ha
    exact hsound.issued a.write (List.mem_append_left _ (List.mem_map_of_mem ha))
  · intro e s' hstep
    cases step_change hstep with
    | quiet _ hd => exact .inl hd
    | received _ _ hd => exact .inl hd
    | moved _ _ _ _ _ _ hd => exact .inl hd
    | served i w he hw hsent =>
      refine .inr ⟨i, w, he, hw, ?_, (hsound.handlers w (List.mem_of_getElem? hw)).authenticated hsent⟩
      intro hphase
      simp [WinHandler.sent, hphase] at hsent

instance (s : WinSystem) (key : String) (t : ℕ) : Decidable (s.FirstSet key t) :=
  inferInstanceAs (Decidable (_ ∧ _))

/-- The same notice twice, the two handlers interleaved. -/
theorem replay_takes_effect_once :
    ∃ evs s, Reached sampled openGate evs s ∧ s.FirstSet (dedupKey "r" "1") 0 ∧
      s.handlers.map WinHandler.phase = [.returned .Accept, .returned .Duplicate] ∧
      ∀ (i j : ℕ) (w w' : WinHandler), s.handlers[i]? = some w → s.handlers[j]? = some w' →
        w.key = dedupKey "r" "1" → w'.key = dedupKey "r" "1" → w.proceeds = true →
        w'.proceeds = true → i = j := by
  let evs : List WinStep := [.receive (noticeFor "r" "1"), .receive (noticeFor "r" "1"),
    .authenticate 1, .authenticate 0, .serve 0, .serve 1, .tick 20, .reply 1 .nil, .reply 0 .ok,
    .record 0, .publish 0]
  obtain ⟨s, hrun, hfirst, hnow, hphases⟩ := Lib.run_of_exec_any (f := step sampled openGate)
    (P := fun s => s.FirstSet (dedupKey "r" "1") 0 ∧ s.now < 0 + openGate.ttlMs ∧
      s.handlers.map WinHandler.phase = [.returned .Accept, .returned .Duplicate])
    (show (Lib.exec (step sampled openGate) init evs).any _ = true by decide +kernel)
  exact ⟨evs, s, hrun, hfirst, hphases, (at_most_once_per_ttl hrun).1 _ 0 hfirst hnow⟩

section Alone

variable {i : ℕ} {w : WinHandler}

@[simp] theorem getElem?_setHandler (hw : s.handlers[i]? = some w) (w' : WinHandler) :
    (s.setHandler i w').handlers[i]? = some w' := Lib.getElem?_set_moved hw

theorem step_authenticate (hw : s.handlers[i]? = some w) (hphase : w.phase = .received) :
    step h svc s (.authenticate i) = some (s.setHandler i { w with
      phase := if svc.authenticates h w.params then .waiting else .returned .AuthFailed }) := by
  rw [step, handlerIn_eq_some.2 ⟨hw, hphase⟩, Option.map_some]

theorem step_serve (hw : s.handlers[i]? = some w) (hsent : w.sent = true) :
    step h svc s (.serve i) = some (s.serve svc i w) := by
  rw [step, Option.filter_eq_some_iff.2 ⟨hw, hsent⟩, Option.map_some]

theorem step_reply {r : SetReply} (hw : s.handlers[i]? = some w) (hphase : w.phase = .waiting)
    (hr : r ∈ w.replies) : step h svc s (.reply i r) =
      some (s.setHandler i { w with phase := afterGate (gateOf r) }) := by
  rw [step, Option.filter_eq_some_iff.2 ⟨handlerIn_eq_some.2 ⟨hw, hphase⟩, decide_eq_true hr⟩,
    Option.map_some]

/-- A handler by itself, with a server that answers, goes where `check` says. -/
theorem check_alone_gate (hw : s.handlers[i]? = some w) (hphase : w.phase = .received) :
    ∃ evs s' w', Lib.exec (step h svc) s evs = some s' ∧ s'.handlers[i]? = some w' ∧
      w'.phase = afterGate (svc.check h w.params s.now s.dedup).1 ∧
      s'.dedup = (svc.check h w.params s.now s.dedup).2 := by
  have hfirst : step h svc s (.authenticate i) = _ := step_authenticate hw hphase
  cases hauth : svc.authenticates h w.params with
  | false =>
    simp only [hauth, Bool.false_eq_true, if_false] at hfirst
    refine ⟨[.authenticate i], _, { w with phase := .returned .AuthFailed }, ?_,
      getElem?_setHandler hw _, ?_, ?_⟩
    · simp only [Lib.exec, hfirst, Option.bind_some]
    · simp [check, hauth, afterGate]
    · simp [check, hauth, setHandler]
  | true =>
    simp only [hauth, if_true] at hfirst
    set w₁ : WinHandler := { w with phase := .waiting }
    have hw₁ := getElem?_setHandler hw w₁
    have hw₂ : ((s.setHandler i w₁).serve svc i w₁).handlers[i]? = _ := getElem?_setHandler hw₁ _
    have hr : (svc.serveSet s.dedup s.now w.key).1 ∈ ((s.setHandler i w₁).served svc w₁).replies :=
      List.mem_append_right _ (List.mem_singleton.2 rfl)
    have hlast : step h svc _ (.reply i _) = _ := step_reply hw₂ rfl hr
    refine ⟨[_, _, _], _, _, Lib.exec_cons hfirst (Lib.exec_cons (step_serve hw₁ rfl)
      (Lib.exec_cons hlast rfl)), getElem?_setHandler hw₂ _, ?_, ?_⟩
    · simp [check, gate, hauth, WinHandler.key]
    · simp [check, hauth, WinHandler.key, setHandler, serve, w₁]

end Alone

end WinSystem

end RTB
