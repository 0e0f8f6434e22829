import RtbBidder.Proofs.WinAuth

/-! When the dedup gate takes a first notice for a repeated one: a colon inside the
ids moves the joint of the key. -/

namespace RTB.WinNoticeGateService

variable {h : Hmac} {svc : WinNoticeGateService}

/-- The dedup keys left by notices checked one after the other, each at its time. -/
def checkAll (h : Hmac) (svc : WinNoticeGateService) (log : List (WinParams × ℕ)) :
    Lib.Keyspace String Unit :=
  log.foldl (fun ks m => (svc.check h m.1 m.2 ks).2) .empty

theorem checkAll_snoc (log : List (WinParams × ℕ)) (m : WinParams × ℕ) :
    svc.checkAll h (log ++ [m]) = (svc.check h m.1 m.2 (svc.checkAll h log)).2 := by
  simp [checkAll]

/-- Two notices share a dedup key exactly if their ids agree, or a colon inside one's
ids is the joint of the other's. -/
theorem dedupKey_eq_iff {r i r' i' : String} : dedupKey r i = dedupKey r' i' ↔
    (r = r' ∧ i = i') ∨ Lib.Shifted ':' r.toList i.toList r'.toList i'.toList := by
  rw [← String.toList_inj, ← String.toList_inj, ← String.toList_inj, ← Lib.join_eq_iff]
  simp [dedupKey, String.toList_append]

/-- The time lies within one TTL from `t₀`. -/
def Within (svc : WinNoticeGateService) (t₀ t : ℕ) : Prop := t₀ ≤ t ∧ t < t₀ + svc.ttlMs

theorem check_of_live {n : WinParams} {t : ℕ} {ks : Lib.Keyspace String Unit} {e : Unit × ℕ}
    (hn : svc.authenticates h n = true) (hserves : 0 < svc.ttl)
    (hlive : ks.live t (dedupKey n.requestId n.impId) = some e) :
    svc.check h n t ks = (.Duplicate, ks) := by
  simp only [check, gate, serveSet, hn, if_true, Int64.not_le.2 hserves, if_false,
    Lib.Keyspace.setNx_of_live hlive, Bool.false_eq_true, gateOf]

theorem check_of_not_live {n : WinParams} {t : ℕ} {ks : Lib.Keyspace String Unit}
    (hn : svc.authenticates h n = true) (hserves : 0 < svc.ttl)
    (hlive : ks.live t (dedupKey n.requestId n.impId) = none) :
    svc.check h n t ks =
      (.Accept, ks.put (dedupKey n.requestId n.impId) () (t + svc.ttlMs)) := by
  simp only [check, gate, serveSet, hn, if_true, Int64.not_le.2 hserves, if_false,
    Lib.Keyspace.setNx_of_not_live hlive, gateOf]

/-- Within the TTL the live keys are those of the notices checked. -/
theorem live_checkAll (hserves : 0 < svc.ttl) (t₀ : ℕ) (log : List (WinParams × ℕ))
    (hauth : ∀ m ∈ log, svc.authenticates h m.1 = true)
    (htime : ∀ m ∈ log, svc.Within t₀ m.2) {t : ℕ} (ht : svc.Within t₀ t) (key : String) :
    ((svc.checkAll h log).live t key).isSome ↔
      ∃ m ∈ log, dedupKey m.1.requestId m.1.impId = key := by
  induction log using List.reverseRecOn generalizing t key with
  | nil => simp [checkAll, Lib.Keyspace.live, Lib.Keyspace.empty]
  | append_singleton log m ih =>
    simp only [List.mem_append, List.mem_singleton] at hauth htime
    have ih {t : ℕ} {key : String} (ht : svc.Within t₀ t) :
        ((svc.checkAll h log).live t key).isSome ↔ ∃ m ∈ log, dedupKey m.1.requestId m.1.impId = key :=
      ih (fun m hm => hauth m (.inl hm)) (fun m hm => htime m (.inl hm)) ht key
    rw [checkAll_snoc]
    cases hlive : (svc.checkAll h log).live m.2 (dedupKey m.1.requestId m.1.impId) with
    | some e =>
      -- a duplicate: its key is the key of an earlier notice
      rw [check_of_live (hauth m (.inr rfl)) hserves hlive, ih ht]
      obtain ⟨m', hm', hkey⟩ := (ih (htime m (.inr rfl))).1 (Option.isSome_of_eq_some hlive)
      refine ⟨?_, ?_⟩
      · rintro ⟨m₁, hm₁, rfl⟩
        exact ⟨m₁, List.mem_append_left _ hm₁, rfl⟩
      · rintro ⟨m₁, hm₁, rfl⟩
        rcases List.mem_append.1 hm₁ with hm₁ | hm₁
        · exact ⟨m₁, hm₁, rfl⟩
        · obtain rfl := List.mem_singleton.1 hm₁
          exact ⟨m', hm', hkey⟩
    | none =>
      have hexpires : t < m.2 + svc.ttlMs := by
        have := htime m (.inr rfl)
        unfold Within at this ht
        omega
      rw [check_of_not_live (hauth m (.inr rfl)) hserves hlive, Lib.Keyspace.live_put,
        if_pos hexpires]
      by_cases hkey : key = dedupKey m.1.requestId m.1.impId
      · rw [if_pos hkey]
        exact iff_of_true rfl ⟨m, by simp, hkey.symm⟩
      · rw [if_neg hkey, ih ht]
        simp only [List.mem_append, List.mem_singleton, or_and_right, exists_or, exists_eq_left,
          eq_comm (b := key), hkey, or_false]

/-- Within the TTL a notice is a duplicate exactly if its key is that of an earlier one. -/
theorem check_checkAll (hserves : 0 < svc.ttl) (t₀ : ℕ) (log : List (WinParams × ℕ))
    (n : WinParams) (t : ℕ) (hauth : ∀ m ∈ log ++ [(n, t)], svc.authenticates h m.1 = true)
    (htime : ∀ m ∈ log ++ [(n, t)], svc.Within t₀ m.2) :
    (svc.check h n t (svc.checkAll h log)).1 =
      if ∃ m ∈ log, dedupKey m.1.requestId m.1.impId = dedupKey n.requestId n.impId
      then .Duplicate else .Accept := by
  simp only [List.mem_append, List.mem_singleton] at hauth htime
  have hkeys := live_checkAll hserves t₀ log (fun m hm => hauth m (.inl hm))
    (fun m hm => htime m (.inl hm)) (htime (n, t) (.inr rfl)) (dedupKey n.requestId n.impId)
  cases hlive : (svc.checkAll h log).live t (dedupKey n.requestId n.impId) with
  | some e =>
    rw [check_of_live (hauth (n, t) (.inr rfl)) hserves hlive,
      if_pos (hkeys.1 (Option.isSome_of_eq_some hlive))]
  | none =>
    have hno := mt hkeys.2 (by simp [hlive])
    rw [check_of_not_live (hauth (n, t) (.inr rfl)) hserves hlive, if_neg hno]

/-- A first notice for its ids is accepted exactly if no notice before it within the TTL
has ids that split the same text at another colon. -/
theorem first_notice_accepted_iff (hserves : 0 < svc.ttl) (t₀ : ℕ) (log : List (WinParams × ℕ))
    (n : WinParams) (t : ℕ) (hauth : ∀ m ∈ log ++ [(n, t)], svc.authenticates h m.1 = true)
    (htime : ∀ m ∈ log ++ [(n, t)], svc.Within t₀ m.2)
    (hfirst : ∀ m ∈ log, ¬ (m.1.requestId = n.requestId ∧ m.1.impId = n.impId)) :
    (svc.check h n t (svc.checkAll h log)).1 = .Accept ↔
      ∀ m ∈ log, ¬ Lib.Shifted ':' m.1.requestId.toList m.1.impId.toList
        n.requestId.toList n.impId.toList := by
  rw [check_checkAll hserves t₀ log n t hauth htime]
  split_ifs with hkey
  · obtain ⟨m, hm, hkey⟩ := hkey
    have hshift := (dedupKey_eq_iff.1 hkey).resolve_left (hfirst m hm)
    exact iff_of_false (by simp) fun hno => hno m hm hshift
  · exact iff_of_true rfl fun m hm hshift => hkey ⟨m, hm, dedupKey_eq_iff.2 (.inr hshift)⟩

/-- The gate without authentication, with the default TTL. -/
def openGate : WinNoticeGateService := new ⟨false, "", fun _ => none, 3600⟩

theorem authenticates_openGate (n : WinParams) : openGate.authenticates h n = true := by
  have hnone : openGate.secretFor (n.exchangeId.getD "") = none := by
    unfold secretFor
    split_ifs <;> rfl
  exact verifyToken_iff.2 (.inl hnone)

theorem within_openGate {t : ℕ} (ht : t < 3600000) : openGate.Within 0 t := by
  have hms : openGate.ttlMs = 3600000 := by decide +kernel
  unfold Within
  omega

/-- A notice for the ids of one auction. -/
def noticeFor (requestId impId : String) : WinParams :=
  ⟨requestId, impId, 7, 8, 0, none, none, none⟩

theorem first_notice_accepted_after_other :
    (openGate.check sampled (noticeFor "r2" "1") 5
      (openGate.checkAll sampled [(noticeFor "r1" "1", 0)])).1 = .Accept := by
  have hserves : 0 < openGate.ttl := by decide
  refine (first_notice_accepted_iff hserves 0 _ _ _ (fun m _ => authenticates_openGate m.1) ?_ ?_).2 ?_
  · simp [within_openGate]
  · simp [noticeFor]
  · simp [noticeFor, Lib.Shifted]

/-- After the notice for request `a:b` and impression `c`, the first one for request `a`
and impression `b:c` is dropped as its duplicate. -/
theorem colon_in_ids_swallows_win :
    ∃ first second : WinParams, first.requestId ≠ second.requestId ∧ first.impId ≠ second.impId ∧
      ∀ h : Hmac, openGate.authenticates h first = true ∧ openGate.authenticates h second = true ∧
        (openGate.check h second 5 (openGate.checkAll h [(first, 0)])).1 = .Duplicate := by
  have hserves : 0 < openGate.ttl := by decide
  have hkey : dedupKey "a:b" "c" = dedupKey "a" "b:c" := by decide
  refine ⟨noticeFor "a:b" "c", noticeFor "a" "b:c", by decide, by decide, fun h =>
    ⟨authenticates_openGate _, authenticates_openGate _, ?_⟩⟩
  rw [check_checkAll hserves 0 _ _ _ (fun m _ => authenticates_openGate m.1)
    (by simp [within_openGate])]
  exact if_pos ⟨_, List.mem_singleton.2 rfl, hkey⟩

end RTB.WinNoticeGateService
