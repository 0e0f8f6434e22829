import RtbBidder.Proofs.PacingLedger
import RtbBidder.Spec.CapSystem

/-! The in-process capper against the Redis counters. The win handler counts in
Redis only, so a cached count stays behind unless no counter is written while a
cached value, or one on its way to the cache, stands for it. -/

namespace RTB

/-- Fallback results that the call has still to write back. -/
def CheckCall.pending (ck : CheckCall) : List CapResult :=
  match ck.phase with
  | .warming todo _ => todo
  | _ => []

def CheckCall.heldMap (ck : CheckCall) : Option ℕ :=
  match ck.phase with
  | .warming _ map => map
  | _ => none

namespace CapSystem

open RedisFrequencyCapper (count verdict)

variable {s s' : CapSystem} {e : CapEvent} {u : String} {c : CampaignId}

/-- A counter script runs for a user and campaign only while the cache has no entry for
them and no check has their counts still to write back. -/
def WritesUncached (s : CapSystem) : CapEvent → Prop
  | .write k => ∀ w ∈ s.workers[k]?, s.lookup w.event.userId w.event.campaignId = none ∧
      ∀ ck ∈ s.checks, ck.userId = w.event.userId →
        ∀ fb ∈ ck.pending, fb.campaignId ≠ w.event.campaignId
  | _ => True

instance (s : CapSystem) (e : CapEvent) : Decidable (s.WritesUncached e) := by
  cases e <;> unfold WritesUncached <;> infer_instance

/-- The maps in the cache belong to their users, and none of their counts is behind Redis. -/
structure Backed (s : CapSystem) : Prop where
  owned : ∀ u i, s.cache u = some i → ∃ m, s.maps[i]? = some (u, m)
  cached : ∀ u c v, s.lookup u c = some v →
    count s.redis u c .Day ≤ v.1 ∧ count s.redis u c .Hour ≤ v.2

/-- The map a check holds is its user's, and no count it will write back is behind Redis. -/
structure CheckBacked (s : CapSystem) (ck : CheckCall) : Prop where
  held : ∀ i, ck.heldMap = some i → ∃ m, s.maps[i]? = some (ck.userId, m)
  pending : ∀ fb ∈ ck.pending, count s.redis ck.userId fb.campaignId .Day ≤ fb.dayCount.getD 0 ∧
    count s.redis ck.userId fb.campaignId .Hour ≤ fb.hourCount.getD 0

/-- Allocated maps keep their owner; counters and calls stand. -/
structure Extends (s s' : CapSystem) : Prop where
  maps : ∀ (i : ℕ) (u : String) m, s.maps[i]? = some (u, m) → ∃ m', s'.maps[i]? = some (u, m')
  redis : s'.redis = s.redis
  checks : s'.checks = s.checks
  records : s'.records = s.records

theorem Extends.refl (s : CapSystem) : Extends s s := ⟨fun _ _ m h => ⟨m, h⟩, rfl, rfl, rfl⟩

/-- A check without a map in hand. -/
theorem CheckBacked.of_no_map {ck : CheckCall} (h : ck.heldMap = none)
    (hp : ∀ fb ∈ ck.pending, count s.redis ck.userId fb.campaignId .Day ≤ fb.dayCount.getD 0 ∧
      count s.redis ck.userId fb.campaignId .Hour ≤ fb.hourCount.getD 0) : CheckBacked s ck :=
  ⟨fun i hi => by simp [h] at hi, hp⟩

/-- A check that has nothing to write back. -/
theorem CheckBacked.of_idle {ck : CheckCall} (h : ck.heldMap = none) (hp : ck.pending = []) :
    CheckBacked s ck := .of_no_map h (by simp [hp])

theorem CheckBacked.extend {ck : CheckCall} (h : CheckBacked s ck) (he : Extends s s') :
    CheckBacked s' ck := by
  refine ⟨?_, ?_⟩
  · intro i hi
    obtain ⟨m, hm⟩ := h.held i hi
    exact he.maps i _ m hm
  · rw [he.redis]
    exact h.pending

theorem lookup_eq_some {v : ℤ × ℤ} : s.lookup u c = some v ↔
    ∃ i o m, s.cache u = some i ∧ s.maps[i]? = some (o, m) ∧ m.lookup c = some v := by
  simp only [lookup, mapAt, Option.bind_eq_some_iff, Option.map_eq_some_iff]
  refine ⟨?_, ?_⟩
  · rintro ⟨i, hi, m, ⟨⟨o, m'⟩, hm, rfl⟩, hv⟩
    exact ⟨i, o, m', hi, hm, hv⟩
  · rintro ⟨i, o, m, hi, hm, hv⟩
    exact ⟨i, hi, m, ⟨(o, m), hm, rfl⟩, hv⟩

theorem getWith_backed (h : s.Backed) (u : String) :
    (s.getWith u).2.Backed ∧ Extends s (s.getWith u).2 ∧
      ∃ m, (s.getWith u).2.maps[(s.getWith u).1]? = some (u, m) := by
  unfold getWith
  split
  · rename_i i hi
    exact ⟨h, .refl s, h.owned u i hi⟩
  · have hgrow : ∀ (i : ℕ) (x : String × UserCapMap), s.maps[i]? = some x →
        (s.maps ++ [(u, ∅)])[i]? = some x := fun i x hx => List.getElem?_append_left
      (List.getElem?_eq_some_iff.1 hx).1 ▸ hx
    refine ⟨⟨?_, ?_⟩, ⟨fun i o m hm => ⟨m, hgrow i _ hm⟩, rfl, rfl, rfl⟩, ∅, by simp⟩
    · intro u' i hi
      by_cases hu : u' = u
      · subst hu
        obtain rfl : s.maps.length = i := by simpa using hi
        exact ⟨∅, by simp⟩
      · obtain ⟨m, hm⟩ := h.owned u' i (by simpa [Function.update_of_ne hu] using hi)
        exact ⟨m, hgrow i _ hm⟩
    · intro u' c v hv
      obtain ⟨i, o, m, hi, hm, hc⟩ := lookup_eq_some.1 hv
      by_cases hu : u' = u
      · -- the fresh map is empty
        subst hu
        obtain rfl : s.maps.length = i := by simpa using hi
        obtain ⟨-, rfl⟩ : u' = o ∧ ∅ = m := by simpa using hm
        simp at hc
      · have hi : s.cache u' = some i := by simpa [Function.update_of_ne hu] using hi
        obtain ⟨m', hm'⟩ := h.owned u' i hi
        obtain ⟨rfl, rfl⟩ : u' = o ∧ m' = m := by simpa [hgrow i _ hm'] using hm
        exact h.cached u' c v (lookup_eq_some.2 ⟨i, u', m', hi, hm', hc⟩)

theorem lookup_warm (m : UserCapMap) (c c' : CampaignId) (day hour : ℤ) {v : ℤ × ℤ}
    (h : (m.warm c day hour).lookup c' = some v) :
    m.lookup c' = some v ∨ c' = c ∧ day ≤ v.1 ∧ hour ≤ v.2 := by
  by_cases hc : c' = c
  · subst hc
    rw [UserCapMap.warm, AList.lookup_insert] at h
    obtain rfl := Option.some.inj h
    refine .inr ⟨rfl, ?_⟩
    split
    · exact ⟨le_max_right _ _, le_max_right _ _⟩
    · exact ⟨le_rfl, le_rfl⟩
  · rw [UserCapMap.warm, AList.lookup_insert_ne hc] at h
    exact .inl h

/-- Writing counts that are not behind Redis into a map of their user. -/
theorem warm_backed (h : s.Backed) {i : ℕ} {m : UserCapMap} (hi : s.maps[i]? = some (u, m))
    {day hour : ℤ} (hd : count s.redis u c .Day ≤ day) (hh : count s.redis u c .Hour ≤ hour) :
    (s.modifyMap i (·.warm c day hour)).Backed ∧
      Extends s (s.modifyMap i (·.warm c day hour)) := by
  have hmaps : ∀ j, (s.modifyMap i (·.warm c day hour)).maps[j]? =
      (s.maps[j]?).map fun x => if i = j then (x.1, x.2.warm c day hour) else x := fun j => by
    simp [modifyMap, List.getElem?_modify]
  have howner : ∀ (j : ℕ) (o : String) m', s.maps[j]? = some (o, m') →
      ∃ m'', (s.modifyMap i (·.warm c day hour)).maps[j]? = some (o, m'') := by
    intro j o m' hj
    rw [hmaps, hj, Option.map_some]
    split_ifs
    · exact ⟨_, rfl⟩
    · exact ⟨_, rfl⟩
  refine ⟨⟨?_, ?_⟩, ⟨howner, rfl, rfl, rfl⟩⟩
  · intro u' j hj
    obtain ⟨m', hm'⟩ := h.owned u' j hj
    exact howner j u' m' hm'
  · intro u' c' v hv
    obtain ⟨j, o, m', hj, hm', hc'⟩ := lookup_eq_some.1 hv
    obtain ⟨m₀, hm₀⟩ := h.owned u' j hj
    rw [hmaps, hm₀, Option.map_some] at hm'
    split_ifs at hm' with hij
    · subst hij
      obtain ⟨rfl, rfl⟩ : u' = u ∧ m₀ = m := by simpa [hm₀] using hi
      obtain ⟨rfl, rfl⟩ := Prod.mk.inj (Option.some.inj hm')
      rcases lookup_warm m₀ c c' day hour hc' with hc' | ⟨rfl, h1, h2⟩
      · exact h.cached u' c' v (lookup_eq_some.2 ⟨i, u', m₀, hj, hm₀, hc'⟩)
      · exact ⟨hd.trans h1, hh.trans h2⟩
    · obtain ⟨rfl, rfl⟩ := Prod.mk.inj (Option.some.inj hm')
      exact h.cached u' c' v (lookup_eq_some.2 ⟨j, u', m₀, hj, hm₀, hc'⟩)

theorem stepCheck_backed (h : s.Backed) {ck : CheckCall} (hck : CheckBacked s ck) :
    (s.stepCheck ck).2.Backed ∧ Extends s (s.stepCheck ck).2 ∧
      CheckBacked (s.stepCheck ck).2 (s.stepCheck ck).1 := by
  obtain ⟨user, results, cold, phase⟩ := ck
  cases phase with
  | lookups todo =>
    cases todo with
    | nil =>
      simp only [stepCheck]
      split_ifs
      · exact ⟨h, .refl s, .of_idle rfl rfl⟩
      · exact ⟨h, .refl s, .of_idle rfl rfl⟩
    | cons cand todo => exact ⟨h, .refl s, .of_idle rfl rfl⟩
  | fallback =>
    simp only [stepCheck, RedisFrequencyCapper.check_eq]
    refine ⟨h, .refl s, .of_no_map rfl fun fb hfb => ?_⟩
    -- the counts that the MGET reads are the current ones
    obtain ⟨cand, -, rfl⟩ := List.mem_map.1 hfb
    exact ⟨le_rfl, le_rfl⟩
  | warming todo map =>
    cases todo with
    | nil => exact ⟨h, .refl s, .of_idle rfl rfl⟩
    | cons fb todo =>
      have hpend := hck.pending
      cases map with
      | none =>
        simp only [stepCheck]
        split_ifs
        · obtain ⟨hb, hext, hm⟩ := getWith_backed h user
          refine ⟨hb, hext, ⟨?_, ?_⟩⟩
          · intro i hi
            obtain rfl : (s.getWith user).1 = i := by simpa [CheckCall.heldMap] using hi
            exact hm
          · rw [hext.redis]
            exact hpend
        · exact ⟨h, .refl s, .of_no_map rfl fun fb' hfb' =>
            hpend fb' (List.mem_cons_of_mem _ hfb')⟩
      | some i =>
        obtain ⟨m, hm⟩ := hck.held i rfl
        obtain ⟨hd, hh⟩ := hpend fb List.mem_cons_self
        obtain ⟨hb, hext⟩ := warm_backed h hm hd hh
        exact ⟨hb, hext, .of_no_map rfl fun fb' hfb' =>
          hpend fb' (List.mem_cons_of_mem _ hfb')⟩
  | returned => exact ⟨h, .refl s, .of_idle rfl rfl⟩

/-- Nothing the capper knows, or is about to know, is behind Redis. -/
structure Fresh (s : CapSystem) : Prop where
  backed : s.Backed
  checks : ∀ ck ∈ s.checks, CheckBacked s ck
  records : s.records = []

theorem count_incr_of_ne {redis : String → Option ℤ} {w : Write}
    (h : ¬ (u = w.event.userId ∧ c = w.event.campaignId)) (win : CapWindow) :
    count (incr redis (Write.key w)) u c win = count redis u c win := by
  have hkey : fcKey u "c" c win ≠ Write.key w := by
    intro heq
    obtain ⟨hu, hc, -⟩ := fcKey_inj heq
    exact h ⟨hu, hc⟩
  simp only [count, incr, Function.update_of_ne hkey]

theorem Fresh.write {k : ℕ} (h : s.Fresh) (hok : s.WritesUncached (.write k))
    (hs : s.step (.write k) = some s') : s'.Fresh := by
  obtain ⟨w, hw, rfl⟩ := Option.map_eq_some_iff.1 hs
  obtain ⟨hcold, hread⟩ := hok w hw
  refine ⟨⟨h.backed.owned, ?_⟩, fun ck hck => ⟨(h.checks ck hck).held, ?_⟩, h.records⟩
  · intro u c v hv
    have hne : ¬ (u = w.event.userId ∧ c = w.event.campaignId) := by
      rintro ⟨rfl, rfl⟩
      have hv : s.lookup w.event.userId w.event.campaignId = some v := hv
      rw [hcold] at hv
      cases hv
    simp only [count_incr_of_ne hne]
    exact h.backed.cached u c v hv
  · intro fb hfb
    have hne : ¬ (ck.userId = w.event.userId ∧ fb.campaignId = w.event.campaignId) :=
      fun ⟨hu, hc⟩ => hread ck hck hu fb hfb hc
    simp only [count_incr_of_ne hne]
    exact (h.checks ck hck).pending fb hfb

/-- A step that leaves the cache, the counters and the calls alone. -/
theorem Fresh.of_frame (h : s.Fresh) (hm : s'.maps = s.maps) (hc : s'.cache = s.cache)
    (hr : s'.redis = s.redis) (hck : s'.checks = s.checks) (hrec : s'.records = s.records) :
    s'.Fresh := by
  have hlook : s'.lookup = s.lookup := by
    funext u c
    simp only [lookup, mapAt, hm, hc]
  refine ⟨⟨hc ▸ hm ▸ h.backed.owned, hlook ▸ hr ▸ h.backed.cached⟩, fun ck hmem => ?_, hrec ▸ h.records⟩
  have := h.checks ck (hck ▸ hmem)
  exact ⟨hm ▸ this.held, hr ▸ this.pending⟩

theorem Fresh.evict (h : s.Fresh) (hs : s.step (.evict u) = some s') : s'.Fresh := by
  obtain ⟨i, -, rfl⟩ := Option.map_eq_some_iff.1 hs
  have hold : ∀ u' j, Function.update s.cache u none u' = some j → s.cache u' = some j := by
    intro u' j hj
    by_cases hu : u' = u
    · subst hu
      simp at hj
    · rwa [Function.update_of_ne hu] at hj
  refine ⟨⟨fun u' j hj => h.backed.owned u' j (hold u' j hj), fun u' c v hv => ?_⟩,
    fun ck hck => ⟨(h.checks ck hck).held, (h.checks ck hck).pending⟩, h.records⟩
  obtain ⟨j, o, m, hj, hm, hc⟩ := lookup_eq_some.1 hv
  exact h.backed.cached u' c v (lookup_eq_some.2 ⟨j, o, m, hold u' j hj, hm, hc⟩)

theorem Fresh.step (h : s.Fresh) (hok : s.WritesUncached e)
    (hrec : ∀ u c, e ≠ .callRecord u c) (hs : s.step e = some s') : s'.Fresh := by
  cases e with
  | callRecord u c => exact absurd rfl (hrec u c)
  | stepRecord i =>
    obtain ⟨r, hr, -⟩ := Option.map_eq_some_iff.1 hs
    rw [h.records] at hr
    cases hr
  | callCheck u cands =>
    obtain rfl := Option.some.inj hs
    refine ⟨⟨h.backed.owned, h.backed.cached⟩, fun ck hck => ?_, h.records⟩
    rcases List.mem_append.1 hck with hck | hck
    · exact ⟨(h.checks ck hck).held, (h.checks ck hck).pending⟩
    · obtain rfl := List.mem_singleton.1 hck
      exact .of_idle rfl rfl
  | stepCheck i =>
    obtain ⟨ck, hi, rfl⟩ := Option.map_eq_some_iff.1 hs
    obtain ⟨hb, hext, hnew⟩ := stepCheck_backed h.backed (h.checks ck (List.mem_of_getElem? hi))
    refine ⟨⟨hb.owned, hb.cached⟩, fun ck' hck' => ?_, hext.records.trans h.records⟩
    rcases List.mem_or_eq_of_mem_set hck' with hck' | rfl
    · have := (h.checks ck' (hext.checks ▸ hck')).extend hext
      exact ⟨this.held, this.pending⟩
    · exact ⟨hnew.held, hnew.pending⟩
  | skipFallback i =>
    simp only [CapSystem.step] at hs
    split at hs
    · obtain rfl := Option.some.inj hs
      refine ⟨⟨h.backed.owned, h.backed.cached⟩, fun ck hck => ?_, h.records⟩
      rcases List.mem_or_eq_of_mem_set hck with hck | rfl
      · exact ⟨(h.checks ck hck).held, (h.checks ck hck).pending⟩
      · exact .of_idle rfl rfl
    · cases hs
  | evict u => exact h.evict hs
  | flush k =>
    obtain ⟨ev, -, rfl⟩ := Option.map_eq_some_iff.1 hs
    exact h.of_frame rfl rfl rfl rfl rfl
  | drain =>
    obtain ⟨r, -, rfl⟩ := Option.map_eq_some_iff.1 hs
    by_cases hday : r.1.window = .Day
    · simp only [hday, if_true]
      exact h.of_frame rfl rfl rfl rfl rfl
    · simp only [hday, if_false]
      exact h.of_frame rfl rfl rfl rfl rfl
  | win event =>
    obtain rfl := Option.some.inj hs
    exact h.of_frame rfl rfl rfl rfl rfl
  | take =>
    obtain ⟨r, -, rfl⟩ := Option.map_eq_some_iff.1 hs
    exact h.of_frame rfl rfl rfl rfl rfl
  | write k => exact h.write hok hs

theorem fresh_run {cap : ℕ} {redis : String → Option ℤ} {evs : List CapEvent}
    (h : Lib.Run (· = init cap redis) (Lib.Guarded WritesUncached (Lib.Steps CapSystem.step)) evs s)
    (hrec : ∀ u c, .callRecord u c ∉ evs) : s.Fresh := by
  induction h with
  | nil h0 =>
    subst h0
    exact ⟨⟨nofun, nofun⟩, nofun, rfl⟩
  | @snoc evs s e s' _ hs ih =>
    have hs' := ih fun u c hmem => hrec u c (List.mem_append_left _ hmem)
    refine hs'.step hs.1 (fun u c he => hrec u c ?_) hs.2
    simp [he]

end CapSystem

namespace InProcessFrequencyCapper

/-- Patching the results of distinct candidates with the result of one of them. -/
theorem patch_map {f g : AdCandidate → CapResult} (hf : ∀ x, (f x).campaignId = x.campaignId)
    (hg : ∀ x, (g x).campaignId = x.campaignId) {cands : List AdCandidate} (hd : Distinct cands)
    {c : AdCandidate} (hc : c ∈ cands) :
    patch (g c) (cands.map f) =
      cands.map fun x => if x.campaignId = c.campaignId then g x else f x := by
  induction cands with
  | nil => cases hc
  | cons x cands ih =>
    obtain ⟨hx, hd'⟩ := List.nodup_cons.1 hd
    rw [List.map_cons, patch, hf, hg, List.map_cons]
    rcases List.mem_cons.1 hc with rfl | hc
    · -- the first slot is the candidate's own, and no later one has its campaign
      have hrest : cands.map f =
          cands.map fun x => if x.campaignId = c.campaignId then g x else f x := by
        apply List.map_congr_left
        intro y hy
        rw [if_neg fun h => hx (List.mem_map.2 ⟨y, hy, h⟩)]
      have hslot : (⟨c.campaignId, (g c).capped, (g c).dayCount, (g c).hourCount⟩ : CapResult) =
          g c := by rw [← hg c]
      rw [if_pos rfl, if_pos rfl, hrest, hslot]
    · have hne : x.campaignId ≠ c.campaignId := fun h => hx (List.mem_map.2 ⟨c, hc, h.symm⟩)
      rw [if_neg hne, if_neg hne, ih hd' hc]

theorem foldl_patch_map {f g : AdCandidate → CapResult}
    (hf : ∀ x, (f x).campaignId = x.campaignId) (hg : ∀ x, (g x).campaignId = x.campaignId)
    {cands cold : List AdCandidate} (hd : Distinct cands) (hsub : ∀ c ∈ cold, c ∈ cands) :
    (cold.map g).foldl (fun rs fb => patch fb rs) (cands.map f) =
      cands.map fun x => if x.campaignId ∈ cold.map (·.campaignId) then g x else f x := by
  induction cold generalizing f with
  | nil => simp
  | cons c cold ih =>
    obtain ⟨hc, hsub⟩ := List.forall_mem_cons.1 hsub
    have hf' : ∀ x : AdCandidate,
        (if x.campaignId = c.campaignId then g x else f x).campaignId = x.campaignId := by
      intro x
      split_ifs
      · exact hg x
      · exact hf x
    rw [List.map_cons, List.foldl_cons, patch_map hf hg hd hc, ih hf' hsub]
    apply List.map_congr_left
    intro x _
    by_cases hx : x.campaignId = c.campaignId <;> simp [hx]

/-- What a check over the Redis capper returns, candidate by candidate. -/
theorem check_eq (lookup : CampaignId → Option (ℤ × ℤ)) (redis : String → Option ℤ) (u : String)
    {cands : List AdCandidate} (hd : Distinct cands) :
    check lookup (RedisFrequencyCapper.check redis u) cands =
      .Checked (cands.map fun c => (lookup c.campaignId).elim
        (RedisFrequencyCapper.verdict redis u c) fun v => capVerdict c v.1 v.2) := by
  have hf : ∀ x : AdCandidate, (lookupResult (lookup x.campaignId) x).campaignId = x.campaignId := by
    intro x
    unfold lookupResult
    split <;> rfl
  simp only [check, RedisFrequencyCapper.check_eq]
  split_ifs with hcold
  · congr 1
    apply List.map_congr_left
    intro c hc
    have hhit : (lookup c.campaignId).isNone = false := by
      by_contra hcon
      have hmem : c ∈ cands.filter fun c => (lookup c.campaignId).isNone :=
        List.mem_filter.2 ⟨hc, by simpa using hcon⟩
      rw [List.isEmpty_iff.1 hcold] at hmem
      cases hmem
    cases hl : lookup c.campaignId with
    | none => simp [hl] at hhit
    | some v => rfl
  · rw [foldl_patch_map hf (fun _ => rfl) hd fun c hc => (List.mem_filter.1 hc).1]
    congr 1
    apply List.map_congr_left
    intro c hc
    cases hl : lookup c.campaignId with
    | none =>
      have hmem : c.campaignId ∈
          (cands.filter fun c => (lookup c.campaignId).isNone).map (·.campaignId) :=
        List.mem_map_of_mem (List.mem_filter.2 ⟨hc, by simp [hl]⟩)
      rw [if_pos hmem]
      rfl
    | some v =>
      have hnot : c.campaignId ∉
          (cands.filter fun c => (lookup c.campaignId).isNone).map (·.campaignId) := by
        intro hmem
        obtain ⟨c', hc', hid⟩ := List.mem_map.1 hmem
        have := (List.mem_filter.1 hc').2
        simp [hid, hl] at this
      rw [if_neg hnot]
      rfl

end InProcessFrequencyCapper

namespace CapSystem

/-- The steps of one check with nothing in between. -/
abbrev Alone := Relation.ReflTransGen fun p q : CheckCall × CapSystem => q = p.2.stepCheck p.1

theorem alone_lookups (s : CapSystem) (u : String) (todo : List AdCandidate) (rs : List CapResult)
    (cold : List AdCandidate) :
    Alone (⟨u, rs, cold, .lookups todo⟩, s)
      (⟨u, rs ++ todo.map (fun c => InProcessFrequencyCapper.lookupResult (s.lookup u c.campaignId) c),
        cold ++ todo.filter (fun c => (s.lookup u c.campaignId).isNone), .lookups []⟩, s) := by
  induction todo generalizing rs cold with
  | nil => simpa using .refl
  | cons c todo ih =>
    have hcold : cold ++ (c :: todo).filter (fun c => (s.lookup u c.campaignId).isNone) =
        (if (s.lookup u c.campaignId).isNone then cold ++ [c] else cold) ++
          todo.filter fun c => (s.lookup u c.campaignId).isNone := by
      rw [List.filter_cons]
      split_ifs <;> simp
    rw [List.map_cons, List.append_cons, hcold]
    exact .head rfl (ih _ _)

theorem alone_warming (u : String) (fbs : List CapResult) (rs : List CapResult)
    (cold : List AdCandidate) (s : CapSystem)
    (hfbs : ∀ fb ∈ fbs, fb.dayCount.isSome ∧ fb.hourCount.isSome) :
    ∃ s', Alone (⟨u, rs, cold, .warming fbs none⟩, s)
      (⟨u, fbs.foldl (fun rs fb => InProcessFrequencyCapper.patch fb rs) rs, cold, .returned⟩, s') := by
  induction fbs generalizing rs s with
  | nil => exact ⟨s, .single rfl⟩
  | cons fb fbs ih =>
    obtain ⟨hfb, hfbs⟩ := List.forall_mem_cons.1 hfbs
    obtain ⟨s', hs'⟩ := ih (InProcessFrequencyCapper.patch fb rs)
      ((s.getWith u).2.modifyMap (s.getWith u).1
        (·.warm fb.campaignId (fb.dayCount.getD 0) (fb.hourCount.getD 0))) hfbs
    have hget : s.stepCheck ⟨u, rs, cold, .warming (fb :: fbs) none⟩ =
        (⟨u, rs, cold, .warming (fb :: fbs) (some (s.getWith u).1)⟩, (s.getWith u).2) := if_pos hfb
    exact ⟨s', .head hget.symm (.head rfl hs')⟩

/-- A check that runs by itself returns what `check` says. -/
theorem check_alone (s : CapSystem) (u : String) (cands : List AdCandidate) :
    ∃ rs cold s', s.check u cands = .Checked rs ∧
      Alone (⟨u, [], [], .lookups cands⟩, s) (⟨u, rs, cold, .returned⟩, s') := by
  have hlook := alone_lookups s u cands [] []
  simp only [List.nil_append] at hlook
  simp only [check, InProcessFrequencyCapper.check, RedisFrequencyCapper.check_eq]
  generalize cands.filter (fun c => (s.lookup u c.campaignId).isNone) = cold at *
  generalize cands.map (fun c => InProcessFrequencyCapper.lookupResult
    (s.lookup u c.campaignId) c) = rs at *
  split_ifs with hcold
  · have hend : s.stepCheck ⟨u, rs, cold, .lookups []⟩ = (⟨u, rs, cold, .returned⟩, s) := by
      simp only [stepCheck, hcold, if_true]
    exact ⟨rs, cold, s, rfl, hlook.tail hend.symm⟩
  · have hask : s.stepCheck ⟨u, rs, cold, .lookups []⟩ = (⟨u, rs, cold, .fallback⟩, s) := by
      simp only [stepCheck, hcold, if_false, Bool.false_eq_true]
    have hanswer : s.stepCheck ⟨u, rs, cold, .fallback⟩ =
        (⟨u, rs, cold, .warming (cold.map (RedisFrequencyCapper.verdict s.redis u)) none⟩, s) := by
      simp only [stepCheck, RedisFrequencyCapper.check_eq]
    obtain ⟨s', hs'⟩ := alone_warming u (cold.map (RedisFrequencyCapper.verdict s.redis u)) rs cold s
      (by simp [RedisFrequencyCapper.verdict, capVerdict])
    exact ⟨_, cold, s', rfl, hlook.trans (.head hask.symm (.head hanswer.symm hs'))⟩

/-- As long as counters are written only for users and campaigns that the cache neither
holds nor is about to hold, whoever Redis would cap is capped. -/
theorem inProcess_caps_what_redis_caps {cap : ℕ} {redis : String → Option ℤ} {evs : List CapEvent}
    {s : CapSystem}
    (h : Lib.Run (· = init cap redis) (Lib.Guarded WritesUncached (Lib.Steps step)) evs s)
    (hrec : ∀ u c, .callRecord u c ∉ evs) (u : String) (cands : List AdCandidate)
    (hd : Distinct cands) :
    ∃ mine theirs, s.check u cands = .Checked mine ∧
      RedisFrequencyCapper.check s.redis u cands = .Checked theirs ∧
      List.Forall₂ (fun m t => m.campaignId = t.campaignId ∧ (t.capped = true → m.capped = true))
        mine theirs := by
  refine ⟨_, _, InProcessFrequencyCapper.check_eq _ _ _ hd, RedisFrequencyCapper.check_eq _ _ _, ?_⟩
  rw [List.forall₂_map_left_iff, List.forall₂_map_right_iff, List.forall₂_same]
  intro c _
  cases hl : s.lookup u c.campaignId with
  | none => exact ⟨rfl, id⟩
  | some v =>
    obtain ⟨hday, hhour⟩ := (fresh_run h hrec).backed.cached u c.campaignId v hl
    exact ⟨rfl, capVerdict_mono hday hhour⟩

/-- A candidate with a cap of one impression a day. -/
def oncePerDay : AdCandidate := ⟨7, 1, 100, .fin 0, 1, 10⟩

/-- A win is counted in Redis, and a check reads it into the cache afterwards. -/
theorem inProcess_caps_after_counted_win :
    ∃ evs s, Lib.Run (· = init 8 fun _ => none) (Lib.Guarded WritesUncached (Lib.Steps step)) evs s ∧
      s.lookup "u" 7 = some (1, 1) ∧
      ∃ mine, s.check "u" [oncePerDay] = .Checked mine ∧ ∃ r ∈ mine, r.capped = true := by
  let evs : List CapEvent := [.win ⟨"u", 7, 1, 0, 12⟩, .take, .write 0, .write 0,
    .callCheck "u" [oncePerDay], .stepCheck 0, .stepCheck 0, .stepCheck 0, .stepCheck 0, .stepCheck 0]
  have hend : ∃ s, Lib.Run (· = init 8 fun _ => none)
      (Lib.Steps fun s e => if WritesUncached s e then step s e else none) evs s ∧
      s.lookup "u" 7 = some (1, 1) ∧
      RedisFrequencyCapper.check s.redis "u" [oncePerDay] = .Checked [⟨7, true, some 1, some 1⟩] :=
    Lib.run_of_exec_any (by decide +kernel)
  obtain ⟨s, hrun, hlook, hredis⟩ := hend
  have hrun := hrun.guarded_of_check
  obtain ⟨mine, theirs, hmine, htheirs, hall⟩ :=
    inProcess_caps_what_redis_caps hrun (by simp [evs]) "u" [oncePerDay] (List.nodup_singleton _)
  obtain rfl := FreqCapOutcome.Checked.inj (hredis.symm.trans htheirs)
  refine ⟨evs, s, hrun, hlook, mine, hmine, ?_⟩
  cases hall with
  | cons h _ => exact ⟨_, List.mem_cons_self, h.2 rfl⟩

/-- A check caches the counts, then a win is counted in Redis: with every queue drained,
Redis would cap the candidate and the in-process capper lets it through. -/
theorem cached_count_misses_win :
    ∃ evs s, (∀ u c, .callRecord u c ∉ evs) ∧ (∀ i, .skipFallback i ∉ evs) ∧
      Reached 8 (fun _ => none) evs s ∧ s.writes.dropped = 0 ∧ s.recorder.dropped = 0 ∧
      s.writes.items = [] ∧ s.recorder.items = [] ∧ s.workers = [] ∧ s.evicted = [] ∧
      RedisFrequencyCapper.check s.redis "u" [oncePerDay] = .Checked [⟨7, true, some 1, some 1⟩] ∧
      s.check "u" [oncePerDay] = .Checked [⟨7, false, some 0, some 0⟩] := by
  let evs : List CapEvent := [.callCheck "u" [oncePerDay], .stepCheck 0, .stepCheck 0, .stepCheck 0,
    .stepCheck 0, .stepCheck 0, .stepCheck 0, .win ⟨"u", 7, 1, 0, 12⟩, .take, .write 0, .write 0]
  obtain ⟨s, hs⟩ := Lib.run_of_exec_any (P := fun s : CapSystem => s.writes.dropped = 0 ∧
    s.recorder.dropped = 0 ∧ s.writes.items = [] ∧ s.recorder.items = [] ∧ s.workers = [] ∧
    s.evicted = [] ∧
    RedisFrequencyCapper.check s.redis "u" [oncePerDay] = .Checked [⟨7, true, some 1, some 1⟩] ∧
    s.check "u" [oncePerDay] = .Checked [⟨7, false, some 0, some 0⟩])
    (show (Lib.exec step (init 8 fun _ => none) evs).any _ = true by decide +kernel)
  exact ⟨evs, s, by simp [evs], by simp [evs], hs⟩

end CapSystem

end RTB
