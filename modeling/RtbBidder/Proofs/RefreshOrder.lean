import RtbBidder.Proofs.PipelineRun
import RtbBidder.Spec.Refresh

/-! Each catalog is seeded before it is published, and no operation takes an entry out
of the pacer's map, so the entries cover every catalog a request can hold. -/

namespace RTB

namespace LocalBudgetPacer

/-- No entry of the first map is missing from the second. -/
def Grows (p p' : LocalBudgetPacer) : Prop :=
  ∀ id, (p.counters id).isSome → (p'.counters id).isSome

theorem fetchSub_isSome (p : LocalBudgetPacer) (id c : CampaignId) (x : Int64) :
    ((p.fetchSub id x).counters c).isSome = (p.counters c).isSome := by
  by_cases h : c = id
  · subst h
    simp
  · rw [fetchSub_counters_ne p x h]

theorem fetchAdd_isSome (p : LocalBudgetPacer) (id c : CampaignId) (x : Int64) :
    ((p.fetchAdd id x).counters c).isSome = (p.counters c).isSome := by
  by_cases h : c = id
  · subst h
    simp
  · rw [fetchAdd_counters_ne p x h]

theorem reload_isSome (p : LocalBudgetPacer) (budgets : List (CampaignId × Int64))
    (c : CampaignId) :
    ((p.reload budgets).counters c).isSome ↔
      c ∈ budgets.map Prod.fst ∨ (p.counters c).isSome := by
  induction budgets generalizing p with
  | nil => simp [reload]
  | cons b bs ih =>
    rw [reload, List.foldl_cons, ← reload, ih]
    by_cases hc : c = b.1
    · subst hc
      simp [store]
    · simp [store, hc]

/-- The map has an entry for each campaign of the catalog. -/
def Covers (p : LocalBudgetPacer) (cat : CampaignCatalog) : Prop :=
  ∀ id, (cat.campaign id).isSome → (p.counters id).isSome

variable {p p' : LocalBudgetPacer} {cat : CampaignCatalog}

theorem Covers.mono (h : p.Covers cat) (hg : p.Grows p') : p'.Covers cat :=
  fun id hid => hg id (h id hid)

theorem grows_reload (p : LocalBudgetPacer) (budgets : List (CampaignId × Int64)) :
    p.Grows (p.reload budgets) :=
  fun c hc => (p.reload_isSome budgets c).2 (.inr hc)

theorem covers_reload (p : LocalBudgetPacer) (cat : CampaignCatalog) :
    (p.reload cat.budgetSeeds).Covers cat := by
  intro id hid
  rw [reload_isSome]
  left
  have hmem : id ∈ cat.campaigns := AList.lookup_isSome.1 hid
  simpa [CampaignCatalog.budgetSeeds, List.map_map, AList.mem_keys, AList.keys, List.keys]
    using hmem

end LocalBudgetPacer

open LocalBudgetPacer

namespace RefreshSystem

variable {evs : List RefreshEvent} {s s' : RefreshSystem}

/-- The catalog that is published next, once the pacer has been reloaded for it. -/
def pending (s : RefreshSystem) : Option CampaignCatalog :=
  match s.loader with
  | .startPublish b | .storeCatalog b => some b.catalog
  | _ => none

structure Seeded (s : RefreshSystem) : Prop where
  catalog : ∀ cat ∈ s.catalog, s.pacer.Covers cat
  pending : ∀ cat ∈ s.pending, s.pacer.Covers cat
  held : ∀ cat ∈ s.held, s.pacer.Covers cat
  missing : s.missingKey = 0

theorem Seeded.init : init.Seeded := by
  constructor <;> simp [RefreshSystem.init, RefreshSystem.pending]

/-- Operations that take no entry away keep every catalog covered. -/
theorem Seeded.grow (h : s.Seeded) {p : LocalBudgetPacer} (hg : s.pacer.Grows p) :
    { s with pacer := p }.Seeded where
  catalog cat hcat := (h.catalog cat hcat).mono hg
  pending cat hcat := (h.pending cat hcat).mono hg
  held cat hcat := (h.held cat hcat).mono hg
  missing := h.missing

theorem Seeded.onBuilt {result : Except String (CatalogRows × List (Int32 × String))}
    (h : s.Seeded) (hs : s.onBuilt result = some s') : s'.Seeded := by
  unfold RefreshSystem.onBuilt at hs
  split at hs <;> cases hs
  all_goals exact ⟨h.catalog, by simp [RefreshSystem.pending], h.held, h.missing⟩

theorem Seeded.advance (h : s.Seeded) (hs : s.advance = some s') : s'.Seeded := by
  unfold RefreshSystem.advance at hs
  split at hs
  case h_1 b hb | h_3 b hb =>
    -- the pacer is reloaded with the budgets of the catalog that is published next
    cases hs
    have hgrown := h.grow (s.pacer.grows_reload b.catalog.budgetSeeds)
    refine ⟨hgrown.catalog, ?_, hgrown.held, hgrown.missing⟩
    simpa [RefreshSystem.pending] using covers_reload s.pacer b.catalog
  case h_2 b hb | h_4 b hb =>
    cases hs
    have hcov : s.pacer.Covers b.catalog := h.pending _ (by simp [RefreshSystem.pending, hb])
    refine ⟨?_, by simp [RefreshSystem.pending], h.held, h.missing⟩
    simpa using hcov
  case h_5 r hr =>
    cases hs
    exact ⟨h.catalog, by simp [RefreshSystem.pending], h.held, h.missing⟩
  case h_6 => cases hs

theorem Seeded.step {e : RefreshEvent} (h : s.Seeded) (hs : step s e = some s') : s'.Seeded := by
  cases e with
  | build result => exact h.onBuilt hs
  | advance => exact h.advance hs
  | loadFull =>
    obtain ⟨cat, hcat, rfl⟩ := Option.map_eq_some_iff.1 hs
    refine ⟨h.catalog, h.pending, ?_, h.missing⟩
    intro cat' hcat'
    rcases List.mem_append.1 hcat' with hold | hnew
    · exact h.held cat' hold
    · obtain rfl := List.mem_singleton.1 hnew
      exact h.catalog _ hcat
  | finish i =>
    obtain ⟨-, heq⟩ := Option.ite_none_right_eq_some.1 hs
    obtain rfl := Option.some.inj heq
    exact ⟨h.catalog, h.pending, fun cat hcat => h.held cat (List.mem_of_mem_eraseIdx hcat),
      h.missing⟩
  | reserve i id bid =>
    obtain ⟨hsome, heq⟩ := Option.ite_none_right_eq_some.1 hs
    obtain rfl := Option.some.inj heq
    obtain ⟨campaign, hbind⟩ := Option.isSome_iff_exists.1 hsome
    obtain ⟨cat, hcat, hcampaign⟩ := Option.bind_eq_some_iff.1 hbind
    have hentry : (s.pacer.counters id).isSome :=
      h.held cat (List.mem_of_getElem? hcat) id (by simp [hcampaign])
    have hgrown := h.grow (p := s.pacer.fetchSub id bid.toInt64)
      fun c hc => (fetchSub_isSome ..).trans hc
    refine ⟨hgrown.catalog, hgrown.pending, hgrown.held, ?_⟩
    have hnone : ¬ (s.pacer.counters id).isNone := by simpa [Option.ne_none_iff_isSome] using hentry
    exact (if_neg hnone).trans h.missing
  | giveBack id bid =>
    cases hs
    exact h.grow fun c hc => (fetchAdd_isSome ..).trans hc

theorem seeded_of_reached (h : Reached evs s) : s.Seeded := by
  refine h.inv (I := Seeded) ?_ fun s e s' hs hstep => hs.step hstep
  rintro s rfl
  exact .init

/-- A failed build changes neither `ArcSwap` nor a budget. -/
theorem onBuilt_error {error : String} (hs : s.onBuilt (.error error) = some s') :
    s'.catalog = s.catalog ∧ s'.registry = s.registry ∧ s'.pacer = s.pacer ∧
      s'.held = s.held := by
  unfold onBuilt at hs
  split at hs <;> cases hs <;> simp

/-- In every reachable state each campaign of the published catalog and of every snapshot
held has a budget entry, so no candidate of a request lacks one and none was refused for
it, and a failed build leaves what is published and the budgets as they are. -/
theorem snapshots_seeded (h : Reached evs s) :
    (∀ cat, s.catalog = some cat ∨ cat ∈ s.held →
      ∀ id, (cat.campaign id).isSome → (s.pacer.counters id).isSome) ∧
    (∀ cat ∈ s.held, ∀ req segs imp, ∀ c ∈ retrieve cat req segs imp,
      (s.pacer.counters c.campaignId).isSome) ∧
    s.missingKey = 0 ∧
    ∀ error s', step s (.build (.error error)) = some s' →
      s'.catalog = s.catalog ∧ s'.registry = s.registry ∧ s'.pacer = s.pacer ∧
        s'.held = s.held := by
  have hs := seeded_of_reached h
  refine ⟨?_, ?_, hs.missing, fun error s' hstep => onBuilt_error hstep⟩
  · rintro cat (hcat | hcat)
    · exact hs.catalog cat hcat
    · exact hs.held cat hcat
  · intro cat hcat req segs imp c hc
    obtain ⟨-, campaign, hret⟩ := mem_retrieve hc
    exact hs.held cat hcat c.campaignId (by simp [hret.campaign_eq])

/-- The rows of a catalog of the given campaigns, each with a budget of 100 cents. -/
def campaignsOnly (ids : List Int64) : CatalogRows where
  campaigns := ids.map fun id => ⟨id, 0, 100, 0, 0, by decide, by decide⟩
  creatives := []
  segIdx := []
  geoIdx := []
  deviceIdx := []
  formatIdx := []
  daypart := []

/-- A request still holds the catalog of campaign 1 after a refresh has published that of
campaign 2, and reserves for it after the next build has failed. -/
def outlived : List RefreshEvent :=
  [.build (.ok (campaignsOnly [1], [])), .advance, .advance, .loadFull,
   .build (.ok (campaignsOnly [2], [])), .advance, .advance, .advance,
   .build (.error "pool timed out"), .reserve 0 1 30]

theorem snapshots_seeded_outlived :
    ∃ s, Reached outlived s ∧ s.pacer.counters 1 = some 70 ∧ s.missingKey = 0 ∧
      (∃ cat ∈ s.held, (cat.campaign 1).isSome) ∧ s.catalog.all (fun cat => (cat.campaign 1).isNone) = true ∧
      ∀ cat, s.catalog = some cat ∨ cat ∈ s.held →
        ∀ id, (cat.campaign id).isSome → (s.pacer.counters id).isSome := by
  obtain ⟨s, hrun, hbudget, hheld, hcat⟩ := Lib.run_of_exec_any
    (P := fun s => s.pacer.counters 1 = some 70 ∧ (∃ cat ∈ s.held, (cat.campaign 1).isSome) ∧
      s.catalog.all (fun cat => (cat.campaign 1).isNone) = true)
    (show (Lib.exec step init outlived).any _ = true by decide +kernel)
  obtain ⟨hcovered, -, hmissing, -⟩ := snapshots_seeded hrun
  exact ⟨s, hrun, hbudget, hmissing, hheld, hcat, hcovered⟩

end RefreshSystem

end RTB
