import RtbBidder.Proofs.Retrieval

/-! What a device or format row with an unknown type does: `build` skips it, so that a campaign
with no other rows counts as one without rows. Campaigns are taken by their `u32` ids, as the
catalog has them. -/

namespace RTB

section Dimension

variable {κ : Type} {parse : String → Option κ} {rows : List (String × List Int64)}
  {c : CampaignId} {all : RoaringBitmap}

/-- Some row names the campaign. -/
def NamedIn (rows : List (String × List Int64)) (c : CampaignId) : Prop :=
  ∃ r ∈ rows, c ∈ r.2.map castU32

/-- Some row of the type `k` names the campaign. -/
def TargetsIn (parse : String → Option κ) (rows : List (String × List Int64)) (k : κ)
    (c : CampaignId) : Prop :=
  ∃ r ∈ rows, parse r.1 = some k ∧ c ∈ r.2.map castU32

theorem mem_parsedRows_iff_targetsIn (k : κ) :
    (∃ r ∈ parsedRows parse rows, r.1 = k ∧ c ∈ r.2) ↔ TargetsIn parse rows k c := by
  simp only [mem_parsedRows_cast, bitmapOf, Lib.SortedSet.mem_ofList, TargetsIn]

/-- Only the rows whose type parses restrict a campaign. -/
theorem mem_unrestricted_iff : c ∈ unrestricted all (parsedRows parse rows) ↔
    c ∈ all ∧ ∀ k, ¬ TargetsIn parse rows k c := by
  rw [unrestricted, Lib.SortedSet.mem_diff, Lib.mem_foldl_union]
  simp only [Lib.SortedSet.notMem_empty, false_or, ← mem_parsedRows_iff_targetsIn]
  refine and_congr_right fun _ => ⟨?_, ?_⟩
  · rintro hno k ⟨r, hr, -, hmem⟩
    exact hno ⟨r, hr, hmem⟩
  · rintro hno ⟨r, hr, hmem⟩
    exact hno r.1 ⟨r, hr, rfl, hmem⟩

theorem mem_posted_iff [DecidableEq κ] (k : κ) :
    c ∈ Lib.posted (mergedIndex (parsedRows parse rows)) k ↔ TargetsIn parse rows k c :=
  (Lib.mem_posted_mergeRows _ _ _).trans (mem_parsedRows_iff_targetsIn k)

theorem eligible_cases [DecidableEq κ] {k : κ} (h : c ∈ unrestricted all (parsedRows parse rows) ∨
      c ∈ Lib.posted (mergedIndex (parsedRows parse rows)) k) :
    TargetsIn parse rows k c ∨ c ∈ all ∧ ∀ k, ¬ TargetsIn parse rows k c := by
  rwa [mem_unrestricted_iff, mem_posted_iff, or_comm] at h

/-- Targeting by one dimension, `Cand k c` saying that `c` is a candidate for some request of
type `k`: a campaign is let through where a row of its own says so, and everywhere if no
row of its own parses. -/
theorem never_widens_iff {Cand : κ → CampaignId → Prop} {Serves : CampaignId → Prop} (k₀ : κ)
    (hsound : ∀ k c, Cand k c →
      TargetsIn parse rows k c ∨ Serves c ∧ ∀ k, ¬ TargetsIn parse rows k c)
    (hopen : ∀ k c, Serves c → (∀ k, ¬ TargetsIn parse rows k c) → Cand k c) :
    (∀ k c, Cand k c → NamedIn rows c → TargetsIn parse rows k c) ↔
      ∀ c, Serves c → NamedIn rows c → ∃ k, TargetsIn parse rows k c := by
  constructor
  · intro h c hserves hnamed
    by_contra hno
    exact not_exists.1 hno k₀ (h k₀ c (hopen k₀ c hserves (not_exists.1 hno)) hnamed)
  · intro h k c hcand hnamed
    rcases hsound k c hcand with htargets | ⟨hserves, hno⟩
    · exact htargets
    · obtain ⟨k', hk'⟩ := h c hserves hnamed
      exact absurd hk' (hno k')

end Dimension

/-- The campaign was loaded and may serve at this hour. -/
def Servable (q : CatalogRows) (c : CampaignId) : Prop :=
  c ∈ q.campaigns.map (fun row => castU32 row.id) ∧ (q.daypart = [] ∨ c ∈ q.daypart.map castU32)

variable {q : CatalogRows} {c : CampaignId}

theorem mem_allCampaigns_iff :
    c ∈ (build q).allCampaigns ↔ c ∈ q.campaigns.map fun row => castU32 row.id := by
  have hall : (build q).allCampaigns = .ofList ((q.campaigns.map (·.id)).map castU32) := rfl
  rw [hall, Lib.SortedSet.mem_ofList, List.map_map]
  rfl

theorem daypart_iff :
    ((build q).daypartActiveNow.isEmpty = true ∨ c ∈ (build q).daypartActiveNow) ↔
      (q.daypart = [] ∨ c ∈ q.daypart.map castU32) := by
  have hdaypart : (build q).daypartActiveNow = bitmapOf q.daypart := rfl
  rw [hdaypart, bitmapOf_isEmpty, bitmapOf, Lib.SortedSet.mem_ofList]

theorem servable_iff : Servable q c ↔ c ∈ (build q).allCampaigns ∧
    ((build q).daypartActiveNow.isEmpty = true ∨ c ∈ (build q).daypartActiveNow) := by
  rw [mem_allCampaigns_iff, daypart_iff, Servable]

theorem device_open (hs : Servable q c) (hno : ∀ d, ¬ TargetsIn parseDeviceType q.deviceIdx d c)
    (d : DeviceTargetType) : c ∈ (build q).candidatesFor ⟨[], none, some d, none⟩ := by
  obtain ⟨hall, hdaypart⟩ := servable_iff.1 hs
  refine (mem_candidatesFor _ hall).2 ⟨.inl rfl, .inl rfl, ?_, nofun, hdaypart⟩
  exact fun _ _ => .inl (mem_unrestricted_iff.2 ⟨hall, hno⟩)

theorem format_open (hs : Servable q c) (hno : ∀ f, ¬ TargetsIn parseAdFormat q.formatIdx f c)
    (f : AdFormat) : c ∈ (build q).candidatesFor ⟨[], none, none, some f⟩ := by
  obtain ⟨hall, hdaypart⟩ := servable_iff.1 hs
  refine (mem_candidatesFor _ hall).2 ⟨.inl rfl, .inl rfl, nofun, ?_, hdaypart⟩
  exact fun _ _ => .inl (mem_unrestricted_iff.2 ⟨hall, hno⟩)

theorem unknown_types_never_widen_iff (q : CatalogRows) :
    ((∀ d c, (∃ req, req.deviceType = some d ∧ c ∈ (build q).candidatesFor req) →
        NamedIn q.deviceIdx c → TargetsIn parseDeviceType q.deviceIdx d c) ∧
      ∀ f c, (∃ req, req.adFormat = some f ∧ c ∈ (build q).candidatesFor req) →
        NamedIn q.formatIdx c → TargetsIn parseAdFormat q.formatIdx f c) ↔
    (∀ c, Servable q c → NamedIn q.deviceIdx c →
        ∃ d, TargetsIn parseDeviceType q.deviceIdx d c) ∧
      ∀ c, Servable q c → NamedIn q.formatIdx c → ∃ f, TargetsIn parseAdFormat q.formatIdx f c := by
  refine and_congr (never_widens_iff .Other ?_ ?_) (never_widens_iff .Banner ?_ ?_)
  · rintro d c ⟨req, hreq, hc⟩
    have hpasses := passes_of_mem_candidatesFor hc
    exact (eligible_cases (hpasses.device d hreq)).imp_right
      fun ⟨hall, hno⟩ => ⟨servable_iff.2 ⟨hall, hpasses.daypart⟩, hno⟩
  · exact fun d c hs hno => ⟨_, rfl, device_open hs hno d⟩
  · rintro f c ⟨req, hreq, hc⟩
    have hpasses := passes_of_mem_candidatesFor hc
    exact (eligible_cases (hpasses.format f hreq)).imp_right
      fun ⟨hall, hno⟩ => ⟨servable_iff.2 ⟨hall, hpasses.daypart⟩, hno⟩
  · exact fun f c hs hno => ⟨_, rfl, format_open hs hno f⟩

/-- Campaign 1 has one device row, of a type that the binary does not know. -/
def watchRows : CatalogRows where
  campaigns := [sampleCampaign 1 100]
  creatives := []
  segIdx := []
  geoIdx := []
  deviceIdx := [("WATCH", [1])]
  formatIdx := []
  daypart := []

theorem unknown_device_row_serves_desktop :
    NamedIn watchRows.deviceIdx 1 ∧
    1 ∈ (build watchRows).candidatesFor ⟨[], none, some .Desktop, none⟩ ∧
    ¬ ∃ r ∈ watchRows.deviceIdx, parseDeviceType r.1 = some .Desktop :=
  ⟨⟨("WATCH", [1]), List.mem_singleton_self _, by decide⟩, by decide +kernel, by decide⟩

end RTB
