import RtbBidder.Proofs.Retrieval

/-! How far a campaign's candidacy depends on the rows of other campaigns. It is
decided by the campaign's own rows, except for the daypart index: that one is
skipped when no active campaign at all is on at the hour. -/

namespace RTB

@[simp] theorem parseDeviceType_text (d : DeviceTargetType) :
    parseDeviceType d.text = some d := by cases d <;> rfl

@[simp] theorem parseAdFormat_text (f : AdFormat) : parseAdFormat f.text = some f := by
  cases f <;> rfl

theorem GeoKind.text_inj {a b : GeoKind} (h : a.text = b.text) : a = b := by
  cases a <;> cases b <;> simp_all [GeoKind.text]

namespace Tables

variable {t t' : Tables} {c : Int64} {hour : Fin 168}

/-- The campaign ids fit the `u32` of the indices. -/
def IdsFit (t : Tables) : Prop := ∀ r ∈ t.campaign, FitsU32 r.1.id

theorem IdsFit.of_isActive (h : t.IdsFit) (hc : t.isActive c = true) : FitsU32 c := by
  obtain ⟨r, hr, he⟩ := List.any_eq_true.1 hc
  have hid : r.1.id = c := by simp at he; exact he.1
  exact hid ▸ h r hr

section Groups

variable {κ : Type} [DecidableEq κ] {rows : List (Int64 × κ)}

/-- The ids grouped under a key are those of its rows. -/
theorem mem_groupIds {r : κ × List Int64} (hr : r ∈ groupIds rows) {id : Int64} :
    id ∈ r.2 ↔ (id, r.1) ∈ rows := by
  obtain ⟨k, -, rfl⟩ := List.mem_map.1 hr
  simp

theorem exists_groupIds {P : κ → Prop} {id : Int64} :
    (∃ r ∈ groupIds rows, P r.1 ∧ id ∈ r.2) ↔ ∃ k, P k ∧ (id, k) ∈ rows := by
  refine ⟨fun ⟨r, hr, hp, hid⟩ => ⟨r.1, hp, (mem_groupIds hr).1 hid⟩, fun ⟨k, hp, hk⟩ => ?_⟩
  have hr : (k, ((rows.filter (·.2 = k)).map Prod.fst).insertionSort (· ≤ ·)) ∈ groupIds rows :=
    List.mem_map.2 ⟨k, List.mem_dedup.2 (List.mem_map_of_mem hk), rfl⟩
  exact ⟨_, hr, hp, (mem_groupIds hr).2 hk⟩

theorem groupIds_keys : ((groupIds rows).map Prod.fst).Nodup := by
  simp only [groupIds, List.map_map, Function.comp_def, List.map_id']
  exact List.nodup_dedup _

theorem groupIds_fit (h : t.IdsFit) {r : κ × List Int64} (hr : r ∈ groupIds (t.joinActive rows))
    {id : Int64} (hid : id ∈ r.2) : FitsU32 id :=
  h.of_isActive (List.mem_filter.1 ((mem_groupIds hr).1 hid)).2

end Groups

theorem queries_valid (h : t.IdsFit) (hour : Fin 168) : (t.queries hour).Valid where
  distinct := by
    have hsub : (((t.campaign.filter (·.2 = .active)).map Prod.fst).map (·.id)).Sublist
        (t.campaign.map (·.1.id)) := by
      rw [List.map_map]
      exact List.filter_sublist.map _
    exact t.campaign_pk.sublist hsub
  fits := by
    intro row hrow
    obtain ⟨r, hr, rfl⟩ := List.mem_map.1 hrow
    exact h r (List.mem_filter.1 hr).1
  creatives_fit := by
    intro cr hcr
    obtain ⟨r, hr, rfl⟩ := List.mem_map.1 hcr
    exact h.of_isActive (List.mem_filter.1 hr).2
  seg_fit := fun r hr id hid => groupIds_fit h hr hid
  geo_fit := by
    intro r hr id hid
    obtain ⟨g, hg, rfl⟩ := List.mem_map.1 hr
    exact groupIds_fit h hg hid
  device_fit := by
    intro r hr id hid
    obtain ⟨g, hg, rfl⟩ := List.mem_map.1 hr
    exact groupIds_fit h hg hid
  format_fit := by
    intro r hr id hid
    obtain ⟨g, hg, rfl⟩ := List.mem_map.1 hr
    exact groupIds_fit h hg hid
  daypart_fit := by
    intro id hid
    obtain ⟨r, hr, rfl⟩ := List.mem_map.1 hid
    exact h.of_isActive (List.mem_filter.1 (List.mem_filter.1 hr).1).2
  seg_keys := groupIds_keys
  geo_keys := by
    have hinj : Function.Injective fun k : GeoKind × String => (k.1.text, k.2) := by
      intro a b hab
      obtain ⟨h1, h2⟩ := Prod.ext_iff.1 hab
      exact Prod.ext (GeoKind.text_inj h1) h2
    have hkeys : ((groupIds (t.joinActive t.targetingGeo)).map Prod.fst).Nodup := groupIds_keys
    simpa [queries, List.map_map, Function.comp_def] using hkeys.map hinj
  geo_kinds := by
    intro r hr
    obtain ⟨⟨⟨_ | _, code⟩, ids⟩, -, rfl⟩ := List.mem_map.1 hr
    · exact .inl rfl
    · exact .inr rfl
  devices := by
    intro r hr
    obtain ⟨g, -, rfl⟩ := List.mem_map.1 hr
    simp
  formats := by
    intro r hr
    obtain ⟨g, -, rfl⟩ := List.mem_map.1 hr
    simp
  creative_formats := by
    intro cr hcr
    obtain ⟨r, -, rfl⟩ := List.mem_map.1 hcr
    simp

section OwnRows

variable {segs : List SegmentId} {req : BidRequest} {imp : Imp}

theorem openTo_groupIds {κ : Type} [DecidableEq κ] {parse : String → Option κ} {text : κ → String}
    (hparse : ∀ k, parse (text k) = some k) (hc : t.isActive c = true) (rows : List (Int64 × κ))
    (k : κ) :
    OpenTo parse ((groupIds (t.joinActive rows)).map fun r => (text r.1, r.2)) k c ↔
      (∀ k', (c, k') ∉ rows) ∨ (c, k) ∈ rows := by
  have hnamed : ∀ P : κ → Prop, (∃ r ∈ groupIds (t.joinActive rows), P r.1 ∧ c ∈ r.2) ↔
      ∃ k, P k ∧ (c, k) ∈ rows := by
    intro P
    rw [exists_groupIds]
    simp [joinActive, hc]
  refine or_congr ?_ ?_
  · have := not_congr (hnamed fun _ => True)
    rw [List.forall_mem_map]
    simpa using this
  · have := hnamed (· = k)
    simpa [hparse] using this

theorem exists_geoIdx (hc : t.isActive c = true) (keys : List GeoKey) :
    (∃ r ∈ (t.queries hour).geoIdx,
      (∃ k ∈ keys, r.1 = k.kind.text ∧ r.2.1 = k.code) ∧ c ∈ r.2.2) ↔
      ∃ k ∈ keys, (c, k.kind, k.code) ∈ t.targetingGeo := by
  let named (g : GeoKind × String) : Prop := ∃ k ∈ keys, g.1.text = k.kind.text ∧ g.2 = k.code
  have hnamed : (∃ r ∈ groupIds (t.joinActive t.targetingGeo), named r.1 ∧ c ∈ r.2) ↔
      ∃ g, named g ∧ (c, g) ∈ t.joinActive t.targetingGeo := exists_groupIds
  refine Iff.trans ⟨?_, ?_⟩ (hnamed.trans ⟨?_, ?_⟩)
  · intro ⟨r, hr, hk, hid⟩
    obtain ⟨g, hg, rfl⟩ := List.mem_map.1 hr
    exact ⟨g, hg, hk, hid⟩
  · intro ⟨g, hg, hk, hid⟩
    exact ⟨_, List.mem_map_of_mem hg, hk, hid⟩
  · intro ⟨g, ⟨k, hk, h1, h2⟩, hg⟩
    obtain rfl : g = (k.kind, k.code) := Prod.ext (GeoKind.text_inj h1) h2
    exact ⟨k, hk, (List.mem_filter.1 hg).1⟩
  · intro ⟨k, hk, hrow⟩
    exact ⟨(k.kind, k.code), ⟨k, hk, rfl, rfl⟩, List.mem_filter.2 ⟨hrow, hc⟩⟩

/-- What the query results say of an active campaign, in terms of its own rows
and of the daypart index being empty or not. -/
theorem eligible_queries (hc : t.isActive c = true) :
    Eligible (t.queries hour) segs req imp c ↔
      (segs = [] ∨ ∃ s, s.toUInt32 ∈ segs ∧ (c, s) ∈ t.targetingSegment) ∧
      ((geoKeys req).getD [] = [] ∨
        ∃ k ∈ (geoKeys req).getD [], (c, k.kind, k.code) ∈ t.targetingGeo) ∧
      (∀ d ∈ deviceType req, (∀ k, (c, k) ∉ t.targetingDevice) ∨ (c, d) ∈ t.targetingDevice) ∧
      (∀ f ∈ impAdFormat imp, (∀ k, (c, k) ∉ t.targetingFormat) ∨ (c, f) ∈ t.targetingFormat) ∧
      (t.queryDaypartActiveNow hour = [] ∨ ∃ m, (c, m) ∈ t.daypart ∧ m.getMsbD hour = true) := by
  have hsegment : (∃ r ∈ (t.queries hour).segIdx, r.1.toUInt32 ∈ segs ∧ c ∈ r.2) ↔
      ∃ s, s.toUInt32 ∈ segs ∧ (c, s) ∈ t.targetingSegment := by
    rw [queries, exists_groupIds (P := fun s : Int32 => s.toUInt32 ∈ segs)]
    simp [joinActive, hc]
  have hgeo : (∃ r ∈ (t.queries hour).geoIdx, (∃ k ∈ (geoKeys req).getD [],
      r.1 = k.kind.text ∧ r.2.1 = k.code) ∧ c ∈ r.2.2) ↔
      ∃ k ∈ (geoKeys req).getD [], (c, k.kind, k.code) ∈ t.targetingGeo := exists_geoIdx hc _
  have hdaypart : c ∈ t.queryDaypartActiveNow hour ↔
      ∃ m, (c, m) ∈ t.daypart ∧ m.getMsbD hour = true := by
    simp [queryDaypartActiveNow, joinActive, hc]
  have hdevice := fun d => openTo_groupIds parseDeviceType_text hc t.targetingDevice d
  have hformat := fun f => openTo_groupIds parseAdFormat_text hc t.targetingFormat f
  refine ⟨fun h => ?_, fun ⟨hs, hg, hd, hf, hp⟩ => ?_⟩
  · exact ⟨h.segment.imp_right hsegment.1, h.geo.imp_right hgeo.1,
      fun d hd => (hdevice d).1 (h.device d hd), fun f hf => (hformat f).1 (h.format f hf),
      h.daypart.imp_right hdaypart.1⟩
  · exact ⟨hs.imp_right hsegment.2, hg.imp_right hgeo.2, fun d h => (hdevice d).2 (hd d h),
      fun f h => (hformat f).2 (hf f h), hp.imp_right hdaypart.2⟩

/-- Campaign `c` is among the candidates for the impression, under the catalog
built from the tables at this hour of the week. -/
def IsCandidate (t : Tables) (hour : Fin 168) (segs : List SegmentId) (req : BidRequest) (imp : Imp)
    (c : Int64) : Prop :=
  castU32 c ∈ (retrieve (build (t.queries hour)) req segs imp).map (·.campaignId)

instance (t : Tables) (hour : Fin 168) (segs : List SegmentId) (req : BidRequest) (imp : Imp)
    (c : Int64) : Decidable (t.IsCandidate hour segs req imp c) :=
  inferInstanceAs (Decidable (_ ∈ _))

/-- The scan gives an active campaign a candidate if it has a creative of the format. -/
theorem scanRow_isSome_iff (hc : t.isActive c = true) {row : CampaignRow} (hrow : row.id = c) :
    (scanRow (t.queries hour) imp row).isSome ↔
      ∃ cr ∈ t.creative, cr.campaignId = c ∧ ∀ f ∈ impAdFormat imp, cr.adFormat = f := by
  have hformat : ∀ a : AdFormat,
      (impAdFormat imp).elim true (fun f => decide (parseAdFormat a.text = some f)) = true ↔
        ∀ f ∈ impAdFormat imp, a = f := by
    intro a
    cases impAdFormat imp <;> simp
  rw [scanRow, Option.isSome_map, List.isSome_find?, List.any_eq_true]
  refine ⟨?_, ?_⟩
  · intro h
    obtain ⟨r, hr, hp⟩ := h
    obtain ⟨cr, hcr, rfl⟩ := List.mem_map.1 hr
    obtain ⟨hid, hf⟩ := Bool.and_eq_true_iff.1 hp
    exact ⟨cr, (List.mem_filter.1 hcr).1, (of_decide_eq_true hid).trans hrow, (hformat _).1 hf⟩
  · intro h
    obtain ⟨cr, hcr, hid, hf⟩ := h
    refine ⟨_, List.mem_map_of_mem (List.mem_filter.2 ⟨hcr, hid ▸ hc⟩), ?_⟩
    exact Bool.and_eq_true_iff.2 ⟨decide_eq_true (hid.trans hrow.symm), (hformat _).2 hf⟩

theorem isCandidate_iff (hfit : t.IdsFit) (hc : t.isActive c = true) :
    t.IsCandidate hour segs req imp c ↔ Eligible (t.queries hour) segs req imp c ∧
      ∃ cr ∈ t.creative, cr.campaignId = c ∧ ∀ f ∈ impAdFormat imp, cr.adFormat = f := by
  have hq := queries_valid hfit hour
  have hcfit := hfit.of_isActive hc
  refine List.mem_map.trans ⟨?_, ?_⟩
  · intro ⟨x, hx, hxc⟩
    obtain ⟨row, hrow, he, hs⟩ := (mem_retrieve_build hq segs req imp x).1 hx
    have hid : row.id = c := by
      obtain ⟨cr, -, rfl⟩ := Option.map_eq_some_iff.1 hs
      exact (castU32_inj (hq.fits row hrow) hcfit).1 hxc
    exact ⟨hid ▸ he, (scanRow_isSome_iff hc hid).1 (by rw [hs]; rfl)⟩
  · intro ⟨he, hcr⟩
    obtain ⟨r, hr, hact⟩ := List.any_eq_true.1 hc
    simp only [Bool.and_eq_true, decide_eq_true_eq] at hact
    have hrow : r.1 ∈ (t.queries hour).campaigns :=
      List.mem_map_of_mem (List.mem_filter.2 ⟨hr, by simpa using hact.2⟩)
    obtain ⟨x, hx⟩ := Option.isSome_iff_exists.1 ((scanRow_isSome_iff hc hact.1).2 hcr)
    refine ⟨x, (mem_retrieve_build hq segs req imp x).2 ⟨r.1, hrow, hact.1 ▸ he, hx⟩, ?_⟩
    obtain ⟨cr, -, rfl⟩ := Option.map_eq_some_iff.1 hx
    exact congrArg castU32 hact.1

/-- The two sets of tables have the same rows of campaign `c`. -/
structure SameRows (c : Int64) (t t' : Tables) : Prop where
  campaign : ∀ r, r.1.id = c → (r ∈ t.campaign ↔ r ∈ t'.campaign)
  creative : ∀ cr, cr.campaignId = c → (cr ∈ t.creative ↔ cr ∈ t'.creative)
  segment : ∀ s, (c, s) ∈ t.targetingSegment ↔ (c, s) ∈ t'.targetingSegment
  geo : ∀ g, (c, g) ∈ t.targetingGeo ↔ (c, g) ∈ t'.targetingGeo
  device : ∀ d, (c, d) ∈ t.targetingDevice ↔ (c, d) ∈ t'.targetingDevice
  format : ∀ f, (c, f) ∈ t.targetingFormat ↔ (c, f) ∈ t'.targetingFormat
  daypart : ∀ m, (c, m) ∈ t.daypart ↔ (c, m) ∈ t'.daypart

/-- Between tables that agree on the rows of `c`, and on whether any active
campaign is on at the hour, its candidacy does not change. While some campaign
is on, a campaign whose own mask is off is no candidate. -/
theorem targeting_local (hfit : t.IdsFit) (hfit' : t'.IdsFit) (hc : t.isActive c = true)
    (hc' : t'.isActive c = true) (hsame : SameRows c t t')
    (hday : t.queryDaypartActiveNow hour = [] ↔ t'.queryDaypartActiveNow hour = [])
    (segs : List SegmentId) (req : BidRequest) (imp : Imp) :
    (t.IsCandidate hour segs req imp c ↔ t'.IsCandidate hour segs req imp c) ∧
      ((∀ m, (c, m) ∈ t.daypart → m.getMsbD hour = false) →
        t.queryDaypartActiveNow hour ≠ [] → ¬ t.IsCandidate hour segs req imp c) := by
  rw [isCandidate_iff hfit hc, isCandidate_iff hfit' hc', eligible_queries hc, eligible_queries hc']
  refine ⟨and_congr ?_ ?_, ?_⟩
  · simp only [hsame.segment, hsame.geo, hsame.device, hsame.format, hsame.daypart, hday]
  · refine exists_congr fun cr => ⟨?_, ?_⟩
    · intro ⟨hcr, hid, hf⟩
      exact ⟨(hsame.creative cr hid).1 hcr, hid, hf⟩
    · intro ⟨hcr, hid, hf⟩
      exact ⟨(hsame.creative cr hid).2 hcr, hid, hf⟩
  · intro hoff hon h
    rcases h.1.2.2.2.2 with hp | ⟨m, hm, hbit⟩
    · exact hon hp
    · rw [hoff m hm] at hbit
      cases hbit

/-- Campaign 1 with its mask off at every hour, and a campaign 2 whose mask is `mask`. -/
def twoCampaigns (mask : BitVec 168) : Tables where
  campaign := [(sampleCampaign 1 100, .active), (sampleCampaign 2 100, .active)]
  creative := [⟨1, 1, .Banner⟩, ⟨2, 2, .Banner⟩]
  targetingSegment := []
  targetingGeo := []
  targetingDevice := []
  targetingFormat := []
  daypart := [(1, 0), (2, mask)]
  campaign_pk := by decide

theorem twoCampaigns_fit (mask : BitVec 168) : (twoCampaigns mask).IdsFit := by
  simp only [IdsFit, twoCampaigns, List.forall_mem_cons, List.not_mem_nil, IsEmpty.forall_iff,
    implies_true, and_true]
  decide

theorem twoCampaigns_sameRows (mask mask' : BitVec 168) :
    SameRows 1 (twoCampaigns mask) (twoCampaigns mask') := by
  refine ⟨?_, ?_, ?_, ?_, ?_, ?_, ?_⟩ <;> simp [twoCampaigns]

def plainRequest : BidRequest := { sampleRequest with device := none }

/-- While campaign 2 is on at hour 0, campaign 1 is left out whatever else
campaign 2's mask says. -/
theorem targeting_local_twoCampaigns :
    ((twoCampaigns (BitVec.allOnes 168)).IsCandidate 0 [] plainRequest sampleImp 1 ↔
      (twoCampaigns (1#1 ++ 0#167)).IsCandidate 0 [] plainRequest sampleImp 1) ∧
      ¬ (twoCampaigns (BitVec.allOnes 168)).IsCandidate 0 [] plainRequest sampleImp 1 ∧
      (twoCampaigns (BitVec.allOnes 168)).IsCandidate 0 [] plainRequest sampleImp 2 := by
  have hon : (twoCampaigns (BitVec.allOnes 168)).queryDaypartActiveNow 0 ≠ [] := by decide +kernel
  have hon' : (twoCampaigns (1#1 ++ 0#167)).queryDaypartActiveNow 0 ≠ [] := by decide +kernel
  have hday : (twoCampaigns (BitVec.allOnes 168)).queryDaypartActiveNow 0 = [] ↔
      (twoCampaigns (1#1 ++ 0#167)).queryDaypartActiveNow 0 = [] :=
    ⟨fun h => absurd h hon, fun h => absurd h hon'⟩
  have h := targeting_local (twoCampaigns_fit _) (twoCampaigns_fit _) (by decide) (by decide)
    (twoCampaigns_sameRows (BitVec.allOnes 168) (1#1 ++ 0#167)) hday [] plainRequest sampleImp
  refine ⟨h.1, h.2 (fun m hm => ?_) hon, by decide +kernel⟩
  obtain rfl : m = 0 := by simpa [twoCampaigns] using hm
  decide

/-- With campaign 2 off as well the daypart index is empty and is not applied:
campaign 1 becomes a candidate at an hour at which its own mask is off. -/
theorem daypart_of_others_matters :
    (twoCampaigns 0).IdsFit ∧ (twoCampaigns (BitVec.allOnes 168)).IdsFit ∧
      (twoCampaigns 0).isActive 1 = true ∧ (twoCampaigns (BitVec.allOnes 168)).isActive 1 = true ∧
      SameRows 1 (twoCampaigns 0) (twoCampaigns (BitVec.allOnes 168)) ∧
      (∀ m, (1, m) ∈ (twoCampaigns 0).daypart → m.getMsbD 0 = false) ∧
      (twoCampaigns 0).IsCandidate 0 [] plainRequest sampleImp 1 ∧
      ¬ (twoCampaigns (BitVec.allOnes 168)).IsCandidate 0 [] plainRequest sampleImp 1 := by
  refine ⟨twoCampaigns_fit _, twoCampaigns_fit _, by decide, by decide, twoCampaigns_sameRows _ _,
    fun m hm => ?_, by decide +kernel, by decide +kernel⟩
  obtain rfl : m = 0 := by simpa [twoCampaigns] using hm
  decide

end OwnRows

end Tables

end RTB
