import RtbBidder.Spec.Loader
import RtbBidder.Proofs.PipelineRun

/-! Candidate retrieval over the inverted indices that `build` makes is a naive
scan of the query results: every campaign row is checked against the index rows
that name it. -/

namespace RTB

section Filters

variable {κ : Type} [DecidableEq κ] {c : CampaignId}

theorem mem_unionOf (index : HashMap κ RoaringBitmap) (keys : List κ) :
    c ∈ unionOf index keys ↔ ∃ k ∈ keys, c ∈ Lib.posted index k := by
  suffices h : ∀ u : RoaringBitmap,
      c ∈ keys.foldl (fun u k => (index.lookup k).elim u u.union) u ↔
        c ∈ u ∨ ∃ k ∈ keys, c ∈ Lib.posted index k by
    simpa [unionOf] using h .empty
  induction keys with
  | nil => simp
  | cons k keys ih =>
    intro u
    rw [List.foldl_cons, ih]
    cases hk : index.lookup k with
    | none => simp [Lib.posted, hk]
    | some bm => simp [Lib.posted, hk, or_assoc]

theorem mem_eligibleFor (unrestricted : RoaringBitmap) (index : HashMap κ RoaringBitmap) (k : κ) :
    c ∈ eligibleFor unrestricted index k ↔ c ∈ unrestricted ∨ c ∈ Lib.posted index k := by
  unfold eligibleFor Lib.posted
  cases index.lookup k <;> simp

/-- The filters applied so far let `c` pass; `none` stands for the universe. -/
def Admits (result : Option RoaringBitmap) (c : CampaignId) : Prop := ∀ bm ∈ result, c ∈ bm

theorem admits_narrow (result : Option RoaringBitmap) (filter : RoaringBitmap) :
    Admits (narrow result filter) c ↔ Admits result c ∧ c ∈ filter := by
  cases result <;> simp [Admits, narrow]

/-- One filter per dimension of the request. -/
structure Passes (cat : CampaignCatalog) (req : CandidateRequest) (c : CampaignId) : Prop where
  segment : req.segmentIds = [] ∨ ∃ s ∈ req.segmentIds, c ∈ Lib.posted cat.segmentToCampaigns s
  geo : req.geoKeys.getD [] = [] ∨ ∃ k ∈ req.geoKeys.getD [], c ∈ Lib.posted cat.geoToCampaigns k
  device : ∀ d ∈ req.deviceType,
    c ∈ cat.deviceUnrestricted ∨ c ∈ Lib.posted cat.deviceToCampaigns d
  format : ∀ f ∈ req.adFormat,
    c ∈ cat.formatUnrestricted ∨ c ∈ Lib.posted cat.formatToCampaigns f
  daypart : cat.daypartActiveNow.isEmpty = true ∨ c ∈ cat.daypartActiveNow

theorem passes_iff {cat : CampaignCatalog} {req : CandidateRequest} : Passes cat req c ↔
    (((((req.segmentIds = [] ∨ ∃ s ∈ req.segmentIds, c ∈ Lib.posted cat.segmentToCampaigns s) ∧
      (req.geoKeys.getD [] = [] ∨
        ∃ k ∈ req.geoKeys.getD [], c ∈ Lib.posted cat.geoToCampaigns k)) ∧
      ∀ d ∈ req.deviceType, c ∈ cat.deviceUnrestricted ∨ c ∈ Lib.posted cat.deviceToCampaigns d) ∧
      ∀ f ∈ req.adFormat, c ∈ cat.formatUnrestricted ∨ c ∈ Lib.posted cat.formatToCampaigns f) ∧
      (cat.daypartActiveNow.isEmpty = true ∨ c ∈ cat.daypartActiveNow)) :=
  ⟨fun h => ⟨⟨⟨⟨h.segment, h.geo⟩, h.device⟩, h.format⟩, h.daypart⟩,
    fun ⟨⟨⟨⟨hs, hg⟩, hd⟩, hf⟩, hp⟩ => ⟨hs, hg, hd, hf, hp⟩⟩

theorem admits_segment (index : HashMap κ RoaringBitmap) (keys : List κ) :
    Admits (if keys.isEmpty then none else some (unionOf index keys)) c ↔
      keys = [] ∨ ∃ k ∈ keys, c ∈ Lib.posted index k := by
  cases keys with
  | nil => simp [Admits]
  | cons k keys => simp [Admits, mem_unionOf]

theorem admits_daypart (result : Option RoaringBitmap) (active : RoaringBitmap) :
    Admits (if active.isEmpty then result else narrow result active) c ↔
      Admits result c ∧ (active.isEmpty = true ∨ c ∈ active) := by
  split_ifs with h
  · simp [h]
  · simp [h, admits_narrow]

/-- The filters are applied one after another, from the universe on. -/
theorem candidatesFor_eq {cat : CampaignCatalog} (req : CandidateRequest)
    (hall : cat.allCampaigns.isEmpty = false) :
    ∃ result : Option RoaringBitmap, cat.candidatesFor req = result.getD cat.allCampaigns ∧
      ∀ c, Admits result c ↔ Passes cat req c := by
  unfold CampaignCatalog.candidatesFor
  rw [if_neg (by simp [hall])]
  refine ⟨_, rfl, ?_⟩
  intro c
  rw [admits_daypart, passes_iff]
  rcases req with ⟨segs, geo, device, format⟩
  have hsegment := admits_segment (c := c) cat.segmentToCampaigns segs
  dsimp only
  generalize (if segs.isEmpty then none else some (unionOf cat.segmentToCampaigns segs)) = result
    at hsegment ⊢
  rcases geo with _ | _ | ⟨k, ks⟩ <;> cases device <;> cases format <;>
    simp [hsegment, admits_narrow, mem_unionOf, mem_eligibleFor, and_assoc]

/-- The bitmap intersection keeps the campaigns that pass every filter. -/
theorem mem_candidatesFor {cat : CampaignCatalog} (req : CandidateRequest)
    (hc : c ∈ cat.allCampaigns) : c ∈ cat.candidatesFor req ↔ Passes cat req c := by
  obtain ⟨result, heq, hpasses⟩ :=
    candidatesFor_eq req (Lib.SortedSet.isEmpty_eq_false_of_mem hc)
  rw [heq, ← hpasses]
  cases result <;> simp [Admits, hc]

/-- Whatever it keeps passes the filters, also a campaign that is not in the universe. -/
theorem passes_of_mem_candidatesFor {cat : CampaignCatalog} {req : CandidateRequest}
    (h : c ∈ cat.candidatesFor req) : Passes cat req c := by
  cases hall : cat.allCampaigns.isEmpty with
  | true =>
    rw [CampaignCatalog.candidatesFor, if_pos hall] at h
    exact absurd h Lib.SortedSet.notMem_empty
  | false =>
    obtain ⟨result, heq, hpasses⟩ := candidatesFor_eq req hall
    rw [heq] at h
    refine (hpasses c).1 fun bm hbm => ?_
    rwa [Option.mem_def.1 hbm] at h

end Filters

section Casts

/-- A campaign id that `as u32` keeps. -/
def FitsU32 (id : Int64) : Prop := 0 ≤ id.toInt ∧ id.toInt < 2 ^ 32

instance (id : Int64) : Decidable (FitsU32 id) := inferInstanceAs (Decidable (_ ∧ _))

theorem castU32_toNat {id : Int64} (h : FitsU32 id) : ((castU32 id).toNat : ℤ) = id.toInt := by
  have hbv : id.toInt = (id.toUInt64.toNat : ℤ) := by
    have hmsb : id.toBitVec.msb = false := by
      rw [BitVec.msb_eq_toInt, Int64.toInt_toBitVec]
      simpa using h.1
    rw [← Int64.toInt_toBitVec, ← UInt64.toNat_toBitVec, Int64.toBitVec_toUInt64,
      BitVec.toInt_eq_toNat_of_msb hmsb]
  rw [castU32, UInt64.toNat_toUInt32, hbv]
  have := h.2
  omega

theorem castU32_inj {a b : Int64} (ha : FitsU32 a) (hb : FitsU32 b) :
    castU32 a = castU32 b ↔ a = b := by
  refine ⟨fun h => ?_, congrArg castU32⟩
  rw [← Int64.toInt_inj, ← castU32_toNat ha, ← castU32_toNat hb, h]

theorem mem_bitmapOf {ids : List Int64} {id : Int64} (hids : ∀ i ∈ ids, FitsU32 i)
    (hid : FitsU32 id) : castU32 id ∈ bitmapOf ids ↔ id ∈ ids := by
  rw [bitmapOf, Lib.SortedSet.mem_ofList, List.mem_map]
  refine ⟨fun ⟨i, hi, he⟩ => ?_, fun h => ⟨id, h, rfl⟩⟩
  rwa [← (castU32_inj (hids i hi) hid).1 he]

end Casts

/-- What the schema and GROUP BY guarantee of the query results. The campaign
ids are those of any row. -/
structure CatalogRows.Valid (q : CatalogRows) : Prop where
  distinct : (q.campaigns.map (·.id)).Nodup
  fits : ∀ row ∈ q.campaigns, FitsU32 row.id
  creatives_fit : ∀ cr ∈ q.creatives, FitsU32 cr.campaignId
  seg_fit : ∀ r ∈ q.segIdx, ∀ id ∈ r.2, FitsU32 id
  geo_fit : ∀ r ∈ q.geoIdx, ∀ id ∈ r.2.2, FitsU32 id
  device_fit : ∀ r ∈ q.deviceIdx, ∀ id ∈ r.2, FitsU32 id
  format_fit : ∀ r ∈ q.formatIdx, ∀ id ∈ r.2, FitsU32 id
  daypart_fit : ∀ id ∈ q.daypart, FitsU32 id
  seg_keys : (q.segIdx.map (·.1)).Nodup
  geo_keys : (q.geoIdx.map fun r => (r.1, r.2.1)).Nodup
  geo_kinds : ∀ r ∈ q.geoIdx, r.1 = "country" ∨ r.1 = "metro"
  devices : ∀ r ∈ q.deviceIdx, (parseDeviceType r.1).isSome
  formats : ∀ r ∈ q.formatIdx, (parseAdFormat r.1).isSome
  creative_formats : ∀ cr ∈ q.creatives, (parseAdFormat cr.adFormat).isSome

section Scan

/-- No row of the index names the campaign, or a row of the key does. -/
def OpenTo {κ : Type} (parse : String → Option κ) (rows : List (String × List Int64)) (k : κ)
    (id : Int64) : Prop :=
  (∀ r ∈ rows, id ∉ r.2) ∨ ∃ r ∈ rows, parse r.1 = some k ∧ id ∈ r.2

instance {κ : Type} [DecidableEq κ] (parse : String → Option κ)
    (rows : List (String × List Int64)) (k : κ) (id : Int64) : Decidable (OpenTo parse rows k id) :=
  inferInstanceAs (Decidable (_ ∨ _))

/-- The query results let the campaign `id` serve the impression, as far as its
targeting goes. -/
structure Eligible (q : CatalogRows) (segs : List SegmentId) (req : BidRequest) (imp : Imp)
    (id : Int64) : Prop where
  segment : segs = [] ∨ ∃ r ∈ q.segIdx, r.1.toUInt32 ∈ segs ∧ id ∈ r.2
  geo : (geoKeys req).getD [] = [] ∨
    ∃ r ∈ q.geoIdx, (∃ k ∈ (geoKeys req).getD [], r.1 = k.kind.text ∧ r.2.1 = k.code) ∧ id ∈ r.2.2
  device : ∀ d ∈ deviceType req, OpenTo parseDeviceType q.deviceIdx d id
  format : ∀ f ∈ impAdFormat imp, OpenTo parseAdFormat q.formatIdx f id
  daypart : q.daypart = [] ∨ id ∈ q.daypart

instance (q : CatalogRows) (segs : List SegmentId) (req : BidRequest) (imp : Imp) (id : Int64) :
    Decidable (Eligible q segs req imp id) :=
  decidable_of_iff
    ((segs = [] ∨ ∃ r ∈ q.segIdx, r.1.toUInt32 ∈ segs ∧ id ∈ r.2) ∧
      ((geoKeys req).getD [] = [] ∨ ∃ r ∈ q.geoIdx,
        (∃ k ∈ (geoKeys req).getD [], r.1 = k.kind.text ∧ r.2.1 = k.code) ∧ id ∈ r.2.2) ∧
      (∀ d ∈ deviceType req, OpenTo parseDeviceType q.deviceIdx d id) ∧
      (∀ f ∈ impAdFormat imp, OpenTo parseAdFormat q.formatIdx f id) ∧
      (q.daypart = [] ∨ id ∈ q.daypart))
    ⟨fun ⟨hs, hg, hd, hf, hp⟩ => ⟨hs, hg, hd, hf, hp⟩,
      fun h => ⟨h.segment, h.geo, h.device, h.format, h.daypart⟩⟩

/-- The candidate of a campaign row: its first creative that fits the impression,
priced at the bid floor. -/
def scanRow (q : CatalogRows) (imp : Imp) (row : CampaignRow) : Option AdCandidate :=
  (q.creatives.find? fun cr =>
      cr.campaignId = row.id && (impAdFormat imp).elim true (parseAdFormat cr.adFormat = some ·)).map
    fun cr =>
      { campaignId := castU32 row.id
        creativeId := castU32 cr.id
        bidPriceCents := row.bidFloorCents
        score := .fin 0
        dailyCapImps := (max row.dailyCapImps 0).toUInt32
        hourlyCapImps := (max row.hourlyCapImps 0).toUInt32 }

/-- The candidates for an impression, by a scan over all campaign rows. -/
def scan (q : CatalogRows) (segs : List SegmentId) (req : BidRequest) (imp : Imp) :
    List AdCandidate :=
  (q.campaigns.filter fun row => Eligible q segs req imp row.id).filterMap (scanRow q imp)

end Scan

section Build

variable {q : CatalogRows} {row : CampaignRow}

theorem mem_allCampaigns (h : row ∈ q.campaigns) : castU32 row.id ∈ (build q).allCampaigns := by
  have hid : row.id ∈ q.campaigns.map (·.id) := List.mem_map_of_mem h
  exact Lib.SortedSet.mem_ofList.2 (List.mem_map_of_mem hid)

theorem campaignIds_nodup (hq : q.Valid) :
    (q.campaigns.map fun row => castU32 row.id).Nodup := by
  have hinj : ∀ a ∈ q.campaigns.map (·.id), ∀ b ∈ q.campaigns.map (·.id),
      castU32 a = castU32 b → a = b := by
    intro a ha b hb
    obtain ⟨r, hr, rfl⟩ := List.mem_map.1 ha
    obtain ⟨r', hr', rfl⟩ := List.mem_map.1 hb
    exact (castU32_inj (hq.fits r hr) (hq.fits r' hr')).1
  have := hq.distinct.map_on hinj
  rwa [List.map_map] at this

theorem build_campaign (hq : q.Valid) {cid : CampaignId} {campaign : Campaign} :
    (build q).campaign cid = some campaign ↔
      ∃ row ∈ q.campaigns, castU32 row.id = cid ∧ campaignOf row = campaign := by
  have hl := Lib.lookup_insertRows (fun row => castU32 row.id) campaignOf q.campaigns ∅ (campaignIds_nodup hq)
    (k := cid) (b := campaign)
  simp only [AList.lookup_empty, reduceCtorEq, and_false, or_false] at hl
  exact hl

theorem build_creativesFor (cid : CampaignId) :
    (build q).creativesFor cid = (q.creatives.filterMap creativeOf).filter (·.campaignId = cid) := by
  have := Lib.lookup_mergeRows (·.campaignId) [] (fun l (cr : Creative) => l ++ [cr])
    (q.creatives.filterMap creativeOf) ∅ cid
  rw [List.foldl_append_eq_append, ← List.flatMap_def, List.flatMap_singleton',
    AList.lookup_empty] at this
  exact this

theorem mem_posted_segment (hq : q.Valid) (h : row ∈ q.campaigns) (s : SegmentId) :
    castU32 row.id ∈ Lib.posted (build q).segmentToCampaigns s ↔
      ∃ r ∈ q.segIdx, r.1.toUInt32 = s ∧ row.id ∈ r.2 := by
  have hd : (q.segIdx.map fun r => r.1.toUInt32).Nodup := by
    have := hq.seg_keys.map (f := Int32.toUInt32) fun a b h => congrArg Int32.ofUInt32 h
    rwa [List.map_map] at this
  refine (Lib.mem_posted_insertRows _ _ _ hd).trans (exists_congr fun r => ?_)
  refine and_congr_right fun hr => and_congr_right fun _ => ?_
  exact mem_bitmapOf (hq.seg_fit r hr) (hq.fits row h)

theorem geoKeyOf_eq {kind code : String} {k : GeoKey} (h : kind = "country" ∨ kind = "metro") :
    geoKeyOf kind code = k ↔ kind = k.kind.text ∧ code = k.code := by
  rcases k with ⟨_ | _, code'⟩ <;> rcases h with rfl | rfl <;>
    simp [geoKeyOf, GeoKind.text]

theorem mem_posted_geo (hq : q.Valid) (h : row ∈ q.campaigns) (k : GeoKey) :
    castU32 row.id ∈ Lib.posted (build q).geoToCampaigns k ↔
      ∃ r ∈ q.geoIdx, (r.1 = k.kind.text ∧ r.2.1 = k.code) ∧ row.id ∈ r.2.2 := by
  have hd : (q.geoIdx.map fun r => geoKeyOf r.1 r.2.1).Nodup := by
    have hinj : ∀ a ∈ q.geoIdx.map (fun r => (r.1, r.2.1)), ∀ b ∈ q.geoIdx.map (fun r => (r.1, r.2.1)),
        geoKeyOf a.1 a.2 = geoKeyOf b.1 b.2 → a = b := by
      intro a ha b hb he
      obtain ⟨r, hr, rfl⟩ := List.mem_map.1 ha
      obtain ⟨r', hr', rfl⟩ := List.mem_map.1 hb
      have h1 := (geoKeyOf_eq (hq.geo_kinds r hr)).1 he
      have h2 := (geoKeyOf_eq (k := geoKeyOf r'.1 r'.2.1) (hq.geo_kinds r' hr')).1 rfl
      exact Prod.ext (h1.1.trans h2.1.symm) (h1.2.trans h2.2.symm)
    have := hq.geo_keys.map_on hinj
    rwa [List.map_map] at this
  refine (Lib.mem_posted_insertRows _ _ _ hd).trans (exists_congr fun r => ?_)
  refine and_congr_right fun hr => and_congr (geoKeyOf_eq (hq.geo_kinds r hr)) ?_
  exact mem_bitmapOf (hq.geo_fit r hr) (hq.fits row h)

section Parsed

variable {κ : Type} {parse : String → Option κ} {rows : List (String × List Int64)} {id : Int64}

theorem mem_parsedRows_cast {c : CampaignId} (k : κ) :
    (∃ r ∈ parsedRows parse rows, r.1 = k ∧ c ∈ r.2) ↔
      ∃ r ∈ rows, parse r.1 = some k ∧ c ∈ bitmapOf r.2 := by
  refine ⟨?_, ?_⟩
  · intro ⟨p, hp, hk, hmem⟩
    obtain ⟨r, hr, he⟩ := List.mem_filterMap.1 hp
    obtain ⟨k', hk', rfl⟩ := Option.map_eq_some_iff.1 he
    exact ⟨r, hr, hk'.trans (congrArg some hk), hmem⟩
  · intro ⟨r, hr, hk, hmem⟩
    exact ⟨(k, bitmapOf r.2), List.mem_filterMap.2 ⟨r, hr, by rw [hk]; rfl⟩, rfl, hmem⟩

theorem mem_parsedRows (hfit : ∀ r ∈ rows, ∀ id ∈ r.2, FitsU32 id) (hid : FitsU32 id) (k : κ) :
    (∃ r ∈ parsedRows parse rows, r.1 = k ∧ castU32 id ∈ r.2) ↔
      ∃ r ∈ rows, parse r.1 = some k ∧ id ∈ r.2 := by
  refine (mem_parsedRows_cast k).trans (exists_congr fun r => and_congr_right fun hr => ?_)
  exact and_congr_right fun _ => mem_bitmapOf (hfit r hr) hid

/-- The campaigns without rows pass through, the others only for their own keys. -/
theorem mem_unrestricted_or_posted [DecidableEq κ] {all : RoaringBitmap}
    (hparse : ∀ r ∈ rows, (parse r.1).isSome) (hfit : ∀ r ∈ rows, ∀ id ∈ r.2, FitsU32 id)
    (hid : FitsU32 id) (hall : castU32 id ∈ all) (k : κ) :
    (castU32 id ∈ unrestricted all (parsedRows parse rows) ∨
      castU32 id ∈ Lib.posted (mergedIndex (parsedRows parse rows)) k) ↔ OpenTo parse rows k id := by
  refine or_congr ?_ ((Lib.mem_posted_mergeRows _ _ _).trans (mem_parsedRows hfit hid k))
  rw [unrestricted, Lib.SortedSet.mem_diff, Lib.mem_foldl_union]
  simp only [hall, true_and, Lib.SortedSet.notMem_empty, false_or, not_exists, not_and]
  refine ⟨fun h r hr hmem => ?_, fun h p hp hmem => ?_⟩
  · obtain ⟨k', hk'⟩ := Option.isSome_iff_exists.1 (hparse r hr)
    obtain ⟨p, hp, -, hp'⟩ := (mem_parsedRows hfit hid k').2 ⟨r, hr, hk', hmem⟩
    exact h p hp hp'
  · obtain ⟨r, hr, -, hr'⟩ := (mem_parsedRows hfit hid p.1).1 ⟨p, hp, rfl, hmem⟩
    exact h r hr hr'

end Parsed

theorem bitmapOf_isEmpty (ids : List Int64) : (bitmapOf ids).isEmpty = true ↔ ids = [] := by
  refine ⟨fun h => List.eq_nil_iff_forall_not_mem.2 fun id hid => ?_, fun h => by subst h; rfl⟩
  have hmem : castU32 id ∈ bitmapOf ids :=
    Lib.SortedSet.mem_ofList.2 (List.mem_map_of_mem hid)
  rw [Lib.SortedSet.isEmpty_eq_false_of_mem hmem] at h
  cases h

/-- The indices of `build` answer what the index rows say. -/
theorem passes_build (hq : q.Valid) (h : row ∈ q.campaigns) (segs : List SegmentId)
    (req : BidRequest) (imp : Imp) :
    Passes (build q) ⟨segs, geoKeys req, deviceType req, impAdFormat imp⟩ (castU32 row.id) ↔
      Eligible q segs req imp row.id := by
  have hfit := hq.fits row h
  have hall := mem_allCampaigns h
  have hdevice := fun d => mem_unrestricted_or_posted hq.devices hq.device_fit hfit hall d
  have hformat := fun f => mem_unrestricted_or_posted hq.formats hq.format_fit hfit hall f
  have hdaypart : ((build q).daypartActiveNow.isEmpty = true ∨
      castU32 row.id ∈ (build q).daypartActiveNow) ↔ (q.daypart = [] ∨ row.id ∈ q.daypart) :=
    or_congr (bitmapOf_isEmpty _) (mem_bitmapOf hq.daypart_fit hfit)
  have hsegment : (∃ s ∈ segs, castU32 row.id ∈ Lib.posted (build q).segmentToCampaigns s) ↔
      ∃ r ∈ q.segIdx, r.1.toUInt32 ∈ segs ∧ row.id ∈ r.2 := by
    simp only [mem_posted_segment hq h]
    refine ⟨fun ⟨s, hs, r, hr, he, hm⟩ => ⟨r, hr, he ▸ hs, hm⟩,
      fun ⟨r, hr, hs, hm⟩ => ⟨_, hs, r, hr, rfl, hm⟩⟩
  have hgeo : ∀ keys : List GeoKey,
      (∃ k ∈ keys, castU32 row.id ∈ Lib.posted (build q).geoToCampaigns k) ↔
        ∃ r ∈ q.geoIdx, (∃ k ∈ keys, r.1 = k.kind.text ∧ r.2.1 = k.code) ∧ row.id ∈ r.2.2 := by
    intro keys
    simp only [mem_posted_geo hq h]
    refine ⟨fun ⟨k, hk, r, hr, he, hm⟩ => ⟨r, hr, ⟨k, hk, he⟩, hm⟩,
      fun ⟨r, hr, ⟨k, hk, he⟩, hm⟩ => ⟨k, hk, r, hr, he, hm⟩⟩
  refine ⟨fun hp => ?_, fun he => ?_⟩
  · exact ⟨hp.segment.imp_right hsegment.1, hp.geo.imp_right (hgeo _).1,
      fun d hd => (hdevice d).1 (hp.device d hd), fun f hf => (hformat f).1 (hp.format f hf),
      hdaypart.1 hp.daypart⟩
  · exact ⟨he.segment.imp_right hsegment.2, he.geo.imp_right (hgeo _).2,
      fun d hd => (hdevice d).2 (he.device d hd), fun f hf => (hformat f).2 (he.format f hf),
      hdaypart.2 he.daypart⟩

/-- The first creative that fits is the same in the catalog and in the rows. -/
theorem candidateOf_build (hq : q.Valid) (h : row ∈ q.campaigns) (imp : Imp) :
    candidateOf (build q) (impAdFormat imp) (castU32 row.id) = scanRow q imp row := by
  have hcampaign : (build q).campaign (castU32 row.id) = some (campaignOf row) :=
    (build_campaign hq).2 ⟨row, h, rfl, rfl⟩
  rw [candidateOf, hcampaign, Option.bind_some, build_creativesFor, List.find?_filter,
    List.find?_filterMap, scanRow]
  have hsame : ∀ cr ∈ q.creatives, Option.any (fun a => decide (decide (a.campaignId = castU32 row.id)
      = true ∧ (impAdFormat imp).elim true (a.adFormat = ·) = true)) (creativeOf cr) =
      (decide (cr.campaignId = row.id) &&
        (impAdFormat imp).elim true (parseAdFormat cr.adFormat = some ·)) := by
    intro cr hcr
    obtain ⟨format, hf⟩ := Option.isSome_iff_exists.1 (hq.creative_formats cr hcr)
    have hinj := castU32_inj (hq.creatives_fit cr hcr) (hq.fits row h)
    cases himp : impAdFormat imp <;> simp [creativeOf, hf, hinj]
  rw [List.find?_congr hsame]
  cases hfind : q.creatives.find? fun cr => decide (cr.campaignId = row.id) &&
      (impAdFormat imp).elim true (parseAdFormat cr.adFormat = some ·) with
  | none => rfl
  | some cr =>
    obtain ⟨format, hf⟩ :=
      Option.isSome_iff_exists.1 (hq.creative_formats cr (List.mem_of_find?_eq_some hfind))
    simp [creativeOf, hf, campaignOf]

theorem mem_retrieve_build (hq : q.Valid) (segs : List SegmentId) (req : BidRequest) (imp : Imp)
    (x : AdCandidate) :
    x ∈ retrieve (build q) req segs imp ↔
      ∃ row ∈ q.campaigns, Eligible q segs req imp row.id ∧ scanRow q imp row = some x := by
  refine List.mem_filterMap.trans ⟨?_, ?_⟩
  · intro ⟨cid, hcid, hx⟩
    obtain ⟨campaign, hcampaign, -⟩ := Option.bind_eq_some_iff.1 hx
    obtain ⟨row, hrow, rfl, -⟩ := (build_campaign hq).1 hcampaign
    rw [candidateOf_build hq hrow] at hx
    have hpass := (mem_candidatesFor _ (mem_allCampaigns hrow)).1 hcid
    exact ⟨row, hrow, (passes_build hq hrow segs req imp).1 hpass, hx⟩
  · intro ⟨row, hrow, he, hx⟩
    have hpass := (passes_build hq hrow segs req imp).2 he
    rw [← candidateOf_build hq hrow] at hx
    exact ⟨castU32 row.id, (mem_candidatesFor _ (mem_allCampaigns hrow)).2 hpass, hx⟩

theorem retrieve_build_perm (hq : q.Valid) (segs : List SegmentId) (req : BidRequest) (imp : Imp) :
    (retrieve (build q) req segs imp).Perm (scan q segs req imp) := by
  have hids : ((scan q segs req imp).map (·.campaignId)).Nodup := by
    have hsub : ((scan q segs req imp).map (·.campaignId)).Sublist
        ((q.campaigns.filter fun row => Eligible q segs req imp row.id).map
          fun row => castU32 row.id) := by
      refine map_filterMap_sublist (fun {row x} hx => ?_) _
      obtain ⟨cr, -, rfl⟩ := Option.map_eq_some_iff.1 hx
      rfl
    exact (campaignIds_nodup hq).sublist (hsub.trans (List.filter_sublist.map _))
  refine (List.perm_ext_iff_of_nodup ?_ hids.of_map).2 fun x => ?_
  · exact (retrieve_wellFormed (build q) req segs imp).1.of_map
  · rw [mem_retrieve_build hq, scan, List.mem_filterMap]
    simp [and_assoc]

theorem build_isEmpty (hq : q.Valid) (h : (build q).isEmpty = true) : q.campaigns = [] := by
  refine List.eq_nil_iff_forall_not_mem.2 fun row hrow => ?_
  have hl := (build_campaign hq).2 ⟨row, hrow, rfl, rfl⟩
  have hmem := AList.mem_lookup_iff.1 hl
  rw [List.isEmpty_iff.1 h] at hmem
  cases hmem

/-- What the stage leaves for an impression is the scan's result in the order of
the campaign ids. -/
theorem candidateRetrieval_eq_scan {τ : Type} {q : CatalogRows} (hq : q.Valid) (req : BidRequest)
    (segs : List SegmentId) (w : World τ) {i : ℕ} {imp : Imp} (hi : req.imp[i]? = some imp) :
    ∃ cs, (candidateRetrieval { BidContext.new req with
          catalog := some (build q), segmentIds := segs } w).1.candidates[i]? = some cs ∧
      cs.Perm (scan q segs req imp) ∧ (cs.map (·.campaignId)).Pairwise (· < ·) := by
  have himp : req.imp ≠ [] := by
    intro he
    simp [he] at hi
  have hmax : max req.imp.length 1 = req.imp.length :=
    max_eq_left (List.length_pos_of_ne_nil himp)
  by_cases hempty : (build q).isEmpty = true
  · have hi' := (List.getElem?_eq_some_iff.1 hi).1
    refine ⟨[], ?_, ?_, List.Pairwise.nil⟩
    · simp [candidateRetrieval, hempty, BidContext.new, hmax, hi']
    · simp [scan, build_isEmpty hq hempty]
  · refine ⟨retrieve (build q) req segs imp, ?_, retrieve_build_perm hq segs req imp, ?_⟩
    · rw [candidateRetrieval_candidates w rfl (by simpa using hempty) himp
        (by simp [BidContext.new, hmax])]
      simp [hi, BidContext.new]
    · exact (Lib.SortedSet.sorted _).sublist (retrieve_sublist (build q) req segs imp)

theorem toInt_ofNat_nonneg (cents : UInt16) : 0 ≤ (Int32.ofNat cents.toNat).toInt := by
  have hlt := cents.toNat_lt
  rw [Int32.toInt_ofNat_of_lt (by omega)]
  exact Int.natCast_nonneg _

/-- A row with a daily budget of 1000 cents and caps of 10 a day and 3 an hour. -/
def sampleCampaign (id : Int64) (bidFloorCents : UInt16) : CampaignRow :=
  ⟨id, .ofNat bidFloorCents.toNat, 1000, 10, 3, toInt_ofNat_nonneg bidFloorCents, by decide⟩

/-- Campaign 5 is for tablets, and the index rows also name a campaign 100 that
the campaign query did not return. -/
def sampleRows : CatalogRows where
  campaigns := [sampleCampaign 9 200, sampleCampaign 5 300, sampleCampaign 4 100]
  creatives := [⟨1, 4, "BANNER"⟩, ⟨2, 9, "VIDEO"⟩, ⟨3, 9, "BANNER"⟩, ⟨4, 5, "BANNER"⟩]
  segIdx := [(11, [4, 5, 100]), (12, [9])]
  geoIdx := [("country", "US", [4, 5, 9, 100]), ("metro", "501", [4])]
  deviceIdx := [("TABLET", [5]), ("MOBILE", [9, 100])]
  formatIdx := []
  daypart := [4, 5, 9]

def sampleImp : Imp := ⟨"1", some (), none, none, none⟩

def sampleRequest : BidRequest where
  id := "r"
  imp := [sampleImp]
  device := some ⟨some ⟨some "US", none⟩, some 1⟩
  user := none
  regs := none

theorem candidateRetrieval_eq_scan_sample :
    sampleRows.Valid ∧
      (scan sampleRows [11, 12] sampleRequest sampleImp).map
        (fun c => (c.campaignId, c.creativeId)) = [(9, 3), (4, 1)] ∧
      ∃ cs, (candidateRetrieval { BidContext.new sampleRequest with
          catalog := some (build sampleRows), segmentIds := [11, 12] }
          (⟨.new, ()⟩ : World Unit)).1.candidates[0]? = some cs ∧
        cs.Perm (scan sampleRows [11, 12] sampleRequest sampleImp) ∧
        (cs.map (·.campaignId)).Pairwise (· < ·) := by
  have hvalid : sampleRows.Valid := by
    refine ⟨?_, ?_, ?_, ?_, ?_, ?_, ?_, ?_, ?_, ?_, ?_, ?_, ?_, ?_⟩ <;>
      simp only [sampleRows, List.forall_mem_cons, List.not_mem_nil, IsEmpty.forall_iff,
        implies_true, and_true, List.map_cons, List.map_nil] <;> decide
  have hi : sampleRequest.imp[0]? = some sampleImp := rfl
  have hscan := candidateRetrieval_eq_scan hvalid sampleRequest [11, 12]
    (⟨.new, ()⟩ : World Unit) hi
  exact ⟨hvalid, by decide +kernel, hscan⟩

end Build

end RTB
