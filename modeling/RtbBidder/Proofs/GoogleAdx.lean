import RtbBidder.Proofs.BidSound
import RtbBidder.Proofs.NoticeRoundTrip
import RtbBidder.Spec.GoogleAdx

/-! What an AdX exchange gets back for a request it sent: the request's id, and for each
winner the slot, the creative and the price. -/

namespace RTB

open Lib.Form

variable {τ : Type}

section Ranking

/-- A stage body that keeps one candidate list for each impression. -/
def KeepsListCount (body : BidContext → World τ → BidContext × World τ) : Prop :=
  ∀ ctx w, ctx.candidates.length = max ctx.request.imp.length 1 →
    (body ctx w).1.candidates.length = max ctx.request.imp.length 1

theorem length_mapIdxState {α β σ : Type} (f : ℕ → α → σ → β × σ) (i : ℕ) (l : List α) (s : σ) :
    (mapIdxState f i l s).1.length = l.length := by
  induction l generalizing i s with
  | nil => rfl
  | cons a l ih => simp only [mapIdxState, List.length_cons, ih]

theorem length_paceAll (p : LocalBudgetPacer) (css : List (List AdCandidate)) :
    (paceAll p css).1.length = css.length := by
  induction css generalizing p with
  | nil => rfl
  | cons cs css ih => simp only [paceAll, List.length_cons, ih]

theorem length_foldl_set {α β : Type} (g : α → β) (l : List (α × ℕ)) (css : List β) :
    (l.foldl (fun css (a, i) => css.set i (g a)) css).length = css.length := by
  induction l generalizing css with
  | nil => rfl
  | cons a l ih => rw [List.foldl_cons, ih, List.length_set]

theorem middleStages_listCount (d : Deps τ) : ∀ s ∈ middleStages d, KeepsListCount s.2 := by
  simp only [middleStages, List.forall_mem_cons]
  refine ⟨fun ctx w h => ?_, fun ctx w h => ?_, fun ctx w h => ?_, fun ctx w h => ?_,
    fun ctx w h => ?_, by simp⟩
  · simp only [userEnrichment]
    split
    · exact h
    · split <;> exact h
  · simp only [candidateRetrieval]
    split
    · exact h
    · split_ifs
      · exact h
      · simp only [length_foldl_set, resize, List.length_append, List.length_take,
          List.length_replicate]
        omega
  · simpa only [candidateLimit, List.length_map] using h
  · simpa only [scoring, length_mapIdxState] using h
  · simp only [freqCap]
    split
    · exact h
    · simpa only [List.length_map, length_mapIdxState] using h

theorem runBodies_listCount {bodies : List (String × (BidContext → World τ → BidContext × World τ))}
    (hn : ∀ b ∈ bodies, Neutral b.2) (hb : ∀ b ∈ bodies, KeepsListCount b.2) :
    KeepsListCount (runBodies bodies) := by
  induction bodies with
  | nil => exact fun _ _ h => h
  | cons b bodies ih =>
    obtain ⟨hb, hbs⟩ := List.forall_mem_cons.1 hb
    obtain ⟨hn, hns⟩ := List.forall_mem_cons.1 hn
    intro ctx w h
    have hstep := ih hns hbs (b.2 ctx w).1 (b.2 ctx w).2
    rw [hn.request ctx w] at hstep
    exact hstep (hb ctx w h)

/-- A run that ends in a bid goes through ranking with the request, no winner yet and a
list of candidates for each impression, and ends with the response built from there. -/
theorem runPipeline_ranking {d : Deps τ} {deadlineMs : ℕ} {elapsedMs : ℕ → ℕ} {req : BidRequest}
    {w : World τ} (h : (runPipeline d deadlineMs elapsedMs req w).2.1.outcome = .Bid) :
    ∃ ctx w', ctx.request = req ∧ ctx.winners = [] ∧
      ctx.candidates.length = ctx.request.imp.length ∧
      (runPipeline d deadlineMs elapsedMs req w).2 =
        responseBuild d (ranking ctx w').1 (ranking ctx w').2 := by
  have hmax : max req.imp.length 1 = req.imp.length :=
    max_eq_left (List.length_pos_of_ne_nil (runPipeline_of_bid h).2.1)
  have hlen := runBodies_listCount (middleStages_neutral d) (middleStages_listCount d)
    (BidContext.new req) w (by simp [BidContext.new])
  obtain ⟨c, hc, hreq, hwin, -, hrun⟩ := runPipeline_auction h
  have hnew : (BidContext.new req).request = req := rfl
  rw [← hc, hnew, hmax] at hlen
  refine ⟨(budgetPacing c.1 c.2).1, (budgetPacing c.1 c.2).2, hreq, hwin, ?_, hrun⟩
  simp only [budgetPacing, length_paceAll, hlen, hreq]

end Ranking

section RequestId

/-- A decoded request has a slot, which is its one impression. -/
theorem adxToInternal_ok {raw : AdxBidRequest} {req : BidRequest}
    (h : adxToInternal raw = .ok req) :
    ∃ slot, raw.adslot = some slot ∧ req.id = bytesToStringLossy raw.id ∧
      req.imp = [⟨toString slot.id, some (), none, none, none⟩] := by
  rw [adxToInternal] at h
  cases hslot : raw.adslot with
  | none => rw [hslot] at h; cases h
  | some slot =>
    rw [hslot] at h
    cases h
    exact ⟨slot, rfl, rfl, rfl⟩

theorem adxToInternal_id {raw : AdxBidRequest} {req : BidRequest}
    (h : adxToInternal raw = .ok req) : req.id = bytesToStringLossy raw.id := by
  obtain ⟨slot, -, hid, -⟩ := adxToInternal_ok h
  exact hid

theorem hexEncode_injective : Function.Injective hexEncode := by
  intro b b' h
  have hb := hexDecode_hexEncode b
  rw [h, hexDecode_hexEncode] at hb
  exact (Option.some.inj hb).symm

/-- The hex text of some bytes that are not UTF-8 is another byte string. -/
theorem ne_hexText {b b' : Bytes} (hb : ¬ IsUtf8 b) (h : b' = asBytes (hexEncode b)) : b ≠ b' := by
  rintro rfl
  exact hb ⟨_, h.symm⟩

theorem bytesToStringLossy_apart_iff (b b' : Bytes) :
    (b ≠ b' → bytesToStringLossy b ≠ bytesToStringLossy b') ↔
      ¬ ((¬ IsUtf8 b ∧ b' = asBytes (hexEncode b)) ∨
        (¬ IsUtf8 b' ∧ b = asBytes (hexEncode b'))) := by
  have heq : bytesToStringLossy b = bytesToStringLossy b' ↔ _ :=
    ofUtf8_eq_iff hexEncode_injective b b'
  constructor
  · intro h hclash
    -- text is never the byte string it stands for, so a clash is between different ids
    have hne : b ≠ b' := by
      rcases hclash with ⟨hb, h'⟩ | ⟨hb', h'⟩
      · exact ne_hexText hb h'
      · exact (ne_hexText hb' h').symm
    exact h hne (heq.2 (.inr hclash))
  · intro h hne hsame
    exact (heq.1 hsame).elim hne h

theorem runPipeline_response_id {d : Deps τ} {deadlineMs : ℕ} {elapsedMs : ℕ → ℕ}
    {req : BidRequest} {w : World τ}
    (h : (runPipeline d deadlineMs elapsedMs req w).2.1.outcome = .Bid) :
    ∃ resp, (runPipeline d deadlineMs elapsedMs req w).2.1.bidResponse = some resp ∧
      resp.id = req.id := by
  obtain ⟨ctx, w', hreq, -, -, hrun⟩ := runPipeline_ranking h
  rw [hrun] at h ⊢
  exact ⟨_, responseBuild_of_bid h, congrArg BidRequest.id hreq⟩

/-- The id comes back as it was sent exactly for an id that is UTF-8, and ids that differ
stay apart unless one of them is the hex text that stands for the other. -/
theorem adx_request_id_iff (extText : F32 → F32 → String) (raw raw' : AdxBidRequest)
    (req req' : BidRequest) (hdec : adxToInternal raw = .ok req)
    (hdec' : adxToInternal raw' = .ok req') :
    (∀ (d : Deps τ) deadlineMs elapsedMs w,
        (runPipeline d deadlineMs elapsedMs req w).2.1.outcome = .Bid →
        ∃ resp, (runPipeline d deadlineMs elapsedMs req w).2.1.bidResponse = some resp ∧
          ((internalToAdx extText resp).id = raw.id ↔ IsUtf8 raw.id)) ∧
      ((raw.id ≠ raw'.id → req.id ≠ req'.id) ↔
        ¬ ((¬ IsUtf8 raw.id ∧ raw'.id = asBytes (hexEncode raw.id)) ∨
          (¬ IsUtf8 raw'.id ∧ raw.id = asBytes (hexEncode raw'.id)))) := by
  constructor
  · intro d deadlineMs elapsedMs w hbid
    obtain ⟨resp, hresp, hid⟩ := runPipeline_response_id hbid
    refine ⟨resp, hresp, ?_⟩
    rw [internalToAdx, hid, adxToInternal_id hdec]
    exact toUTF8_ofUtf8_iff hexEncode raw.id
  · rw [adxToInternal_id hdec, adxToInternal_id hdec']
    exact bytesToStringLossy_apart_iff raw.id raw'.id

/-- A request for slot 42 that the sample catalog has a campaign for. -/
def adxRequest (id : Bytes) : AdxBidRequest where
  id := id
  adslot := some ⟨42⟩
  user := some ⟨"u"⟩
  geo := some ⟨"US"⟩
  device := none

/-- What the pipeline works on for `adxRequest`. -/
def adxRequestInternal (id : String) : BidRequest where
  id := id
  imp := [⟨"42", some (), none, none, none⟩]
  device := some ⟨some ⟨some "US", none⟩, none⟩
  user := some ⟨some "u", none⟩
  regs := none

def adxRun (id : String) : Except String Unit × BidContext × World Unit :=
  runPipeline sampleDeps 50 (fun _ => 10) (adxRequestInternal id)
    ⟨LocalBudgetPacer.new.reload [(4, 1000), (9, 1000)], ()⟩

theorem adxToInternal_adxRequest (id : Bytes) :
    adxToInternal (adxRequest id) = .ok (adxRequestInternal (bytesToStringLossy id)) := rfl

theorem adx_request_id_ascii :
    (adxRun "ab").2.1.outcome = .Bid ∧
      (∃ resp, (adxRun "ab").2.1.bidResponse = some resp ∧
        ((internalToAdx (fun _ _ => "") resp).id = asBytes "ab" ↔ IsUtf8 (asBytes "ab"))) ∧
      ((asBytes "ab" ≠ asBytes "cd" → "ab" ≠ "cd") ↔
        ¬ ((¬ IsUtf8 (asBytes "ab") ∧ asBytes "cd" = asBytes (hexEncode (asBytes "ab"))) ∨
          (¬ IsUtf8 (asBytes "cd") ∧ asBytes "ab" = asBytes (hexEncode (asBytes "cd"))))) := by
  have htext (s : String) : bytesToStringLossy (asBytes s) = s := ofUtf8_toUTF8 hexEncode s
  have hbid : (adxRun "ab").2.1.outcome = .Bid := by decide +kernel
  have hab := adxToInternal_adxRequest (asBytes "ab")
  have hcd := adxToInternal_adxRequest (asBytes "cd")
  rw [htext] at hab hcd
  obtain ⟨hecho, hapart⟩ := adx_request_id_iff (fun _ _ => "") (adxRequest (asBytes "ab"))
    (adxRequest (asBytes "cd")) _ _ hab hcd
  exact ⟨hbid, hecho sampleDeps 50 (fun _ => 10) _ hbid, hapart⟩

/-- A request whose id is the byte `ff` is bid on, and the response names the id of
another request, the two letters of its hex text. -/
theorem adx_hex_id_not_echoed :
    adxToInternal (adxRequest [0xff]) = .ok (adxRequestInternal "ff") ∧
      adxToInternal (adxRequest [0x66, 0x66]) = .ok (adxRequestInternal "ff") ∧
      (adxRun "ff").2.1.outcome = .Bid ∧
      (adxRun "ff").2.1.bidResponse.map (fun resp => (internalToAdx (fun _ _ => "") resp).id) =
        some [0x66, 0x66] := by
  have hff : bytesToStringLossy [0xff] = "ff" := by decide +kernel
  have hascii : bytesToStringLossy [0x66, 0x66] = "ff" := by decide +kernel
  refine ⟨?_, ?_, by decide +kernel, by decide +kernel⟩
  · rw [adxToInternal_adxRequest, hff]
  · rw [adxToInternal_adxRequest, hascii]

end RequestId

section Ads

variable (extText : F32 → F32 → String)

theorem f64Round_intCast (z : ℤ) : f64Round (z : ℚ) = z := by
  have hfloor : ⌊(z : ℚ) + 1 / 2⌋ = z := by
    rw [Int.floor_eq_iff]
    constructor <;> linarith
  have hceil : ⌈(z : ℚ) - 1 / 2⌉ = z := by
    rw [Int.ceil_eq_iff]
    constructor <;> linarith
  rw [f64Round, hfloor, hceil, ite_self]

theorem toInt_asI64 {z : ℤ} (hlo : -2 ^ 63 ≤ z) (hhi : z < 2 ^ 63) : (asI64 z).toInt = z := by
  have hz : max (-2 ^ 63) (min z (2 ^ 63 - 1)) = z := by omega
  rw [asI64, hz, Int64.toInt_ofInt_of_le (by omega) (by omega)]

/-- A price in cents fits in micros. -/
theorem maxCpmMicros_adxAd {bid : Bid} (cents : Int32) (h : bid.price = cents.toInt / 100) :
    (adxAd extText bid).maxCpmMicros.toInt = 10000 * cents.toInt := by
  have hmicros : bid.price * 1000000 = ((10000 * cents.toInt : ℤ) : ℚ) := by
    rw [h]
    push_cast
    ring
  have hlo := cents.le_toInt
  have hhi := cents.toInt_lt
  simp only [adxAd, hmicros, f64Round_intCast]
  exact toInt_asI64 (by omega) (by omega)

/-- What an ad has to keep of a winner for a slot. -/
structure AdKeeps (slot : AdxAdSlot) (x : ImpWinner) (ad : AdxAd) : Prop where
  adslotId : ad.adslotId = slot.id
  buyerCreativeId : ad.buyerCreativeId = x.creativeId
  maxCpmMicros : ad.maxCpmMicros.toInt = 10000 * x.bidPriceCents.toInt

/-- Both ids of the bid are decimal texts. -/
def IdsParse (bid : Bid) : Prop := (parseU32 bid.impid).isSome ∧ (bid.crid.bind parseU32).isSome

theorem adKeeps_bidOf (d : Deps τ) (req : BidRequest) {slot : AdxAdSlot} {x : ImpWinner}
    (h : x.impId = toString slot.id) :
    AdKeeps slot x (adxAd extText (bidOf d req x)) ∧ IdsParse (bidOf d req x) := by
  have hcrid : ((bidOf d req x).crid.bind parseU32) = some x.creativeId :=
    parseU32_toString x.creativeId
  have himp : parseU32 (bidOf d req x).impid = some slot.id := by
    rw [bidOf, h, parseU32_toString]
  refine ⟨⟨?_, ?_, maxCpmMicros_adxAd extText x.bidPriceCents rfl⟩, ?_, ?_⟩
  · rw [adxAd, himp, Option.getD_some]
  · rw [adxAd, hcrid, Option.getD_some]
  · rw [himp, Option.isSome_some]
  · rw [hcrid, Option.isSome_some]

/-- With no more lists of candidates than impressions, a winner is for one of these. -/
theorem impId_of_mem_rankAll {imps : List Imp} (k : ℕ) (p : LocalBudgetPacer)
    {css : List (List AdCandidate)} (hlen : k + css.length ≤ imps.length) :
    ∀ x ∈ (rankAll imps k p css).1, ∃ imp ∈ imps, x.impId = imp.id := by
  induction css generalizing k p with
  | nil => simp [rankAll]
  | cons cs css ih =>
    rw [List.length_cons] at hlen
    have hrest (q : LocalBudgetPacer) := ih (k + 1) q (by omega)
    cases hmax : maxBy rankCmp cs with
    | none =>
      simp only [rankAll, hmax]
      exact hrest p
    | some c =>
      simp only [rankAll, hmax]
      refine List.forall_mem_cons.2 ⟨?_, hrest _⟩
      have hk : k < imps.length := by omega
      exact ⟨imps[k], List.getElem_mem hk, by simp [winnerOf, List.getElem?_eq_getElem hk]⟩

/-- The winners that ranking finds for a decoded request are for its slot. -/
theorem ranking_slot {raw : AdxBidRequest} {slot : AdxAdSlot} {ctx : BidContext} (w : World τ)
    (hslot : raw.adslot = some slot) (hdec : adxToInternal raw = .ok ctx.request)
    (hfresh : ctx.winners = []) (hlen : ctx.candidates.length = ctx.request.imp.length) :
    ∀ x ∈ (ranking ctx w).1.winners, x.impId = toString slot.id := by
  intro x hx
  obtain ⟨slot', hslot', -, himp⟩ := adxToInternal_ok hdec
  cases hslot.symm.trans hslot'
  -- one list of candidates for the one impression: no winner takes its index for an id
  rw [ranking, hfresh, List.nil_append] at hx
  obtain ⟨imp, hmem, hid⟩ := impId_of_mem_rankAll 0 w.pacer (by omega) x hx
  rw [himp, List.mem_singleton] at hmem
  rw [hid, hmem]

theorem responseBuild_ranking (d : Deps τ) {ctx : BidContext} {w : World τ}
    (hne : (ranking ctx w).1.winners ≠ []) :
    (responseBuild d (ranking ctx w).1 (ranking ctx w).2).1.bidResponse =
      some (bidResponse d (ranking ctx w).1) := by
  have hbid : (ranking ctx w).1.outcome = .Bid := by
    simpa [ranking] using hne
  simp [responseBuild, hbid]

theorem bidResponse_keeps (d : Deps τ) {slot : AdxAdSlot} {ctx : BidContext}
    (h : ∀ x ∈ ctx.winners, x.impId = toString slot.id) :
    List.Forall₂ (AdKeeps slot) ctx.winners (internalToAdx extText (bidResponse d ctx)).ad ∧
      ∀ seatbid ∈ (bidResponse d ctx).seatbid, ∀ bid ∈ seatbid, IdsParse bid := by
  have hkeep (x : ImpWinner) (hx : x ∈ ctx.winners) := adKeeps_bidOf extText d ctx.request (h x hx)
  constructor
  · simp only [internalToAdx, bidResponse, List.flatMap_singleton, List.map_map]
    rw [List.forall₂_map_right_iff, List.forall₂_same]
    exact fun x hx => (hkeep x hx).1
  · simp only [bidResponse, List.forall_mem_singleton, List.forall_mem_map]
    exact fun x hx => (hkeep x hx).2

/-- Every winner of a decoded request becomes one ad, in order, with the slot of the
request, the winner's creative and its price; no id falls back to 0. -/
theorem adx_ads_keep_winners (d : Deps τ) (raw : AdxBidRequest) (slot : AdxAdSlot)
    (ctx : BidContext) (w : World τ) (hslot : raw.adslot = some slot)
    (hdec : adxToInternal raw = .ok ctx.request) (hfresh : ctx.winners = [])
    (hlen : ctx.candidates.length = ctx.request.imp.length)
    (hne : (ranking ctx w).1.winners ≠ []) :
    ∃ resp, (responseBuild d (ranking ctx w).1 (ranking ctx w).2).1.bidResponse = some resp ∧
      List.Forall₂ (AdKeeps slot) (ranking ctx w).1.winners (internalToAdx extText resp).ad ∧
      ∀ seatbid ∈ resp.seatbid, ∀ bid ∈ seatbid, IdsParse bid :=
  ⟨_, responseBuild_ranking d hne,
    bidResponse_keeps extText d (ranking_slot w hslot hdec hfresh hlen)⟩

/-- The greatest creative id and slot, at the lowest price there is. -/
def extremeContext : BidContext :=
  { BidContext.new { adxRequestInternal "r" with imp := [⟨"4294967295", some (), none, none, none⟩] }
    with candidates := [[⟨7, 4294967295, -2147483648, .fin 1, 0, 0⟩]] }

theorem adx_ads_keep_extremes :
    ((ranking extremeContext (⟨.new, ()⟩ : World Unit)).1.winners.map
        fun x => (x.creativeId, x.bidPriceCents)) = [(4294967295, -2147483648)] ∧
      ∃ resp, (responseBuild sampleDeps (ranking extremeContext ⟨.new, ()⟩).1
          (ranking extremeContext ⟨.new, ()⟩).2).1.bidResponse = some resp ∧
        List.Forall₂ (AdKeeps ⟨4294967295⟩)
          (ranking extremeContext (⟨.new, ()⟩ : World Unit)).1.winners
          (internalToAdx (fun _ _ => "") resp).ad ∧
        ∀ seatbid ∈ resp.seatbid, ∀ bid ∈ seatbid, IdsParse bid :=
  ⟨by decide +kernel, adx_ads_keep_winners (fun _ _ => "") sampleDeps
    { adxRequest (asBytes "r") with adslot := some ⟨4294967295⟩ } ⟨4294967295⟩ extremeContext _ rfl
    (by
      have hid : bytesToStringLossy (asBytes "r") = "r" := ofUtf8_toUTF8 hexEncode "r"
      rw [adxToInternal, adxRequest, hid]
      rfl) rfl rfl (by decide +kernel)⟩

end Ads

section Handler

variable (extText : F32 → F32 → String)

theorem runPipeline_ok (d : Deps τ) (deadlineMs : ℕ) (elapsedMs : ℕ → ℕ) (req : BidRequest)
    (w : World τ) : (runPipeline d deadlineMs elapsedMs req w).1 = .ok () := by
  apply Pipeline.execute_ok
  intro stage hstage ctx w
  have hbodies : productionStages d = (("request_validation", requestValidation) ::
      (middleStages d ++ auctionStages d)).map fun s => .ofBody s.1 s.2 := rfl
  rw [hbodies] at hstage
  obtain ⟨s, -, rfl⟩ := List.mem_map.1 hstage
  rfl

theorem responseBuild_winners (d : Deps τ) (ctx : BidContext) (w : World τ) :
    (responseBuild d ctx w).1.winners = ctx.winners := by
  cases ho : ctx.outcome <;> simp [responseBuild, ho]

/-- What the handler sends back to AdX for a request that is bid on. -/
theorem bid_googleAdx {d : Deps τ} {app : AppState τ} {decode : Bytes → Option AdxBidRequest}
    {encode : AdxBidResponse → Bytes} {elapsedMs : ℕ → ℕ} {body : Bytes} {w : World τ}
    {raw : AdxBidRequest} {slot : AdxAdSlot} {req : BidRequest} (timestampMs : Int64)
    (hadapter : app.adapter = googleAdxAdapter extText decode encode)
    (hstages : app.stages = productionStages d) (hbody : decode body = some raw)
    (hslot : raw.adslot = some slot) (hdec : adxToInternal raw = .ok req)
    (hbid : (runPipeline d app.deadlineMs elapsedMs req w).2.1.outcome = .Bid) :
    ∃ resp : AdxBidResponse,
      (bid app elapsedMs timestampMs body w).1.1 = .bid "application/octet-stream" (encode resp) ∧
        resp.id = asBytes (bytesToStringLossy raw.id) ∧
        List.Forall₂ (AdKeeps slot)
          (runPipeline d app.deadlineMs elapsedMs req w).2.1.winners resp.ad := by
  have hok := runPipeline_ok d app.deadlineMs elapsedMs req w
  obtain ⟨ctx, w', hreq, hfresh, hlen, hrun⟩ := runPipeline_ranking hbid
  have hresp : (runPipeline d app.deadlineMs elapsedMs req w).2.1.bidResponse =
      some (bidResponse d (ranking ctx w').1) := by
    rw [hrun] at hbid ⊢
    exact responseBuild_of_bid hbid
  have hwinners : (runPipeline d app.deadlineMs elapsedMs req w).2.1.winners =
      (ranking ctx w').1.winners := by
    rw [hrun, responseBuild_winners]
  have hdecode : app.adapter.decodeRequest body = .ok req := by
    simp only [hadapter, googleAdxAdapter, hbody, hdec]
  refine ⟨internalToAdx extText (bidResponse d (ranking ctx w').1), ?_, ?_, ?_⟩
  · rw [runPipeline, ← hstages] at hok hbid hresp
    simp only [bid, hdecode, hok, replyTo, hbid, hresp]
    rw [hadapter]
    rfl
  · have hid : (ranking ctx w').1.request.id = req.id := congrArg BidRequest.id hreq
    rw [internalToAdx, bidResponse, hid, adxToInternal_id hdec]
  · rw [hwinners]
    subst hreq
    exact (bidResponse_keeps extText d (ranking_slot w' hslot hdec hfresh hlen)).1

end Handler

end RTB
