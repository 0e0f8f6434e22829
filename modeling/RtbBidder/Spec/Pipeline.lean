import RtbBidder.Spec.Catalog
import RtbBidder.Spec.Frequency

/-! The bid pipeline of `bidder-core/src/pipeline` over the production stage
list. Everything outside the request lives in a `World`: the budget pacer, and
an environment of any type that the segment source, the scorer, the capper and
the clock read and change. -/

namespace RTB

structure BidContext where
  request : BidRequest
  outcome : PipelineOutcome
  segmentIds : List SegmentId
  catalog : Option CampaignCatalog
  candidates : List (List AdCandidate)
  winners : List ImpWinner
  freqCapResults : List (ℕ × CampaignId × Bool)
  bidResponse : Option BidResponse

def BidContext.new (request : BidRequest) : BidContext where
  request := request
  outcome := .Pending
  segmentIds := []
  catalog := none
  candidates := List.replicate (max request.imp.length 1) []
  winners := []
  freqCapResults := []
  bidResponse := none

structure World (τ : Type) where
  pacer : LocalBudgetPacer
  env : τ

structure ScoringContext where
  segmentIds : List SegmentId
  deviceType : Option DeviceTargetType
  adFormat : Option AdFormat
  hourOfDay : UInt8
  isWeekend : Bool
  userId : String
  isTopMarket : Bool

/-- What `main.rs` hands to the stages. -/
structure Deps (τ : Type) where
  /-- the snapshot that `load_full` returns -/
  catalog : CampaignCatalog
  /-- `segment_cache.get_or_fetch` -/
  segments : String → τ → Except String (List SegmentId) × τ
  scoreAll : List AdCandidate → ScoringContext → τ → List AdCandidate × τ
  /-- scorers mutate `AdCandidate.score`; they may also reorder or drop candidates -/
  scoreAll_subperm : ∀ cs sctx env,
    ((scoreAll cs sctx env).1.map (·.unscored)).Subperm (cs.map (·.unscored))
  /-- `FrequencyCapper::check` -/
  check : String → List AdCandidate → UInt8 → UInt8 → τ → FreqCapOutcome × τ
  hourOfDay : τ → UInt8
  isWeekend : τ → Bool
  topK : ℕ
  /-- the order in which `BinaryHeap::into_iter` visits its entries -/
  heapOrder : List AdCandidate → List AdCandidate
  heapOrder_perm : ∀ l, (heapOrder l).Perm l
  noticeUrl : WinNoticeRequest → Option String
  exchangeId : String

structure Stage (τ : Type) where
  name : String
  execute : BidContext → World τ → Except String Unit × BidContext × World τ

/-- A stage body that always returns `Ok(())`. -/
def Stage.ofBody {τ : Type} (name : String)
    (body : BidContext → World τ → BidContext × World τ) : Stage τ :=
  ⟨name, fun ctx w => (.ok (), body ctx w)⟩

/-- `Pipeline::execute` from the `k`-th deadline check on; `elapsedMs k` is what
`ctx.elapsed_ms()` returns there. -/
def Pipeline.execute {τ : Type} (deadlineMs : ℕ) (elapsedMs : ℕ → ℕ) :
    List (Stage τ) → ℕ → BidContext → World τ → Except String Unit × BidContext × World τ
  | [], _, ctx, w => (.ok (), ctx, w)
  | stage :: stages, k, ctx, w =>
    if deadlineMs ≤ elapsedMs k then (.ok (), { ctx with outcome := .NoBid .PIPELINE_DEADLINE }, w)
    else
      let r := stage.execute ctx w
      match r.1 with
      | .error e => (.error e, r.2)
      | .ok () =>
        if r.2.1.outcome.isNoBid then (.ok (), r.2)
        else Pipeline.execute deadlineMs elapsedMs stages (k + 1) r.2.1 r.2.2

section Stages

variable {τ : Type}

def hasConsent (req : BidRequest) : Bool :=
  (((req.user.bind (·.ext)).bind (·.get "consent")).bind Json.asStr).elim false (!·.isEmpty)

/-- The checks of `RequestValidationStage`: the reason it refuses the request for. -/
def validationError (req : BidRequest) : Option NoBidReason :=
  if req.id.isEmpty then some .INVALID_REQUEST
  else if req.imp.isEmpty then some .INVALID_REQUEST
  else if (req.regs.bind (·.gdpr)) = some 1 ∧ hasConsent req = false then
    some .REQUEST_BLOCKED_PRIVACY
  else none

def requestValidation (ctx : BidContext) (w : World τ) : BidContext × World τ :=
  match validationError ctx.request with
  | some reason => ({ ctx with outcome := .NoBid reason }, w)
  | none => (ctx, w)

def userEnrichment (d : Deps τ) (ctx : BidContext) (w : World τ) : BidContext × World τ :=
  let ctx := { ctx with catalog := some d.catalog }
  match ctx.request.userId with
  | none => (ctx, w)
  | some user =>
    let r := d.segments user w.env
    match r.1 with
    | .ok segments => ({ ctx with segmentIds := segments }, { w with env := r.2 })
    -- a failed fetch is logged and the request goes on without segments
    | .error _ => (ctx, { w with env := r.2 })

def geoKeys (req : BidRequest) : Option (List GeoKey) :=
  (req.device.bind (·.geo)).map fun geo =>
    (geo.country.map (GeoKey.mk .Country)).toList ++ (geo.metro.map (GeoKey.mk .Metro)).toList

def deviceType (req : BidRequest) : Option DeviceTargetType :=
  (req.device.bind (·.devicetype)).map DeviceTargetType.fromOpenrtb

def candidateOf (cat : CampaignCatalog) (format : Option AdFormat) (cid : CampaignId) :
    Option AdCandidate :=
  (cat.campaign cid).bind fun campaign =>
    ((cat.creativesFor cid).find? fun cr => format.elim true (cr.adFormat = ·)).map fun creative =>
      { campaignId := cid
        creativeId := creative.id
        bidPriceCents := campaign.bidFloorCents
        score := .fin 0
        dailyCapImps := campaign.dailyCapImps
        hourlyCapImps := campaign.hourlyCapImps }

def retrieve (cat : CampaignCatalog) (req : BidRequest) (segmentIds : List SegmentId) (imp : Imp) :
    List AdCandidate :=
  let format := impAdFormat imp
  (cat.candidatesFor ⟨segmentIds, geoKeys req, deviceType req, format⟩).toList.filterMap
    (candidateOf cat format)

/-- `Vec::resize` -/
def resize {α : Type} (l : List α) (n : ℕ) (x : α) : List α :=
  l.take n ++ List.replicate (n - l.length) x

def candidateRetrieval (ctx : BidContext) (w : World τ) : BidContext × World τ :=
  match ctx.catalog with
  | none => (ctx, w)
  | some cat =>
    if cat.isEmpty then (ctx, w)
    else
      let sized := resize ctx.candidates (max ctx.request.imp.length 1) []
      let filled := ctx.request.imp.zipIdx.foldl
        (fun cs (imp, i) => cs.set i (retrieve cat ctx.request ctx.segmentIds imp)) sized
      ({ ctx with candidates := filled }, w)

/-- `HeapEntry::cmp`: by price, ties in favour of the lower campaign id. -/
def heapCmp (a b : AdCandidate) : Ordering :=
  (compare a.bidPriceCents b.bidPriceCents).then (compare b.campaignId a.campaignId)

/-- Push to the min-heap, kept here with its least entry first. -/
def heapPush (c : AdCandidate) : List AdCandidate → List AdCandidate
  | [] => [c]
  | b :: heap => if heapCmp c b = .gt then b :: heapPush c heap else c :: b :: heap

def topCandidates (topK : ℕ) (candidates : List AdCandidate) : List AdCandidate :=
  candidates.foldl (fun heap c =>
    let heap := heapPush c heap
    if topK < heap.length then heap.tail else heap) []

def candidateLimit (d : Deps τ) (ctx : BidContext) (w : World τ) : BidContext × World τ :=
  ({ ctx with candidates := ctx.candidates.map fun cs =>
      if cs.length ≤ d.topK then cs else d.heapOrder (topCandidates d.topK cs) }, w)

/-- Run an effectful function over the list, with the index of each element. -/
def mapIdxState {α β σ : Type} (f : ℕ → α → σ → β × σ) : ℕ → List α → σ → List β × σ
  | _, [], s => ([], s)
  | i, a :: l, s =>
    let r := f i a s
    let rest := mapIdxState f (i + 1) l r.2
    (r.1 :: rest.1, rest.2)

def scoringContext (d : Deps τ) (ctx : BidContext) (env : τ) (i : ℕ) : ScoringContext where
  segmentIds := ctx.segmentIds
  deviceType := deviceType ctx.request
  adFormat := (ctx.request.imp[i]?).bind impAdFormat
  hourOfDay := d.hourOfDay env
  isWeekend := d.isWeekend env
  userId := ctx.request.userId.getD ""
  isTopMarket := false

def scoring (d : Deps τ) (ctx : BidContext) (w : World τ) : BidContext × World τ :=
  let r := mapIdxState (fun i cs env =>
    if cs.isEmpty then (cs, env) else d.scoreAll cs (scoringContext d ctx w.env i) env)
    0 ctx.candidates w.env
  ({ ctx with candidates := r.1 }, { w with env := r.2 })

/-- The candidates left by one capper answer. -/
def dropCapped (results : List CapResult) (candidates : List AdCandidate) : List AdCandidate :=
  let capped := (results.filter (·.capped)).map (·.campaignId)
  candidates.filter (·.campaignId ∉ capped)

/-- One impression of `FreqCapStage`: the candidates kept and the verdicts recorded. -/
def capImp (d : Deps τ) (user : String) (deviceType hourOfDay : UInt8) (i : ℕ)
    (cs : List AdCandidate) (env : τ) : (List AdCandidate × List (ℕ × CampaignId × Bool)) × τ :=
  if cs.isEmpty then ((cs, []), env)
  else
    let out := d.check user cs deviceType hourOfDay env
    match out.1 with
    | .Checked results =>
      ((dropCapped results cs, results.map fun r => (i, r.campaignId, r.capped)), out.2)
    -- proceed without filtering
    | _ => ((cs, []), out.2)

def freqCap (d : Deps τ) (ctx : BidContext) (w : World τ) : BidContext × World τ :=
  match ctx.request.userId with
  | none => (ctx, w)
  | some user =>
    let device := (ctx.request.device.bind (·.devicetype)).getD 0
    let r := mapIdxState (capImp d user device (d.hourOfDay w.env)) 0 ctx.candidates w.env
    ({ ctx with candidates := r.1.map Prod.fst,
                freqCapResults := ctx.freqCapResults ++ (r.1.map Prod.snd).flatten },
      { w with env := r.2 })

/-- Reserve for every candidate in turn; the campaign ids found exhausted. -/
def reserveAll : LocalBudgetPacer → List AdCandidate → List CampaignId × LocalBudgetPacer
  | p, [] => ([], p)
  | p, c :: cs =>
    let r := p.checkAndReserve c.campaignId c.bidPriceCents
    let rest := reserveAll r.2 cs
    (if r.1 = .Exhausted then c.campaignId :: rest.1 else rest.1, rest.2)

def paceImp (p : LocalBudgetPacer) (cs : List AdCandidate) : List AdCandidate × LocalBudgetPacer :=
  let r := reserveAll p cs
  (cs.filter (·.campaignId ∉ r.1), r.2)

def paceAll : LocalBudgetPacer → List (List AdCandidate) →
    List (List AdCandidate) × LocalBudgetPacer
  | p, [] => ([], p)
  | p, cs :: css =>
    let r := paceImp p cs
    let rest := paceAll r.2 css
    (r.1 :: rest.1, rest.2)

def budgetPacing (ctx : BidContext) (w : World τ) : BidContext × World τ :=
  let r := paceAll w.pacer ctx.candidates
  ({ ctx with candidates := r.1,
              outcome := if r.1.any (!·.isEmpty) then ctx.outcome else .NoBid .NO_ELIGIBLE_BIDS },
    { w with pacer := r.2 })

/-- By score, incomparable scores counting as equal, then by price. -/
def rankCmp (a b : AdCandidate) : Ordering :=
  ((a.score.partialCmp b.score).getD .eq).then (compare a.bidPriceCents b.bidPriceCents)

/-- `Iterator::max_by`: of several greatest elements the last one. -/
def maxBy (cmp : AdCandidate → AdCandidate → Ordering) : List AdCandidate → Option AdCandidate
  | [] => none
  | c :: cs => some (cs.foldl (fun best c => if cmp best c = .gt then best else c) c)

def releaseLosers (p : LocalBudgetPacer) (w : AdCandidate) (cs : List AdCandidate) :
    LocalBudgetPacer :=
  (cs.filter (·.campaignId ≠ w.campaignId)).foldl
    (fun p c => p.release c.campaignId c.bidPriceCents) p

def winnerOf (imps : List Imp) (i : ℕ) (w : AdCandidate) : ImpWinner where
  impId := (imps[i]?).elim (toString i) (·.id)
  campaignId := w.campaignId
  creativeId := w.creativeId
  bidPriceCents := w.bidPriceCents
  score := w.score

/-- The winners of the impressions from the `i`-th on. -/
def rankAll (imps : List Imp) : ℕ → LocalBudgetPacer → List (List AdCandidate) →
    List ImpWinner × LocalBudgetPacer
  | _, p, [] => ([], p)
  | i, p, cs :: css =>
    match maxBy rankCmp cs with
    | none => rankAll imps (i + 1) p css
    | some w =>
      let rest := rankAll imps (i + 1) (releaseLosers p w cs) css
      (winnerOf imps i w :: rest.1, rest.2)

def ranking (ctx : BidContext) (w : World τ) : BidContext × World τ :=
  let r := rankAll ctx.request.imp 0 w.pacer ctx.candidates
  let winners := ctx.winners ++ r.1
  ({ ctx with winners := winners,
              outcome := if winners.isEmpty then .NoBid .NO_ELIGIBLE_BIDS else .Bid },
    { w with pacer := r.2 })

/-- A bid of the response. The price is the exact quotient, where the source divides in
`f64`; `WinsAs` and `SoundBid` speak of that quotient. -/
def bidOf (d : Deps τ) (req : BidRequest) (w : ImpWinner) : Bid where
  id := req.id ++ "-" ++ w.impId
  impid := w.impId
  price := w.bidPriceCents.toInt / 100
  adid := some (toString w.creativeId)
  cid := some (toString w.campaignId)
  crid := some (toString w.creativeId)
  nurl := d.noticeUrl ⟨req.id, w.impId, w.campaignId, w.creativeId,
    w.bidPriceCents.toInt64 * 10000, req.userId.getD "", d.exchangeId⟩
  extPctr := w.score
  extScore := w.score

def bidResponse (d : Deps τ) (ctx : BidContext) : BidResponse where
  id := ctx.request.id
  seatbid := [ctx.winners.map (bidOf d ctx.request)]
  cur := some "USD"
  nbr := none

def responseBuild (d : Deps τ) (ctx : BidContext) (w : World τ) : BidContext × World τ :=
  let ctx := if ctx.outcome = .Pending then { ctx with outcome := .NoBid .NO_ELIGIBLE_BIDS } else ctx
  match ctx.outcome with
  | .NoBid reason => ({ ctx with bidResponse := some (.noBid ctx.request.id reason) }, w)
  | _ => ({ ctx with bidResponse := some (bidResponse d ctx) }, w)

/-- The stages between request validation and budget pacing, with their names. -/
def middleStages (d : Deps τ) : List (String × (BidContext → World τ → BidContext × World τ)) :=
  [("user_enrichment", userEnrichment d),
   ("candidate_retrieval", candidateRetrieval),
   ("candidate_limit", candidateLimit d),
   ("scoring", scoring d),
   ("frequency_cap", freqCap d)]

/-- The stage list that `main.rs` builds. -/
def productionStages (d : Deps τ) : List (Stage τ) :=
  .ofBody "request_validation" requestValidation ::
    ((middleStages d).map (fun s => .ofBody s.1 s.2) ++
      [.ofBody "budget_pacing" budgetPacing,
       .ofBody "ranking" ranking,
       .ofBody "response_build" (responseBuild d)])

/-- `Pipeline::execute` of the production pipeline on a fresh context. -/
def runPipeline (d : Deps τ) (deadlineMs : ℕ) (elapsedMs : ℕ → ℕ) (req : BidRequest)
    (w : World τ) : Except String Unit × BidContext × World τ :=
  Pipeline.execute deadlineMs elapsedMs (productionStages d) 0 (BidContext.new req) w

end Stages

end RTB
