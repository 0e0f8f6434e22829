import RtbBidder.Spec.Loader
import RtbBidder.Spec.PacerSteps

/-! `start` and `refresh_loop` of `bidder-core/src/catalog/loader.rs` beside the requests
that hold a catalog snapshot and reserve budget. The reload of the pacer and the stores
to the two `ArcSwap`s are steps of their own, and so is each atomic operation of a
request on a budget counter. -/

namespace RTB

/-- The names of the active segments. -/
abbrev SegmentRegistry := HashMap String SegmentId

/-- The registry part of `build`, over the rows of `query_segments`. -/
def buildRegistry (segmentsRows : List (Int32 × String)) : SegmentRegistry :=
  Lib.insertRows (·.2) (·.1.toUInt32) segmentsRows ∅

/-- A catalog and registry that a build has returned and that are not published yet. -/
structure BuiltCatalog where
  catalog : CampaignCatalog
  registry : SegmentRegistry

/-- What is left to do with the result of the build of `start` or of one refresh. -/
inductive LoaderPhase
  /-- `start` has not built yet -/
  | starting
  /-- `start` has returned the error of its build -/
  | failed
  | startReload (built : BuiltCatalog)
  | startPublish (built : BuiltCatalog)
  /-- `refresh_loop` at its `sleep` or in its build -/
  | refreshing (consecutiveFailures : UInt32)
  | reload (built : BuiltCatalog)
  | storeCatalog (built : BuiltCatalog)
  | storeRegistry (registry : SegmentRegistry)

inductive RefreshEvent
  /-- a build ends, with the rows of its queries or with an error -/
  | build (result : Except String (CatalogRows × List (Int32 × String)))
  /-- the next statement after a successful build -/
  | advance
  /-- a request takes a snapshot: `load_full` -/
  | loadFull
  /-- the `i`-th request that holds a snapshot ends -/
  | finish (i : ℕ)
  /-- `check_and_reserve` of the `i`-th request up to its `fetch_sub` -/
  | reserve (i : ℕ) (id : CampaignId) (bidCents : Int32)
  /-- the `fetch_add` of a refused reservation or of a `release` -/
  | giveBack (id : CampaignId) (bidCents : Int32)

structure RefreshSystem where
  pacer : LocalBudgetPacer
  catalog : Option CampaignCatalog
  registry : Option SegmentRegistry
  loader : LoaderPhase
  /-- the snapshots that requests hold -/
  held : List CampaignCatalog
  /-- `bidder.budget.missing_key` -/
  missingKey : ℕ

namespace RefreshSystem

def init : RefreshSystem := ⟨.new, none, none, .starting, [], 0⟩

def onBuilt (s : RefreshSystem) (result : Except String (CatalogRows × List (Int32 × String))) :
    Option RefreshSystem :=
  let built (q : CatalogRows × List (Int32 × String)) : BuiltCatalog :=
    ⟨RTB.build q.1, buildRegistry q.2⟩
  match s.loader, result with
  | .starting, .ok q => some { s with loader := .startReload (built q) }
  | .starting, .error _ => some { s with loader := .failed }
  | .refreshing _, .ok q => some { s with loader := .reload (built q) }
  | .refreshing n, .error _ => some { s with loader := .refreshing (n + 1) }
  | _, _ => none

def advance (s : RefreshSystem) : Option RefreshSystem :=
  match s.loader with
  | .startReload b =>
    some { s with pacer := s.pacer.reload b.catalog.budgetSeeds, loader := .startPublish b }
  | .startPublish b =>
    some { s with catalog := some b.catalog, registry := some b.registry, loader := .refreshing 0 }
  | .reload b =>
    some { s with pacer := s.pacer.reload b.catalog.budgetSeeds, loader := .storeCatalog b }
  | .storeCatalog b =>
    some { s with catalog := some b.catalog, loader := .storeRegistry b.registry }
  | .storeRegistry r => some { s with registry := some r, loader := .refreshing 0 }
  | _ => none

/-- A request reserves for campaigns of its own snapshot only. -/
def step (s : RefreshSystem) : RefreshEvent → Option RefreshSystem
  | .build result => s.onBuilt result
  | .advance => s.advance
  | .loadFull => s.catalog.map fun cat => { s with held := s.held ++ [cat] }
  | .finish i => if i < s.held.length then some { s with held := s.held.eraseIdx i } else none
  | .reserve i id bidCents =>
    if (s.held[i]?.bind (·.campaign id)).isSome then
      let r := (PacerOp.fetchSub id bidCents.toInt64).apply s.pacer
      some { s with pacer := r.2
                    missingKey := if r.1.isNone then s.missingKey + 1 else s.missingKey }
    else none
  | .giveBack id bidCents =>
    some { s with pacer := ((PacerOp.fetchAdd id bidCents.toInt64).apply s.pacer).2 }

abbrev Reached : List RefreshEvent → RefreshSystem → Prop := Lib.Run (· = init) (Lib.Steps step)

end RefreshSystem

end RTB
