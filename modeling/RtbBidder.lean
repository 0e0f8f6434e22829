import RtbBidder.Lib.Run
import RtbBidder.Spec.Breaker
import RtbBidder.Spec.RedisCalls
import RtbBidder.Proofs.BreakerProbe
import RtbBidder.Spec.Pacing
import RtbBidder.Proofs.BudgetCap
import RtbBidder.Lib.SortedSet
import RtbBidder.Spec.Catalog
import RtbBidder.Spec.Frequency
import RtbBidder.Spec.Pipeline
import RtbBidder.Proofs.PacingLedger
import RtbBidder.Proofs.PipelineRun
import RtbBidder.Proofs.BudgetLeak
import RtbBidder.Lib.Channel
import RtbBidder.Spec.CapSystem
import RtbBidder.Proofs.WriteBehind
import RtbBidder.Proofs.UnderCap
import RtbBidder.Lib.Keyspace
import RtbBidder.Spec.WinNotice
import RtbBidder.Proofs.WinAuth
import RtbBidder.Proofs.WinDedup
import RtbBidder.Spec.WinSystem
import RtbBidder.Proofs.WinOnce
import RtbBidder.Proofs.CapWindow
import RtbBidder.Lib.Index
import RtbBidder.Spec.Loader
import RtbBidder.Proofs.Retrieval
import RtbBidder.Proofs.TargetingLocal
import RtbBidder.Proofs.BidSound
import RtbBidder.Proofs.MultiImpCap
import RtbBidder.Lib.Resumption
import RtbBidder.Spec.PacerSteps
import RtbBidder.Proofs.AuctionBalance
import RtbBidder.Proofs.PacerOvershoot
import RtbBidder.Spec.BreakerCalls
import RtbBidder.Proofs.BreakerLinear
import RtbBidder.Lib.Blocks
import RtbBidder.Spec.BreakerAutomaton
import RtbBidder.Proofs.BreakerRefines
import RtbBidder.Lib.BinaryFloat
import RtbBidder.Lib.Tasks
import RtbBidder.Spec.Hedge
import RtbBidder.Proofs.HedgeBudget
import RtbBidder.Proofs.HedgeRecovery
import RtbBidder.Spec.SegmentCache
import RtbBidder.Proofs.SegmentEntries
import RtbBidder.Proofs.IncidentRecovery
import RtbBidder.Proofs.WarmUp
import RtbBidder.Lib.FormUrlencoded
import RtbBidder.Proofs.CapChecks
import RtbBidder.Proofs.NoticeRoundTrip
import RtbBidder.Proofs.OutcomeResolved
import RtbBidder.Proofs.RefreshOrder
import RtbBidder.Proofs.ModelSwap
import RtbBidder.Proofs.UserBlind
import RtbBidder.Lib.BinaryHeap
import RtbBidder.Lib.Hysteresis
import RtbBidder.Proofs.BatchScoring
import RtbBidder.Proofs.CapMeaning
import RtbBidder.Proofs.Cascade
import RtbBidder.Proofs.MonitorHysteresis
import RtbBidder.Proofs.SkippedRows
import RtbBidder.Proofs.TopK
import RtbBidder.Lib.LittleEndian
import RtbBidder.Proofs.GoogleAdx
import RtbBidder.Proofs.SegmentCodec
import RtbBidder.Lib.Nearest
import RtbBidder.Proofs.AuctionOutcome
import RtbBidder.Proofs.FeedbackLoop
import RtbBidder.Proofs.ReloadSettles
import RtbBidder.Proofs.WinLoop
import RtbBidder.Proofs.PublishLedger
import RtbBidder.Proofs.Rollout
import RtbBidder.Proofs.ScoredAuction
