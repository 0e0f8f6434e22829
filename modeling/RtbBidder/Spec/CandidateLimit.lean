import RtbBidder.Lib.BinaryHeap
import RtbBidder.Spec.Pipeline

/-! `CandidateLimitStage` of `pipeline/stages/candidate_limit.rs` over the array heap it
runs on. The pipeline's own `candidateLimit` leaves the heap's order open. -/

namespace RTB

/-- `Reverse(a) <= Reverse(b)` -/
def reverseLe (a b : AdCandidate) : Prop := heapCmp b a ≠ .gt

instance : DecidableRel reverseLe := fun a b => inferInstanceAs (Decidable (heapCmp b a ≠ .gt))

structure CandidateLimitStage where
  topK : ℕ

/-- One impression's candidates; `into_iter` of the heap goes through its array. -/
def CandidateLimitStage.limit (self : CandidateLimitStage) (candidates : List AdCandidate) :
    List AdCandidate :=
  if candidates.length ≤ self.topK then candidates
  else (Lib.BinaryHeap.keepLeast reverseLe self.topK candidates).toList

def CandidateLimitStage.execute (self : CandidateLimitStage) (ctx : BidContext) : BidContext :=
  { ctx with candidates := ctx.candidates.map self.limit }

end RTB
