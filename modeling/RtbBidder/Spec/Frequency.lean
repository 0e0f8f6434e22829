import RtbBidder.Lib.Joined
import RtbBidder.Spec.Model

/-! Frequency capping: the key schema, the Redis capper of
`bidder-server/src/freq_cap.rs` with the breaker closed and Redis answering, and
the read path of the in-process capper of `bidder-core/src/frequency`. -/

namespace RTB

inductive CapWindow
  | Hour
  | Day
  | Week
  deriving DecidableEq, Repr

def CapWindow.suffix : CapWindow → String
  | .Hour => "h"
  | .Day => "d"
  | .Week => "w"

structure CapResult where
  campaignId : CampaignId
  capped : Bool
  dayCount : Option ℤ
  hourCount : Option ℤ
  deriving DecidableEq, Repr

inductive FreqCapOutcome
  | Checked (results : List CapResult)
  | SkippedTimeout
  | SkippedNoUser
  deriving DecidableEq, Repr

structure ImpressionEvent where
  userId : String
  campaignId : CampaignId
  creativeId : CreativeId
  deviceType : UInt8
  hourOfDay : UInt8
  deriving DecidableEq, Repr

def fcKey (userId dim : String) (dimVal : UInt32) (window : CapWindow) : String :=
  "v1:fc:\x7bu:" ++ userId ++ "\x7d:" ++ dim ++ ":" ++ toString dimVal ++ ":" ++ window.suffix

theorem suffix_injective : Function.Injective CapWindow.suffix := by
  intro a b h
  cases a <;> cases b <;> first | rfl | exact absurd h (by decide)

theorem suffix_notMem (w : CapWindow) : ':' ∉ w.suffix.toList := by
  cases w <;> decide

theorem toList_fcKey (user : String) (c : CampaignId) (w : CapWindow) :
    (fcKey user "c" c w).toList = "v1:fc:\x7bu:".toList ++
      (((user.toList ++ "\x7d:c".toList) ++ ':' :: (toString c).toList) ++ ':' :: w.suffix.toList) := by
  have hdim : "\x7d:".toList ++ "c".toList = "\x7d:c".toList := by decide
  have hcolon : ":".toList = [':'] := by decide
  -- the equation lemma of `fcKey` is slow to generate
  delta fcKey
  simp only [String.toList_append, List.append_assoc, hcolon, ← hdim, List.singleton_append]

/-- The key names user, campaign and window without ambiguity, whatever the user id. -/
theorem fcKey_inj {user user' : String} {c c' : CampaignId} {w w' : CapWindow}
    (h : fcKey user "c" c w = fcKey user' "c" c' w') : user = user' ∧ c = c' ∧ w = w' := by
  have hchars := congrArg String.toList h
  rw [toList_fcKey, toList_fcKey] at hchars
  -- read the key from the right: the window and the numeral are free of colons
  obtain ⟨hleft, hw⟩ := Lib.join_inj_of_notMem (suffix_notMem w) (suffix_notMem w')
    (List.append_cancel_left hchars)
  obtain ⟨huser, hc⟩ := Lib.join_inj_of_notMem (Lib.notMem_repr (by decide) c.toNat)
    (Lib.notMem_repr (by decide) c'.toNat) hleft
  exact ⟨String.toList_inj.1 (List.append_cancel_right huser),
    UInt32.toNat_inj.1 (Nat.repr_injective (String.toList_inj.1 hc)),
    suffix_injective (String.toList_inj.1 hw)⟩

/-- What the capper says of a candidate with these counts. -/
def capVerdict (c : AdCandidate) (day hour : ℤ) : CapResult where
  campaignId := c.campaignId
  capped := decide ((c.dailyCapImps.toNat : ℤ) ≤ day) || decide ((c.hourlyCapImps.toNat : ℤ) ≤ hour)
  dayCount := some day
  hourCount := some hour

theorem capVerdict_mono {c : AdCandidate} {day hour day' hour' : ℤ} (hd : day ≤ day')
    (hh : hour ≤ hour') (h : (capVerdict c day hour).capped = true) :
    (capVerdict c day' hour').capped = true := by
  simp only [capVerdict, Bool.or_eq_true, decide_eq_true_eq] at h ⊢
  rcases h with h | h
  · exact .inl (h.trans hd)
  · exact .inr (h.trans hh)

namespace RedisFrequencyCapper

def keys (userId : String) (candidates : List AdCandidate) : List String :=
  candidates.flatMap fun c =>
    [fcKey userId "c" c.campaignId .Day, fcKey userId "c" c.campaignId .Hour]

/-- The values come two for each candidate: day, hour, day, hour and so on. -/
def results : List AdCandidate → List (Option ℤ) → List CapResult
  | [], _ => []
  | c :: cs, values =>
    capVerdict c ((values[0]?).join.getD 0) ((values[1]?).join.getD 0) :: results cs (values.drop 2)

def check (redis : String → Option ℤ) (userId : String) (candidates : List AdCandidate) :
    FreqCapOutcome :=
  if candidates.isEmpty then .Checked []
  else .Checked (results candidates ((keys userId candidates).map redis))

/-- The current count of a user and campaign in one window. -/
def count (redis : String → Option ℤ) (userId : String) (c : CampaignId) (w : CapWindow) : ℤ :=
  (redis (fcKey userId "c" c w)).getD 0

/-- The verdict on a candidate from the counters as they stand. -/
def verdict (redis : String → Option ℤ) (userId : String) (c : AdCandidate) : CapResult :=
  capVerdict c (count redis userId c.campaignId .Day) (count redis userId c.campaignId .Hour)

theorem results_eq (redis : String → Option ℤ) (userId : String) (candidates : List AdCandidate) :
    results candidates ((keys userId candidates).map redis) =
      candidates.map (verdict redis userId) := by
  induction candidates with
  | nil => rfl
  | cons c cs ih =>
    have hvalues : (keys userId (c :: cs)).map redis = redis (fcKey userId "c" c.campaignId .Day) ::
        redis (fcKey userId "c" c.campaignId .Hour) :: (keys userId cs).map redis := rfl
    rw [List.map_cons, ← ih, hvalues]
    rfl

theorem check_eq (redis : String → Option ℤ) (userId : String) (candidates : List AdCandidate) :
    check redis userId candidates = .Checked (candidates.map (verdict redis userId)) := by
  unfold check
  split_ifs with h
  · rw [List.isEmpty_iff.1 h, List.map_nil]
  · rw [results_eq]

end RedisFrequencyCapper

namespace InProcessFrequencyCapper

/-- The result of one cache lookup; a miss gets a placeholder. -/
def lookupResult (found : Option (ℤ × ℤ)) (c : AdCandidate) : CapResult :=
  match found with
  | some (day, hour) => capVerdict c day hour
  | none => ⟨c.campaignId, false, none, none⟩

/-- Write a fallback result over the first result for its campaign. -/
def patch (fb : CapResult) : List CapResult → List CapResult
  | [] => []
  | r :: rs =>
    if r.campaignId = fb.campaignId then
      { r with capped := fb.capped, dayCount := fb.dayCount, hourCount := fb.hourCount } :: rs
    else r :: patch fb rs

/-- A whole check that nothing interrupts, given the cache and the fallback. -/
def check (lookup : CampaignId → Option (ℤ × ℤ)) (fallback : List AdCandidate → FreqCapOutcome)
    (candidates : List AdCandidate) : FreqCapOutcome :=
  let results := candidates.map fun c => lookupResult (lookup c.campaignId) c
  let cold := candidates.filter fun c => (lookup c.campaignId).isNone
  if cold.isEmpty then .Checked results
  else match fallback cold with
    | .Checked fbs => .Checked (fbs.foldl (fun rs fb => patch fb rs) results)
    | _ => .Checked results

end InProcessFrequencyCapper

end RTB
