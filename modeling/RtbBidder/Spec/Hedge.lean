import RtbBidder.Lib.Run
import RtbBidder.Lib.BinaryFloat
import RtbBidder.Lib.Tasks

/-! The hedge budget, `hedged_call` and the feedback task. Calls interleave at single
atomic operations, in one order for all of them, and can be dropped where they await. -/

namespace RTB

structure HedgeBudget where
  tokens : UInt64
  nominal : UInt64
  effectiveCap : UInt64
  deriving DecidableEq, Repr

namespace HedgeBudget

def new (capacity : UInt64) : HedgeBudget := ⟨capacity, capacity, capacity⟩

def fetchMin (b : HedgeBudget) (cap : UInt64) : HedgeBudget :=
  { b with tokens := min b.tokens cap }

/-- `try_consume` with nothing between its operations. -/
def tryConsume (b : HedgeBudget) : Bool × HedgeBudget :=
  if b.tokens = 0 then (false, b) else (true, { b with tokens := b.tokens - 1 })

/-- `restore` with nothing between its operations. -/
def restore (b : HedgeBudget) : HedgeBudget :=
  let new := b.tokens + 1
  let b := { b with tokens := new }
  if b.effectiveCap < new then b.fetchMin b.effectiveCap else b

/-- `(self.nominal as f64 * 0.2) as u64`, where `0.2` is `3602879701896397 / 2 ^ 54`. -/
def fifth (b : HedgeBudget) : UInt64 :=
  .ofNat (Lib.roundEven 53 (Lib.roundEven 53 b.nominal.toNat * 3602879701896397) / 2 ^ 54)

/-- The capacity at a load-shed rate. The literals are the doubles `0.05` and `0.01`. -/
def effective (b : HedgeBudget) (rate : Lib.F64) : UInt64 :=
  if rate.gt (3602879701896397 / 2 ^ 56) then 0
  else if rate.gt (5764607523034235 / 2 ^ 59) then b.fifth
  else b.nominal

/-- `set_load_shed_rate` with nothing between its operations. -/
def setLoadShedRate (b : HedgeBudget) (rate : Lib.F64) : HedgeBudget :=
  { b with effectiveCap := b.effective rate }.fetchMin (b.effective rate)

-- the capacities of the source's own test
example : (new 100).effective (.fin (2 / 100)) = 20 ∧ (new 100).effective (.fin (6 / 100)) = 0 ∧
    (new 100).effective (.fin 0) = 100 := by decide +kernel

end HedgeBudget

/-- Where a `hedged_call` is. -/
inductive HedgedCall (T : Type*)
  /-- awaits the first attempt or the trigger -/
  | first
  /-- `try_consume`, the load comes next -/
  | consume
  /-- `try_consume`, past the test for zero, the `compare_exchange_weak` comes next -/
  | exchange (current : UInt64) (h : current ≠ 0)
  /-- no hedge, awaits the first attempt -/
  | blocked
  /-- holds a token and awaits either attempt -/
  | hedged
  /-- `restore`, the `fetch_add` comes next -/
  | restore (result : T)
  /-- `restore`, the load of the capacity comes next -/
  | added (result : T) (new : UInt64)
  /-- `restore`, the `fetch_min` comes next -/
  | clamp (result : T) (cap : UInt64)
  | returned (result : T)
  /-- dropped by an enclosing timeout, with or without a token -/
  | dropped (token : Bool)
  deriving DecidableEq, Repr

/-- What moves a call. -/
inductive HedgeInput (T : Type*)
  /-- the trigger elapses and `is_closed_sync` answers -/
  | trigger (closed : Bool)
  /-- an attempt returns -/
  | returns (result : T)
  /-- the next atomic operation; a weak exchange can fail for no reason -/
  | op (spurious : Bool)
  | drop
  deriving DecidableEq, Repr

namespace HedgedCall

variable {T : Type*}

/-- The head of the loop of `try_consume`. -/
def attempt (current : UInt64) : HedgedCall T :=
  if h : current = 0 then .blocked else .exchange current h

def step (b : HedgeBudget) : HedgedCall T → HedgeInput T → Option (HedgeBudget × HedgedCall T)
  | .first, .trigger closed => some (b, if closed then .consume else .blocked)
  | .first, .returns r => some (b, .returned r)
  | .first, .drop => some (b, .dropped false)
  | .consume, .op _ => some (b, attempt b.tokens)
  | .exchange current _, .op spurious =>
    if b.tokens = current ∧ spurious = false then
      some ({ b with tokens := current - 1 }, .hedged)
    else some (b, attempt b.tokens)
  | .blocked, .returns r => some (b, .returned r)
  | .blocked, .drop => some (b, .dropped false)
  | .hedged, .returns r => some (b, .restore r)
  | .hedged, .drop => some (b, .dropped true)
  | .restore r, .op _ => some ({ b with tokens := b.tokens + 1 }, .added r (b.tokens + 1))
  | .added r new, .op _ =>
    some (b, if b.effectiveCap < new then .clamp r b.effectiveCap else .returned r)
  | .clamp r cap, .op _ => some (b.fetchMin cap, .returned r)
  | _, _ => none

end HedgedCall

/-- Where the feedback task is in `set_load_shed_rate`. -/
inductive Feedback
  | idle
  /-- the store comes next -/
  | store (effective : UInt64)
  /-- the `fetch_min` comes next -/
  | clamp (effective : UInt64)
  deriving DecidableEq, Repr

structure HedgeSystem (T : Type*) where
  budget : HedgeBudget
  calls : List (HedgedCall T)
  feedback : Feedback
  lastRate : Option Lib.F64
  deriving DecidableEq, Repr

inductive HedgeEvent (T : Type*)
  | hedgedCall
  | input (call : ℕ) (x : HedgeInput T)
  | setLoadShedRate (rate : Lib.F64)
  /-- the feedback task's next atomic operation -/
  | feedback
  deriving DecidableEq, Repr

namespace HedgeSystem

variable {T : Type*}

def init (nominal : UInt64) : HedgeSystem T := ⟨.new nominal, [], .idle, none⟩

def step (s : HedgeSystem T) : HedgeEvent T → Option (HedgeSystem T)
  | .hedgedCall => some { s with calls := s.calls ++ [.first] }
  | .input i x => do
    let c ← s.calls[i]?
    let r ← c.step s.budget x
    some { s with budget := r.1, calls := s.calls.set i r.2 }
  | .setLoadShedRate rate =>
    if s.feedback = .idle then
      some { s with feedback := .store (s.budget.effective rate), lastRate := some rate }
    else none
  | .feedback =>
    match s.feedback with
    | .idle => none
    | .store e => some { s with budget := { s.budget with effectiveCap := e }, feedback := .clamp e }
    | .clamp e => some { s with budget := s.budget.fetchMin e, feedback := .idle }

abbrev Run (nominal : UInt64) : List (HedgeEvent T) → HedgeSystem T → Prop :=
  Lib.Run (· = init nominal) (Lib.Steps step)

theorem step_input {s : HedgeSystem T} {i : ℕ} {c c' : HedgedCall T} {x : HedgeInput T}
    {b' : HedgeBudget} (hi : s.calls[i]? = some c) (hc : c.step s.budget x = some (b', c')) :
    step s (.input i x) = some { s with budget := b', calls := s.calls.set i c' } := by
  simp [step, hi, hc]

theorem step_input_inv {s s' : HedgeSystem T} {i : ℕ} {x : HedgeInput T}
    (h : step s (.input i x) = some s') :
    ∃ c b' c', s.calls[i]? = some c ∧ c.step s.budget x = some (b', c') ∧
      s' = { s with budget := b', calls := s.calls.set i c' } := by
  obtain ⟨c, hi, h⟩ := Option.bind_eq_some_iff.1 h
  obtain ⟨r, hr, h⟩ := Option.bind_eq_some_iff.1 h
  exact ⟨c, r.1, r.2, hi, hr, (Option.some.inj h).symm⟩

/-- The next `n` operations of a call, with nothing between them. -/
def ops (i n : ℕ) : List (HedgeEvent T) := List.replicate n (.input i (.op false))

theorem tryConsume_uninterrupted {s : HedgeSystem T} {i : ℕ} (hi : s.calls[i]? = some .consume) :
    ∃ n, Lib.exec step s (ops i n) =
      some { s with
        budget := s.budget.tryConsume.2,
        calls := s.calls.set i (if s.budget.tryConsume.1 then .hedged else .blocked) } := by
  have hload := step_input hi (x := .op false) rfl
  by_cases h : s.budget.tokens = 0
  · refine ⟨1, Lib.exec_cons hload ?_⟩
    simp [Lib.exec, HedgedCall.attempt, HedgeBudget.tryConsume, h]
  · refine ⟨2, Lib.exec_cons hload ?_⟩
    rw [HedgedCall.attempt, dif_neg h]
    refine Lib.exec_cons (step_input (Lib.getElem?_set_moved hi) (if_pos ⟨rfl, rfl⟩)) ?_
    simp [Lib.exec, HedgeBudget.tryConsume, h]

theorem restore_uninterrupted {s : HedgeSystem T} {i : ℕ} {r : T}
    (hi : s.calls[i]? = some (.restore r)) :
    ∃ n, Lib.exec step s (ops i n) =
      some { s with budget := s.budget.restore, calls := s.calls.set i (.returned r) } := by
  have hadd := step_input hi (x := .op false) rfl
  have hadded := Lib.getElem?_set_moved hi (y := HedgedCall.added r (s.budget.tokens + 1))
  by_cases h : s.budget.effectiveCap < s.budget.tokens + 1
  · refine ⟨3, Lib.exec_cons hadd (Lib.exec_cons (step_input hadded (by rfl)) ?_)⟩
    rw [if_pos h]
    refine Lib.exec_cons (step_input (Lib.getElem?_set_moved hadded) (by rfl)) ?_
    simp [Lib.exec, HedgeBudget.restore, h]
  · refine ⟨2, Lib.exec_cons hadd (Lib.exec_cons (step_input hadded (by rfl)) ?_)⟩
    simp [Lib.exec, HedgeBudget.restore, h]

/-- A call of `set_load_shed_rate` that nothing interrupts. -/
theorem setLoadShedRate_uninterrupted (s : HedgeSystem T) (rate : Lib.F64)
    (h : s.feedback = .idle) :
    Lib.exec step s [.setLoadShedRate rate, .feedback, .feedback] =
      some { s with budget := s.budget.setLoadShedRate rate, lastRate := some rate } := by
  obtain ⟨b, calls, feedback, lastRate⟩ := s
  obtain rfl : feedback = .idle := h
  simp [Lib.exec, step, HedgeBudget.setLoadShedRate]

end HedgeSystem

end RTB
