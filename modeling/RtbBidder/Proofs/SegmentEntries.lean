import RtbBidder.Spec.SegmentCache

/-! Which values the segment cache holds. A fetch that runs to its end stores what it
decoded from a value the server read for it. A fetch that the breaker refuses returns
`Ok` of the empty list, and the cache stores that too. -/

namespace RTB

/-- The reply to the `GET` has arrived. -/
def RedisCall.replied : RedisCall → Bool
  | .record .. | .snapshot .. | .settle .. => true
  | _ => false

namespace Fetch

variable {cfg : BreakerConfig} {now duration : ℕ} {b b' : CircuitBreaker} {reply : GetReply}
  {f : Fetch} {next : Option Fetch} {u : String} {reads reads' : List (String × Option Bytes)}

/-- The next step is the breaker's refusal. -/
def refused (cfg : BreakerConfig) (now : ℕ) (b : CircuitBreaker) (f : Fetch) : Bool :=
  match f.call with
  | .admission => b.allowRead cfg now = some false
  | .claim => !(b.tryEnterHalfOpen cfg now).1
  | _ => false

/-- What a step of a fetch can do, refused by the breaker or not. -/
inductive Moves (f : Fetch) : Bool → Option Fetch → Prop
  | refuse (h : f.call.replied = false) : Moves f true none
  | go (c : RedisCall) (h : c.replied = f.call.replied) : Moves f false (some { f with call := c })
  | fail (e : String) (d : ℕ) :
      Moves f false (some { f with call := .record true d, got := some (.error e) })
  | answer {v : Option Bytes} (hv : v ∈ f.answers) (d : ℕ) :
      Moves f false (some { f with call := .record false d, got := some (.ok v) })
  | done (h : f.call.replied = true) : Moves f false none

theorem step_moves (hs : f.step cfg now b reply duration = some (b', next)) :
    f.Moves (f.refused cfg now b) next := by
  unfold Fetch.step at hs
  unfold refused
  cases hcall : f.call with
  | running =>
    cases reply with
    | failed e =>
      simp only [hcall, Option.some.injEq, Prod.mk.injEq] at hs
      obtain ⟨-, rfl⟩ := hs
      exact .fail e duration
    | answer k =>
      simp only [hcall, Option.map_eq_some_iff, Prod.mk.injEq] at hs
      obtain ⟨v, hv, -, rfl⟩ := hs
      exact .answer (List.mem_of_getElem? hv) duration
  | admission =>
    simp only [hcall, RedisCall.step, Option.some.injEq, Prod.mk.injEq] at hs
    obtain ⟨-, rfl⟩ := hs
    cases hread : b.allowRead cfg now with
    | none => exact .go .claim (by rw [hcall]; rfl)
    | some admitted =>
      cases admitted with
      | false => exact .refuse (by rw [hcall]; rfl)
      | true => exact .go .running (by rw [hcall]; rfl)
  | claim =>
    simp only [hcall, RedisCall.step, Option.some.injEq, Prod.mk.injEq] at hs
    obtain ⟨-, rfl⟩ := hs
    cases hclaim : (b.tryEnterHalfOpen cfg now).1 with
    | false => exact .refuse (by rw [hcall]; rfl)
    | true => exact .go .running (by rw [hcall]; rfl)
  | record error d =>
    simp only [hcall, RedisCall.step, Option.some.injEq, Prod.mk.injEq] at hs
    obtain ⟨-, rfl⟩ := hs
    exact .go _ (by rw [hcall]; rfl)
  | snapshot error slow =>
    simp only [hcall, RedisCall.step, Option.some.injEq, Prod.mk.injEq] at hs
    obtain ⟨-, rfl⟩ := hs
    exact .go _ (by rw [hcall]; rfl)
  | settle error slow snap =>
    simp only [hcall, RedisCall.step, Option.some.injEq, Prod.mk.injEq] at hs
    obtain ⟨-, rfl⟩ := hs
    exact .done (by rw [hcall]; rfl)

/-- All that a fetch knows, the server has read for it. -/
structure Sound (reads : List (String × Option Bytes)) (u : String) (f : Fetch) : Prop where
  answers : ∀ v ∈ f.answers, (u, v) ∈ reads
  got : ∀ v, f.got = some (.ok v) → (u, v) ∈ reads
  replied : f.got.isSome = f.call.replied

theorem Sound.new : Sound reads u Fetch.new := by
  refine ⟨?_, ?_, rfl⟩
  · intro v hv
    cases hv
  · intro v hv
    cases hv

theorem Sound.mono (h : f.Sound reads u) (hle : ∀ x ∈ reads, x ∈ reads') : f.Sound reads' u :=
  ⟨fun v hv => hle _ (h.answers v hv), fun v hv => hle _ (h.got v hv), h.replied⟩

/-- The server executes one more `GET` of the fetch. -/
theorem Sound.read (h : f.Sound reads u) {v : Option Bytes} :
    Sound (reads ++ [(u, v)]) u { f with answers := f.answers ++ [v] } := by
  refine ⟨?_, fun w hw => List.mem_append_left _ (h.got w hw), h.replied⟩
  intro w hw
  rcases List.mem_append.1 hw with hw | hw
  · exact List.mem_append_left _ (h.answers w hw)
  · obtain rfl := List.mem_singleton.1 hw
    exact List.mem_append_right _ List.mem_cons_self

theorem Sound.moves (h : f.Sound reads u) {refused : Bool} {f' : Fetch}
    (hm : f.Moves refused (some f')) : f'.Sound reads u := by
  cases hm with
  | go c hc => exact ⟨h.answers, h.got, h.replied.trans hc.symm⟩
  | fail e d => exact ⟨h.answers, by simp, rfl⟩
  | answer hv d =>
    refine ⟨h.answers, ?_, rfl⟩
    intro w hw
    obtain rfl : _ = w := by simpa using hw
    exact h.answers _ hv

/-- What a fetch that is over stores was decoded from a read value, if it was not refused. -/
theorem Sound.over (h : f.Sound reads u) {segments : List SegmentId} (hm : f.Moves false none)
    (hr : f.result u = .ok segments) :
    ∃ v, f.got = some (.ok v) ∧ (u, v) ∈ reads ∧ decodeSegments u v = .ok segments := by
  cases hm with
  | done hreplied =>
    unfold result at hr
    split at hr
    · rename_i hnone
      have := h.replied
      rw [hnone, hreplied] at this
      cases this
    · cases hr
    · rename_i v hgot
      exact ⟨v, hgot, h.got v hgot, hr⟩

/-- A refused fetch stores the empty list, which no reply stands for. -/
theorem Sound.refused (h : f.Sound reads u) (hm : f.Moves true next) :
    next = none ∧ f.got = none ∧ f.result u = .ok [] := by
  cases hm with
  | refuse hcall =>
    have hnone : f.got = none := by
      have := h.replied
      rwa [hcall, Option.isSome_eq_false_iff, Option.isNone_iff_eq_none] at this
    exact ⟨rfl, hnone, by rw [result, hnone]⟩

end Fetch

/-- The request runs a fetch and its next step is the breaker's refusal. -/
def SegmentRequest.refused (cfg : BreakerConfig) (now : ℕ) (b : CircuitBreaker)
    (r : SegmentRequest) : Bool :=
  match r.task with
  | .fetching f => f.refused cfg now b
  | _ => false

namespace SegmentSystem

variable {cfg : BreakerConfig} {s s' : SegmentSystem} {i : ℕ} {r : SegmentRequest} {u : String}
  {e : SegmentEvent} {evs : List SegmentEvent}

/-- Every cached value was decoded from what Redis held when it was read for that user. -/
def OnlyFetched (s : SegmentSystem) : Prop :=
  ∀ u entry, s.cache u = some entry → ∃ v, entry.source = some v ∧ (u, v) ∈ s.reads ∧
    decodeSegments u v = .ok entry.segments

/-- The step is not a fetch's refusal by the breaker. -/
def Admits (cfg : BreakerConfig) (s : SegmentSystem) : SegmentEvent → Prop
  | .step i _ _ => ∀ r ∈ s.requests[i]?, r.refused cfg s.now s.breaker = false
  | _ => True

instance (cfg : BreakerConfig) (s : SegmentSystem) : (e : SegmentEvent) → Decidable (s.Admits cfg e)
  | .step i _ _ =>
    inferInstanceAs (Decidable (∀ r ∈ s.requests[i]?, r.refused cfg s.now s.breaker = false))
  | .advance _ | .redis _ _ | .breaker _ | .evict _ | .request _ | .serve _ | .drop _ =>
    .isTrue trivial

/-- Whatever the requests know, the server has read for them. -/
def FetchesSound (s : SegmentSystem) : Prop :=
  ∀ r ∈ s.requests, ∀ f, r.task = .fetching f → f.Sound s.reads r.userId

/-- The step keeps the cached values and what has been read. -/
structure Grows (s s' : SegmentSystem) : Prop where
  cache : ∀ u entry, s'.cache u = some entry → s.cache u = some entry
  reads : ∀ x ∈ s.reads, x ∈ s'.reads

theorem OnlyFetched.grow (h : s.OnlyFetched) (hg : Grows s s') : s'.OnlyFetched := by
  intro u entry hu
  obtain ⟨v, hsource, hread, hdecode⟩ := h u entry (hg.cache u entry hu)
  exact ⟨v, hsource, hg.reads _ hread, hdecode⟩

theorem Grows.of_eq (hc : s'.cache = s.cache) (hr : s'.reads = s.reads) : Grows s s' :=
  ⟨fun _ _ h => hc ▸ h, fun _ h => hr ▸ h⟩

/-- The fetches of the requests go on as they were, or are new. -/
def NewFetches (s s' : SegmentSystem) : Prop :=
  ∀ r ∈ s'.requests, r ∈ s.requests ∨ ∀ f, r.task = .fetching f → f = .new

theorem newFetches_setRequest (hr : ∀ f, r.task = .fetching f → f = .new) :
    NewFetches s (s.setRequest i r) := by
  intro r' hr'
  rcases List.mem_or_eq_of_mem_set hr' with hmem | rfl
  · exact .inl hmem
  · exact .inr hr

theorem NewFetches.wakeAll (h : NewFetches s s') {task : SegmentTask}
    (ht : ∀ f, task ≠ .fetching f) : NewFetches s (s'.wakeAll u task) := by
  intro r' hr'
  obtain ⟨r, hr, rfl⟩ := List.mem_map.1 hr'
  unfold SegmentRequest.wake
  split
  · split_ifs with hu
    · exact .inr fun f hf => absurd hf (ht f)
    · exact h r hr
  · exact h r hr

theorem FetchesSound.grow (h : s.FetchesSound) (hn : NewFetches s s')
    (hreads : ∀ x ∈ s.reads, x ∈ s'.reads) : s'.FetchesSound := by
  intro r hr f hf
  rcases hn r hr with hmem | hnew
  · exact (h r hmem f hf).mono hreads
  · rw [hnew f hf]
    exact .new

/-- A request goes on with its fetch. -/
theorem FetchesSound.setRequest (h : s.FetchesSound) {f : Fetch} (hf : f.Sound s.reads r.userId) :
    (s.setRequest i { r with task := .fetching f }).FetchesSound := by
  intro r' hr' f' hf'
  rcases List.mem_or_eq_of_mem_set hr' with hmem | rfl
  · exact h r' hmem f' hf'
  · obtain rfl := SegmentTask.fetching.inj hf'
    exact hf

@[simp] theorem finish_reads {f : Fetch} : (s.finish i r f).reads = s.reads := by
  unfold finish
  cases f.result r.userId <;> rfl

theorem finish_cache_error {f : Fetch} {error : String} (hr : f.result r.userId = .error error) :
    (s.finish i r f).cache = s.cache := by
  simp only [finish, hr]
  rfl

theorem finish_cache_ok {f : Fetch} {segments : List SegmentId}
    (hr : f.result r.userId = .ok segments) : (s.finish i r f).cache =
      Function.update s.cache r.userId (some ⟨segments, f.got.bind Except.toOption⟩) := by
  simp only [finish, hr]
  rfl

theorem newFetches_finish {f : Fetch} : NewFetches s (s.finish i r f) := by
  have hreturned : NewFetches s
      (s.setRequest i { r with task := .returned (f.result r.userId) }) := by
    apply newFetches_setRequest
    intro f' hf'
    cases hf'
  have hrequests : (s.finish i r f).requests =
      ((s.setRequest i { r with task := .returned (f.result r.userId) }).wakeAll r.userId
        (.returned (f.result r.userId))).requests := by
    unfold finish
    cases f.result r.userId <;> rfl
  intro r' hr'
  rw [hrequests] at hr'
  exact hreturned.wakeAll (fun f' hf' => by cases hf') r' hr'

/-- What a step of the system can do. All but the steps of a fetch leave the cached values
and the fetches as they are, but for new ones. -/
inductive Change (cfg : BreakerConfig) (s : SegmentSystem) : SegmentEvent → SegmentSystem → Prop
  | keep {e : SegmentEvent} {s' : SegmentSystem} (hok : s.Admits cfg e) (hn : NewFetches s s')
      (hg : Grows s s') : Change cfg s e s'
  | serve (i : ℕ) {r : SegmentRequest} {f : Fetch} (value : Option Bytes) (hr : r ∈ s.requests)
      (hf : r.task = .fetching f) :
      Change cfg s (.serve i)
        ({ s with reads := s.reads ++ [(r.userId, value)] }.setRequest i
          { r with task := .fetching { f with answers := f.answers ++ [value] } })
  | fetch (i : ℕ) (reply : GetReply) (duration : ℕ) {r : SegmentRequest} {f f' : Fetch}
      (b : CircuitBreaker) (hr : s.requests[i]? = some r) (hf : r.task = .fetching f)
      (hm : f.Moves (r.refused cfg s.now s.breaker) (some f')) :
      Change cfg s (.step i reply duration)
        ({ s with breaker := b }.setRequest i { r with task := .fetching f' })
  | finish (i : ℕ) (reply : GetReply) (duration : ℕ) {r : SegmentRequest} {f : Fetch}
      (b : CircuitBreaker) (hr : s.requests[i]? = some r) (hf : r.task = .fetching f)
      (hm : f.Moves (r.refused cfg s.now s.breaker) none) :
      Change cfg s (.step i reply duration) ({ s with breaker := b }.finish i r f)

theorem lookup_new {f : Fetch} (hf : s.lookup r = .fetching f) : f = .new := by
  unfold SegmentSystem.lookup at hf
  split at hf
  · cases hf
  · split_ifs at hf
    exact (SegmentTask.fetching.inj hf).symm

theorem change_of_stepRequest {reply : GetReply} {duration : ℕ} (hr : s.requests[i]? = some r)
    (hs : s.stepRequest cfg i r reply duration = some s') :
    Change cfg s (.step i reply duration) s' := by
  unfold stepRequest at hs
  split at hs
  · rename_i htask
    obtain rfl := Option.some.inj hs
    refine .keep ?_ (newFetches_setRequest fun f hf => lookup_new hf) (.of_eq rfl rfl)
    intro r' hr'
    obtain rfl : r = r' := Option.some.inj (hr.symm.trans hr')
    rw [SegmentRequest.refused, htask]
  · rename_i f htask
    obtain ⟨⟨b', next⟩, hstep, rfl⟩ := Option.map_eq_some_iff.1 hs
    have hm : f.Moves (r.refused cfg s.now s.breaker) next := by
      simpa only [SegmentRequest.refused, htask] using Fetch.step_moves hstep
    cases next with
    | none => exact .finish i reply duration b' hr htask hm
    | some f' => exact .fetch i reply duration b' hr htask hm
  · cases hs

theorem change_of_drop (hs : s.drop i r = some s') : Change cfg s (.drop i) s' := by
  have hdropped : NewFetches s (s.setRequest i { r with task := .dropped }) := by
    apply newFetches_setRequest
    intro f hf
    cases hf
  unfold drop at hs
  split at hs
  · obtain rfl := Option.some.inj hs
    exact .keep trivial (hdropped.wakeAll fun f hf => by cases hf) (.of_eq rfl rfl)
  · cases hs
  · obtain rfl := Option.some.inj hs
    exact .keep trivial hdropped (.of_eq rfl rfl)

theorem step_change (hs : step cfg s e = some s') : Change cfg s e s' := by
  cases e with
  | advance d | redis key value | breaker b =>
    obtain rfl := Option.some.inj hs
    exact .keep trivial (fun r hr => .inl hr) (.of_eq rfl rfl)
  | evict u =>
    obtain rfl := Option.some.inj hs
    refine .keep trivial (fun r hr => .inl hr) ⟨?_, fun x hx => hx⟩
    intro u' entry hu'
    by_cases hu : u' = u
    · subst hu
      simp at hu'
    · simpa [Function.update_of_ne hu] using hu'
  | request u =>
    obtain rfl := Option.some.inj hs
    refine .keep trivial ?_ (.of_eq rfl rfl)
    intro r hr
    rcases List.mem_append.1 hr with hr | hr
    · exact .inl hr
    · obtain rfl := List.mem_singleton.1 hr
      refine .inr fun f hf => ?_
      cases hf
  | serve i =>
    obtain ⟨r, hr, hs⟩ := Option.bind_eq_some_iff.1 hs
    unfold serve at hs
    split at hs
    · rename_i f htask
      split_ifs at hs
      obtain rfl := Option.some.inj hs
      exact .serve i _ (List.mem_of_getElem? hr) htask
    · cases hs
  | step i reply duration =>
    obtain ⟨r, hr, hs⟩ := Option.bind_eq_some_iff.1 hs
    exact change_of_stepRequest hr hs
  | drop i =>
    obtain ⟨r, hr, hs⟩ := Option.bind_eq_some_iff.1 hs
    exact change_of_drop hs

/-- Whatever the requests do, they know only what was read for them. -/
theorem FetchesSound.step (h : s.FetchesSound) (hs : step cfg s e = some s') :
    s'.FetchesSound := by
  cases step_change hs with
  | keep hok hn hg => exact h.grow hn hg.reads
  | @serve i r f value hr hf =>
    have hread : ({ s with reads := s.reads ++ [(r.userId, value)] } :
        SegmentSystem).FetchesSound := fun r' hr' f' hf' =>
      (h r' hr' f' hf').mono fun x hx => List.mem_append_left _ hx
    exact hread.setRequest (h r hr f hf).read
  | @fetch i reply duration r f f' b hr hf hm =>
    have hbreaker : ({ s with breaker := b } : SegmentSystem).FetchesSound := h
    exact hbreaker.setRequest ((h r (List.mem_of_getElem? hr) f hf).moves hm)
  | finish i reply duration b hr hf hm =>
    have hbreaker : ({ s with breaker := b } : SegmentSystem).FetchesSound := h
    exact hbreaker.grow newFetches_finish (by simp)

/-- The end of a fetch that was not refused. -/
theorem OnlyFetched.finish (h : s.OnlyFetched) {f : Fetch} (hf : f.Sound s.reads r.userId)
    (hm : f.Moves false none) : (s.finish i r f).OnlyFetched := by
  cases hr : f.result r.userId with
  | error error => exact h.grow (.of_eq (finish_cache_error hr) finish_reads)
  | ok segments =>
    obtain ⟨v, hgot, hread, hdecode⟩ := hf.over hm hr
    intro u entry hu
    rw [finish_cache_ok hr, hgot] at hu
    rw [finish_reads]
    by_cases hru : u = r.userId
    · subst hru
      obtain rfl : _ = entry := by simpa using hu
      exact ⟨v, rfl, hread, hdecode⟩
    · rw [Function.update_of_ne hru] at hu
      exact h u entry hu

theorem OnlyFetched.step (h : s.OnlyFetched) (hf : s.FetchesSound) (hok : s.Admits cfg e)
    (hs : step cfg s e = some s') : s'.OnlyFetched := by
  cases step_change hs with
  | keep hok' hn hg => exact h.grow hg
  | serve i value hr htask =>
    exact h.grow ⟨fun u entry hu => hu, fun x hx => List.mem_append_left _ hx⟩
  | fetch i reply duration b hr htask hm => exact h.grow (.of_eq rfl rfl)
  | @finish i reply duration r f b hr htask hm =>
    have hbreaker : ({ s with breaker := b } : SegmentSystem).OnlyFetched := h
    rw [hok r hr] at hm
    exact hbreaker.finish (hf r (List.mem_of_getElem? hr) f htask) hm

theorem refused_of_not_admits {reply : GetReply} {duration : ℕ} (hr : s.requests[i]? = some r)
    (hok : ¬ s.Admits cfg (.step i reply duration)) : r.refused cfg s.now s.breaker = true := by
  by_contra hadmitted
  apply hok
  intro r' hr'
  obtain rfl : r = r' := Option.some.inj (hr.symm.trans hr')
  simpa using hadmitted

/-- A refused fetch leaves an entry that comes from no reply. -/
theorem not_onlyFetched_of_refused (hf : s.FetchesSound) (hok : ¬ s.Admits cfg e)
    (hs : step cfg s e = some s') : ¬ s'.OnlyFetched := by
  cases step_change hs with
  | keep hok' hn hg => exact absurd hok' hok
  | serve i value hr htask => exact absurd trivial hok
  | @fetch i reply duration r f f' b hr htask hm =>
    rw [refused_of_not_admits hr hok] at hm
    cases hm
  | @finish i reply duration r f b hr htask hm =>
    rw [refused_of_not_admits hr hok] at hm
    obtain ⟨-, hgot, hresult⟩ := (hf r (List.mem_of_getElem? hr) f htask).refused hm
    intro honly
    obtain ⟨v, hsource, -⟩ := honly r.userId ⟨[], none⟩ (by simp [finish_cache_ok hresult, hgot])
    cases hsource

theorem fetchesSound_init : init.FetchesSound := by
  intro r hr
  cases hr

theorem fetchesSound_run (h : Reached cfg evs s) : s.FetchesSound := by
  refine h.inv (I := FetchesSound) ?_ fun s e s' hs hstep => hs.step hstep
  rintro s rfl
  exact fetchesSound_init

/-- A run of requests none of whose fetches the breaker refuses. -/
abbrev AdmittedRun (cfg : BreakerConfig) : List SegmentEvent → SegmentSystem → Prop :=
  Lib.Run (· = init) (Lib.Guarded (Admits cfg) (Lib.Steps (step cfg)))

theorem onlyFetched_run (h : AdmittedRun cfg evs s) : s.OnlyFetched := by
  have hinv : s.OnlyFetched ∧ s.FetchesSound := by
    refine h.inv (I := fun s => s.OnlyFetched ∧ s.FetchesSound) ?_ ?_
    · rintro s rfl
      refine ⟨?_, fetchesSound_init⟩
      intro u entry hu
      cases hu
    · rintro s e s' ⟨honly, hf⟩ ⟨hok, hs⟩
      exact ⟨honly.step hf hok hs, hf.step hs⟩
  exact hinv.1

/-- Along a run the cache holds only decoded replies, at every moment, exactly if the
breaker refuses none of the fetches. -/
theorem entries_fetched_iff (h : Reached cfg evs s) :
    (∀ k t, Lib.At (· = init) (Lib.Steps (step cfg)) evs k t → t.OnlyFetched) ↔
      AdmittedRun cfg evs s := by
  apply h.always_iff
  · intro evs s hrun
    exact onlyFetched_run hrun
  · intro evs s e s' hrun hs hok
    exact not_onlyFetched_of_refused (fetchesSound_run hrun.of_guarded) hok hs

/-- The request that comes `i`-th takes its next `n` steps, its `GET` failing. -/
def failingSteps (i n : ℕ) : List SegmentEvent := List.replicate n (.step i (.failed "timeout") 0)

/-- Twenty fetches fail, which opens the breaker. A request of `u1` is refused, and ten
seconds later the breaker lets calls pass again. -/
def outage : List SegmentEvent :=
  .redis (segKey "u1") (some [7, 0, 0, 0]) ::
    ((List.range 20).flatMap fun i => .request "u2" :: failingSteps i 6) ++
    .request "u1" :: failingSteps 20 2 ++ [.advance 10000000]

/-- The empty list stands in the cache for a user whose segments were never read. -/
theorem refused_fetch_cached : ∃ s, Reached .redis outage s ∧
    s.redis (segKey "u1") = some [7, 0, 0, 0] ∧ s.reads = [] ∧ s.cache "u1" = some ⟨[], none⟩ ∧
    (s.breaker.allowRequest .redis s.now).1 = true :=
  Lib.run_of_exec_any (show (Lib.exec (step .redis) init outage).any _ = true by decide +kernel)

/-- The segments of `u1` are fetched for one of two requests and handed to the other. -/
def fetched : List SegmentEvent :=
  [.redis (segKey "u1") (some [7, 0, 0, 0]), .request "u1", .request "u1",
   .step 0 (.answer 0) 0, .step 1 (.answer 0) 0, .step 0 (.answer 0) 0, .serve 0,
   .step 0 (.answer 0) 0, .step 0 (.answer 0) 0, .step 0 (.answer 0) 0, .step 0 (.answer 0) 0]

theorem entries_fetched_shared : ∃ s, Reached .redis fetched s ∧
    s.cache "u1" = some ⟨[7], some (some [7, 0, 0, 0])⟩ ∧
    ∀ k t, Lib.At (· = init) (Lib.Steps (step .redis)) fetched k t → t.OnlyFetched := by
  obtain ⟨s, hrun, hcache⟩ := Lib.run_of_exec_any
    (P := fun s : SegmentSystem => s.cache "u1" = some ⟨[7], some (some [7, 0, 0, 0])⟩)
    (show (Lib.exec (fun s e => if s.Admits .redis e then step .redis s e else none) init
      fetched).any _ = true by decide +kernel)
  have hguarded := hrun.guarded_of_check
  exact ⟨s, hguarded.of_guarded, hcache, (entries_fetched_iff hguarded.of_guarded).2 hguarded⟩

end SegmentSystem

end RTB
