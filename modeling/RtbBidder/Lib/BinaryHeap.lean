import RtbBidder.Lib.Selection

/-! A binary max-heap in an array, as the Rust standard library implements it: `push`
sifts the new element up from the end, `pop` sends the last element down to the bottom
along the greater children and sifts it up from there. A heap that is never left with more
than `k` elements keeps the `k` least of those pushed. -/

namespace Lib

namespace BinaryHeap

variable {α : Type*} (le : α → α → Prop) [DecidableRel le]

def parent (i : ℕ) : ℕ := (i - 1) / 2

theorem parent_lt {i : ℕ} (h : 0 < i) : parent i < i := by
  unfold parent
  omega

/-- The element at `pos` moves up past the smaller ones. -/
def siftUp (a : Array α) (pos : ℕ) : Array α :=
  if h : 0 < pos ∧ pos < a.size then
    have hpos : pos < a.size := h.2
    have hp : parent pos < a.size := (parent_lt h.1).trans hpos
    if le a[pos] a[parent pos] then a else siftUp (a.swap pos (parent pos)) (parent pos)
  else a
termination_by pos
decreasing_by exact parent_lt h.1

/-- The element at `pos` changes places with its greater child until it has none, and then
moves up again as far as it has to. -/
def siftDownToBottom (a : Array α) (pos : ℕ) : Array α :=
  let child := 2 * pos + 1
  if h : child + 1 < a.size then
    have hc : child < a.size := by omega
    have hp : pos < a.size := by omega
    if le a[child] a[child + 1] then siftDownToBottom (a.swap pos (child + 1)) (child + 1)
    else siftDownToBottom (a.swap pos child) child
  else if h : child + 1 = a.size then
    have hp : pos < a.size := by omega
    siftUp le (a.swap pos child) child
  else siftUp le a pos
termination_by a.size - pos
decreasing_by all_goals simp only [Array.size_swap]; omega

def push (a : Array α) (x : α) : Array α := siftUp le (a.push x) a.size

/-- The greatest element and the others. -/
def pop (a : Array α) : Option (α × Array α) :=
  a.back?.map fun item =>
    let rest := a.pop
    if h : 0 < rest.size then (rest[0], siftDownToBottom le (rest.set 0 item) 0) else (item, rest)

section Perm

theorem siftUp_perm (a : Array α) (pos : ℕ) : (siftUp le a pos).Perm a := by
  fun_induction siftUp le a pos with
  | case1 => exact .refl _
  | case2 a pos h hpos hp hle ih => exact ih.trans (Array.swap_perm hpos hp)
  | case3 => exact .refl _

theorem siftDownToBottom_perm (a : Array α) (pos : ℕ) : (siftDownToBottom le a pos).Perm a := by
  fun_induction siftDownToBottom le a pos with
  | case1 a pos child h hc hp hle ih => exact ih.trans (Array.swap_perm hp h)
  | case2 a pos child h hc hp hle ih => exact ih.trans (Array.swap_perm hp hc)
  | case3 a pos child _ h hp =>
    exact (siftUp_perm le _ _).trans (Array.swap_perm hp (by omega))
  | case4 a pos => exact siftUp_perm le a pos

theorem push_perm (a : Array α) (x : α) : (push le a x).toList.Perm (x :: a.toList) := by
  have h := (siftUp_perm le (a.push x) a.size).toList
  rw [Array.toList_push] at h
  exact h.trans List.perm_append_comm

theorem pop_push_of_empty {a : Array α} (x : α) (h : a.size = 0) :
    pop le (a.push x) = some (x, a) := by
  simp [pop, h]

theorem pop_push {a : Array α} (x : α) (h : 0 < a.size) :
    pop le (a.push x) = some (a[0], siftDownToBottom le (a.set 0 x) 0) := by
  simp [pop, h]

theorem pop_perm {a : Array α} {m : α} {rest : Array α} (h : pop le a = some (m, rest)) :
    (m :: rest.toList).Perm a.toList := by
  obtain ⟨item, hitem, -⟩ := Option.map_eq_some_iff.1 h
  obtain ⟨b, rfl⟩ := Array.back?_eq_some_iff.1 hitem
  rw [Array.toList_push]
  rcases Nat.eq_zero_or_pos b.size with hsize | hsize
  · rw [pop_push_of_empty le item hsize] at h
    obtain ⟨rfl, rfl⟩ := Prod.mk.inj (Option.some.inj h)
    exact (List.perm_append_singleton item _).symm
  · rw [pop_push le item hsize] at h
    obtain ⟨rfl, rfl⟩ := Prod.mk.inj (Option.some.inj h)
    have hset := (siftDownToBottom_perm le (b.set 0 item) 0).toList
    obtain ⟨x, tail, htail⟩ := List.exists_cons_of_length_pos (l := b.toList) (by simpa using hsize)
    have hx : b[0] = x := by
      rw [← Array.getElem_toList]
      simp [htail]
    rw [Array.toList_set, htail, List.set_cons_zero] at hset
    rw [hx, htail]
    have hback : (item :: x :: tail).Perm ((x :: tail) ++ [item]) :=
      (List.perm_append_singleton item _).symm
    exact (hset.cons x).trans ((List.Perm.swap item x tail).trans hback)

end Perm

section Order

variable {le} {a : Array α} {i j k pos : ℕ}

/-- The element at `i` is at most the one at `j`, where both exist. -/
def Below (le : α → α → Prop) (a : Array α) (i j : ℕ) : Prop :=
  ∀ (hi : i < a.size) (hj : j < a.size), le a[i] a[j]

/-- Every element is at most its parent. -/
def IsHeap (le : α → α → Prop) (a : Array α) : Prop := ∀ i, 0 < i → Below le a i (parent i)

/-- In order but for the element at `pos`, which may be greater than its parent. -/
structure UpReady (le : α → α → Prop) (a : Array α) (pos : ℕ) : Prop where
  edges : ∀ i, 0 < i → i ≠ pos → Below le a i (parent i)
  grand : ∀ i, 0 < i → parent i = pos → 0 < pos → Below le a i (parent pos)

/-- In order but for the element at `pos`, of which nothing is known. -/
structure DownReady (le : α → α → Prop) (a : Array α) (pos : ℕ) : Prop where
  edges : ∀ i, 0 < i → i ≠ pos → parent i ≠ pos → Below le a i (parent i)
  grand : ∀ i, 0 < i → parent i = pos → 0 < pos → Below le a i (parent pos)

variable [IsTrans α le] [Std.Total le]

omit [DecidableRel le] in
theorem UpReady.swap (h : UpReady le a pos) (h0 : 0 < pos) (hpos : pos < a.size)
    (hp : parent pos < a.size) (hle : ¬ le a[pos] a[parent pos]) :
    UpReady le (a.swap pos (parent pos)) (parent pos) := by
  have hup : le a[parent pos] a[pos] := (total_of le _ _).resolve_left hle
  have hlt := parent_lt h0
  refine ⟨?_, ?_⟩
  · intro i hi hne hi' hp'
    rw [Array.size_swap] at hi' hp'
    have hpi := parent_lt hi
    rw [Array.getElem_swap, Array.getElem_swap]
    by_cases hipos : i = pos
    · subst hipos
      simpa [hlt.ne] using hup
    · rw [if_neg hipos, if_neg hne]
      by_cases hpp : parent i = parent pos
      · -- the sibling was below the old parent
        have hold := h.edges i hi hipos hi' hp'
        simp only [hpp] at hold
        simpa [hpp, hlt.ne] using trans_of le hold hup
      · by_cases hpc : parent i = pos
        · have hold := h.grand i hi hpc h0 hi' hp
          simpa [hpc] using hold
        · rw [if_neg hpc, if_neg hpp]
          exact h.edges i hi hipos hi' hp'
  · intro i hi hpi hp0 hi' hpp'
    rw [Array.size_swap] at hi' hpp'
    have hlt' := parent_lt hp0
    have htop := h.edges (parent pos) hp0 hlt.ne hp hpp'
    have hne : i ≠ parent pos := by
      rintro rfl
      have := parent_lt hi
      omega
    rw [Array.getElem_swap, Array.getElem_swap, if_neg (show parent (parent pos) ≠ pos by omega),
      if_neg hlt'.ne, if_neg hne]
    by_cases hipos : i = pos
    · subst hipos
      simpa using htop
    · rw [if_neg hipos]
      have hold := h.edges i hi hipos hi' (hpi ▸ hp)
      simp only [hpi] at hold
      exact trans_of le hold htop

theorem siftUp_isHeap (h : UpReady le a pos) : IsHeap le (siftUp le a pos) := by
  fun_induction siftUp le a pos with
  | case1 a pos hb hpos hp hle =>
    intro i hi hi' hp'
    by_cases hipos : i = pos
    · subst hipos
      exact hle
    · exact h.edges i hi hipos hi' hp'
  | case2 a pos hb hpos hp hle ih => exact ih (h.swap hb.1 hpos hp hle)
  | case3 a pos hb =>
    intro i hi hi' hp'
    exact h.edges i hi (by omega) hi' hp'

omit [DecidableRel le] [IsTrans α le] [Std.Total le] in
/-- The element changes places with a child that no other child exceeds. -/
theorem DownReady.swap (h : DownReady le a pos) (hi : 0 < i) (hpar : parent i = pos)
    (hpos : pos < a.size) (hc : i < a.size)
    (hmax : ∀ j, 0 < j → parent j = pos → Below le a j i) :
    DownReady le (a.swap pos i) i := by
  have hlt := parent_lt hi
  rw [hpar] at hlt
  refine ⟨?_, ?_⟩
  · intro j hj hne hpne hj' hp'
    rw [Array.size_swap] at hj' hp'
    have hpj := parent_lt hj
    rw [Array.getElem_swap, Array.getElem_swap]
    by_cases hjpos : j = pos
    · subst hjpos
      have hold := h.grand i hi hpar hj hc (by simpa using hp')
      simpa [hpj.ne, hpne] using hold
    · rw [if_neg hjpos, if_neg hne, if_neg hpne]
      by_cases hpp : parent j = pos
      · have hold := hmax j hj hpp hj' hc
        simpa [hpp] using hold
      · rw [if_neg hpp]
        exact h.edges j hj hjpos hpp hj' hp'
  · intro j hj hpj _ hj' hp'
    rw [Array.size_swap] at hj' hp'
    have hltj := parent_lt hj
    have hold := h.edges j hj (by omega) (by omega) hj' (hpj ▸ hc)
    simp only [hpj] at hold
    rw [Array.getElem_swap, Array.getElem_swap, if_neg (show j ≠ pos by omega),
      if_neg (show j ≠ i by omega), if_pos hpar]
    exact hold

omit [DecidableRel le] [IsTrans α le] [Std.Total le] in
/-- Without a child the element is at the bottom. -/
theorem DownReady.upReady (h : DownReady le a pos) (hleaf : a.size ≤ 2 * pos + 1) :
    UpReady le a pos := by
  refine ⟨?_, h.grand⟩
  intro i hi hne hi' hp'
  apply h.edges i hi hne
  unfold parent
  omega

theorem siftDownToBottom_isHeap (h : DownReady le a pos) :
    IsHeap le (siftDownToBottom le a pos) := by
  have hparent : ∀ p i, 0 < i → (parent i = p ↔ i = 2 * p + 1 ∨ i = 2 * p + 2) := by
    intro p i hi
    unfold parent
    omega
  fun_induction siftDownToBottom le a pos with
  | case1 a pos child hb hc hp hle ih =>
    apply ih
    apply h.swap (by omega) ((hparent _ _ (by omega)).2 (.inr rfl)) hp hb
    intro j hj hpj hj' _
    rcases (hparent pos j hj).1 hpj with rfl | rfl
    · exact hle
    · exact (total_of le _ _).elim id id
  | case2 a pos child hb hc hp hle ih =>
    apply ih
    apply h.swap (by omega) ((hparent _ _ (by omega)).2 (.inl rfl)) hp hc
    intro j hj hpj hj' _
    rcases (hparent pos j hj).1 hpj with rfl | rfl
    · exact (total_of le _ _).elim id id
    · exact (total_of le _ _).resolve_left hle
  | case3 a pos child hb hlast hp =>
    have hc : child < a.size := by omega
    have hdown : DownReady le (a.swap pos child) child := by
      apply h.swap (by omega) ((hparent _ _ (by omega)).2 (.inl rfl)) hp hc
      intro j hj hpj hj' _
      rcases (hparent pos j hj).1 hpj with rfl | rfl
      · exact (total_of le _ _).elim id id
      · omega
    exact siftUp_isHeap (hdown.upReady (by rw [Array.size_swap]; omega))
  | case4 a pos child hb hlast => exact siftUp_isHeap (h.upReady (by omega))

omit [DecidableRel le] in
/-- The root is the greatest element. -/
theorem IsHeap.below_root (h : IsHeap le a) (i : ℕ) : Below le a i 0 := by
  induction i using Nat.strong_induction_on with
  | _ i ih =>
    intro hi h0
    rcases Nat.eq_zero_or_pos i with rfl | hpos
    · exact (total_of le _ _).elim id id
    · have hlt := parent_lt hpos
      exact trans_of le (h i hpos hi (hlt.trans hi)) (ih _ hlt _ h0)

omit [DecidableRel le] [IsTrans α le] [Std.Total le] in
theorem isHeap_empty : IsHeap le (#[] : Array α) := by
  intro i _ hi
  cases hi

theorem push_isHeap (h : IsHeap le a) (x : α) : IsHeap le (push le a x) := by
  apply siftUp_isHeap
  refine ⟨?_, ?_⟩
  · intro i hi hne hi' hp'
    rw [Array.size_push] at hi'
    have hlt := parent_lt hi
    rw [Array.getElem_push_lt (show i < a.size by omega),
      Array.getElem_push_lt (show parent i < a.size by omega)]
    exact h i hi _ _
  · intro i hi hpi _ hi' _
    rw [Array.size_push] at hi'
    have := parent_lt hi
    omega

/-- `pop` returns the greatest element and leaves a heap. -/
theorem pop_isHeap {m : α} {rest : Array α} (h : IsHeap le a) (hpop : pop le a = some (m, rest)) :
    IsHeap le rest ∧ ∀ x ∈ a.toList, le x m := by
  obtain ⟨item, hitem, -⟩ := Option.map_eq_some_iff.1 hpop
  obtain ⟨b, rfl⟩ := Array.back?_eq_some_iff.1 hitem
  have hmax : ∀ x ∈ (b.push item).toList, ∀ h0 : 0 < (b.push item).size, le x (b.push item)[0] := by
    intro x hx h0
    obtain ⟨i, hi, rfl⟩ := List.getElem_of_mem hx
    exact h.below_root i (by simpa using hi) h0
  rcases Nat.eq_zero_or_pos b.size with hsize | hsize
  · rw [pop_push_of_empty le item hsize] at hpop
    obtain ⟨rfl, rfl⟩ := Prod.mk.inj (Option.some.inj hpop)
    obtain rfl := Array.eq_empty_of_size_eq_zero hsize
    exact ⟨isHeap_empty, fun x hx => hmax x hx (by simp)⟩
  · rw [pop_push le item hsize] at hpop
    obtain ⟨rfl, rfl⟩ := Prod.mk.inj (Option.some.inj hpop)
    refine ⟨siftDownToBottom_isHeap ⟨?_, ?_⟩, ?_⟩
    · intro i hi hne hpne hi' hp'
      rw [Array.size_set] at hi' hp'
      have hold := h i hi (by simp; omega) (by simp; omega)
      rw [Array.getElem_push_lt hi', Array.getElem_push_lt hp'] at hold
      simpa [Array.getElem_set, Ne.symm hne, Ne.symm hpne] using hold
    · intro i _ _ h0
      omega
    · intro x hx
      have := hmax x hx (by simp)
      rwa [Array.getElem_push_lt hsize] at this

end Order

section Bounded

/-- Push, and drop the greatest element if there are more than `k`. -/
def pushBounded (k : ℕ) (a : Array α) (x : α) : Array α :=
  let a := push le a x
  if k < a.size then (pop le a).elim a Prod.snd else a

variable {le} [IsTrans α le] [Std.Total le] {k : ℕ} {l : List α} {a : Array α}

theorem pushBounded_isHeap (h : IsHeap le a) (x : α) : IsHeap le (pushBounded le k a x) := by
  have hpush := push_isHeap h x
  unfold pushBounded
  dsimp only
  split_ifs with hk
  · cases hpop : pop le (push le a x) with
    | none => exact hpush
    | some r => exact (pop_isHeap hpush hpop).1
  · exact hpush

theorem pushBounded_selects (h : IsHeap le a) (hs : Selects le k l a.toList) (x : α) :
    Selects le k (l ++ [x]) (pushBounded le k a x).toList := by
  have hpush := push_perm le a x
  have hsize : (push le a x).size = a.size + 1 := by simpa using hpush.length_eq
  have hle := hs.length_le
  rw [Array.length_toList] at hle
  unfold pushBounded
  dsimp only
  split_ifs with hk
  · cases hpop : pop le (push le a x) with
    | none =>
      have hnone : (push le a x).back? = none := Option.map_eq_none_iff.1 hpop
      rw [Array.back?_eq_none_iff] at hnone
      simp [hnone] at hsize
    | some r =>
      apply hs.replace (m := r.1) (by simp; omega) ((pop_perm le hpop).trans hpush)
      intro y hy
      exact (pop_isHeap (push_isHeap h x) hpop).2 y (hpush.mem_iff.2 hy)
  · exact hs.add (by simp; omega) hpush

/-- The `k` least elements of a list, in the order of the heap's array. -/
def keepLeast (le : α → α → Prop) [DecidableRel le] (k : ℕ) (l : List α) : Array α :=
  l.foldl (pushBounded le k) #[]

theorem keepLeast_selects (l : List α) : Selects le k l (keepLeast le k l).toList := by
  have hrun : IsHeap le (keepLeast le k l) ∧ Selects le k l (keepLeast le k l).toList := by
    induction l using List.reverseRecOn with
    | nil => exact ⟨isHeap_empty, .nil⟩
    | append_singleton l x ih =>
      rw [keepLeast, List.foldl_append, List.foldl_cons, List.foldl_nil, ← keepLeast]
      exact ⟨pushBounded_isHeap ih.1 x, pushBounded_selects ih.1 ih.2 x⟩
  exact hrun.2

end Bounded

end BinaryHeap

end Lib
