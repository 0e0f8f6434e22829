import Mathlib.Data.List.AList
import RtbBidder.Lib.SortedSet

/-! Maps that a loop over rows builds, one entry per key. A row either replaces
the entry of its key or is merged into it; inverted indices, from keys to the
sets of ids posted under them, are built both ways. -/

namespace Lib

variable {κ ρ β : Type*} [DecidableEq κ]

section Build

variable (key : ρ → κ)

/-- Insert the rows one after another. -/
def insertRows (val : ρ → β) (rows : List ρ) (m : AList fun _ : κ => β) : AList fun _ : κ => β :=
  rows.foldl (fun m r => m.insert (key r) (val r)) m

/-- Rows with keys of their own: an entry is the value of the row of that key. -/
theorem lookup_insertRows (val : ρ → β) (rows : List ρ) (m : AList fun _ : κ => β)
    (hd : (rows.map key).Nodup) {k : κ} {b : β} :
    (insertRows key val rows m).lookup k = some b ↔
      (∃ r ∈ rows, key r = k ∧ val r = b) ∨ (k ∉ rows.map key ∧ m.lookup k = some b) := by
  induction rows generalizing m with
  | nil => simp [insertRows]
  | cons r rows ih =>
    obtain ⟨hr, hd⟩ := List.nodup_cons.1 hd
    rw [insertRows, List.foldl_cons, ← insertRows, ih _ hd]
    by_cases hk : k = key r
    · subst hk
      have hno : ¬ ∃ r' ∈ rows, key r' = key r ∧ val r' = b :=
        fun ⟨r', hr', he, _⟩ => hr (List.mem_map.2 ⟨r', hr', he⟩)
      simp [hno, hr, AList.lookup_insert]
    · have hk' : key r ≠ k := Ne.symm hk
      simp [AList.lookup_insert_ne hk, hk, hk']

/-- Merge the rows into the entries of their keys: `entry(k).or_default()`,
updated in place. -/
def mergeRows (d : β) (op : β → ρ → β) (rows : List ρ) (m : AList fun _ : κ => β) :
    AList fun _ : κ => β :=
  rows.foldl (fun m r => m.insert (key r) (op ((m.lookup (key r)).getD d) r)) m

/-- An entry merges the rows of its key, in their order. -/
theorem lookup_mergeRows (d : β) (op : β → ρ → β) (rows : List ρ) (m : AList fun _ : κ => β)
    (k : κ) :
    ((mergeRows key d op rows m).lookup k).getD d =
      (rows.filter (key · = k)).foldl op ((m.lookup k).getD d) := by
  induction rows generalizing m with
  | nil => rfl
  | cons r rows ih =>
    rw [mergeRows, List.foldl_cons, ← mergeRows, ih]
    by_cases hk : key r = k
    · subst hk
      simp [AList.lookup_insert]
    · have hk' : k ≠ key r := Ne.symm hk
      simp [AList.lookup_insert_ne hk', hk]

end Build

section Postings

variable {α : Type*} [LT α]

/-- The set posted under a key, empty where the index has no entry. -/
def posted (ix : AList fun _ : κ => SortedSet α) (k : κ) : SortedSet α := (ix.lookup k).getD .empty

variable [LE α] [Std.IsLinearOrder α] [Std.LawfulOrderLT α] [DecidableLT α]
  (key : ρ → κ) (ids : ρ → SortedSet α) (rows : List ρ) {k : κ} {x : α}

omit [LE α] [Std.IsLinearOrder α] [Std.LawfulOrderLT α] [DecidableLT α] in
theorem mem_posted_insertRows (hd : (rows.map key).Nodup) :
    x ∈ posted (insertRows key ids rows ∅) k ↔ ∃ r ∈ rows, key r = k ∧ x ∈ ids r := by
  have hl : ∀ s, (insertRows key ids rows ∅).lookup k = some s ↔
      ∃ r ∈ rows, key r = k ∧ ids r = s := by
    intro s
    simpa using lookup_insertRows key ids rows ∅ hd (k := k) (b := s)
  unfold posted
  cases he : (insertRows key ids rows ∅).lookup k with
  | none =>
    refine ⟨fun h => absurd h SortedSet.notMem_empty, fun ⟨r, hr, hk, _⟩ => ?_⟩
    rw [(hl (ids r)).2 ⟨r, hr, hk, rfl⟩] at he
    cases he
  | some s =>
    obtain ⟨r, hr, hk, rfl⟩ := (hl s).1 he
    refine ⟨fun h => ⟨r, hr, hk, h⟩, fun ⟨r', hr', hk', hx⟩ => ?_⟩
    have := he.symm.trans ((hl (ids r')).2 ⟨r', hr', hk', rfl⟩)
    rw [Option.some.injEq] at this
    rwa [Option.getD_some, this]

theorem mem_foldl_union (s : SortedSet α) :
    x ∈ rows.foldl (fun s r => s.union (ids r)) s ↔ x ∈ s ∨ ∃ r ∈ rows, x ∈ ids r := by
  induction rows generalizing s with
  | nil => simp
  | cons r rows ih => simp [ih, or_assoc]

theorem mem_posted_mergeRows :
    x ∈ posted (mergeRows key SortedSet.empty (fun s r => s.union (ids r)) rows ∅) k ↔
      ∃ r ∈ rows, key r = k ∧ x ∈ ids r := by
  rw [posted, lookup_mergeRows, mem_foldl_union]
  simp [and_assoc]

end Postings

end Lib
