import Mathlib.Tactic

/-! A key-value store whose entries expire at a set time. -/

namespace Lib

structure Keyspace (κ α : Type) where
  entries : κ → Option (α × ℕ)

namespace Keyspace

variable {κ α : Type} [DecidableEq κ] {ks : Keyspace κ α} {now ttl : ℕ} {k : κ} {v : α}

def empty : Keyspace κ α := ⟨fun _ => none⟩

omit [DecidableEq κ] in
/-- The entry of a key with its expiry, while it lives. -/
def live (ks : Keyspace κ α) (now : ℕ) (k : κ) : Option (α × ℕ) :=
  (ks.entries k).filter fun e => now < e.2

def put (ks : Keyspace κ α) (k : κ) (v : α) (expires : ℕ) : Keyspace κ α :=
  ⟨Function.update ks.entries k (some (v, expires))⟩

/-- `SET NX EX`: whether the key was set. -/
def setNx (ks : Keyspace κ α) (now : ℕ) (k : κ) (v : α) (ttl : ℕ) : Bool × Keyspace κ α :=
  match ks.live now k with
  | some _ => (false, ks)
  | none => (true, ks.put k v (now + ttl))

omit [DecidableEq κ] in
theorem live_eq_some {e : α × ℕ} :
    ks.live now k = some e ↔ ks.entries k = some e ∧ now < e.2 := by
  simp [live, Option.filter_eq_some_iff]

omit [DecidableEq κ] in
/-- An entry that has expired does not come back. -/
theorem live_none_mono {t : ℕ} (h : ks.live now k = none) (ht : now ≤ t) : ks.live t k = none := by
  simp only [live, Option.filter_eq_none_iff, decide_eq_true_eq, not_lt] at h ⊢
  exact fun e he => (h e he).trans ht

theorem setNx_of_live {e : α × ℕ} (h : ks.live now k = some e) :
    ks.setNx now k v ttl = (false, ks) := by
  simp only [setNx, h]

theorem setNx_of_not_live (h : ks.live now k = none) :
    ks.setNx now k v ttl = (true, ks.put k v (now + ttl)) := by
  simp only [setNx, h]

theorem live_put (ks : Keyspace κ α) (k k' : κ) (v : α) (now expires : ℕ) :
    (ks.put k v expires).live now k' =
      if k' = k then (if now < expires then some (v, expires) else none) else ks.live now k' := by
  by_cases hk : k' = k
  · subst hk
    simp [live, put, Option.filter]
  · simp [live, put, hk]

end Keyspace

end Lib
