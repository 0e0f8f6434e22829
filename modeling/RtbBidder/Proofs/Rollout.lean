import RtbBidder.Proofs.ScorerOutput

/-! Who is in the treatment arm of an experiment. The share is a number of the config that is
rounded twice on its way to `treatment_share`, and each user's bucket is a rounded quotient;
for shares in steps of a ten-thousandth the roundings cancel out. -/

namespace RTB

open Lib (ulpExp)
open Lib.Format (binary32 binary64 nearest_binary32 nearest_binary64)

/-- The `treatment_share` of a config that gives `k` ten-thousandths to the treatment: `serde`
fills the `f32` field from the `f64` that the config's number is read as. -/
def shareOf (k : ℕ) : F32 := (.ofRat (k / 10000) : Lib.F64).convert

section Quotients

variable {k b : ℕ}

theorem log_share (hk : 0 < k) (hk' : k ≤ 10000) :
    -14 ≤ Int.log 2 ((k : ℚ) / 10000) ∧ Int.log 2 ((k : ℚ) / 10000) ≤ 0 := by
  have hkq : (1 : ℚ) ≤ k := by exact_mod_cast hk
  have hkq' : (k : ℚ) ≤ 10000 := by exact_mod_cast hk'
  have hpos : (0 : ℚ) < (k : ℚ) / 10000 := by positivity
  constructor
  · rw [← Int.zpow_le_iff_le_log (by norm_num) hpos]
    norm_num
    linarith
  · have hlt : (k : ℚ) / 10000 < ((2 : ℕ) : ℚ) ^ (1 : ℤ) := by
      norm_num
      linarith
    have := (Int.lt_zpow_iff_log_lt (by norm_num) hpos).1 hlt
    omega

theorem ulpExp_share {p : ℕ} {emin : ℤ} (hk : 0 < k) (hk' : k ≤ 10000) (hp : emin ≤ -13 - p) :
    ulpExp p emin ((k : ℚ) / 10000) = Int.log 2 ((k : ℚ) / 10000) + 1 - p := by
  have hlog := (log_share hk hk').1
  rw [ulpExp, abs_of_pos (by positivity)]
  omega

/-- The two roundings of the share come to one. -/
theorem nearest_share (hk : 0 < k) (hk' : k ≤ 10000) :
    binary32.nearest (binary64.nearest ((k : ℚ) / 10000)) = binary32.nearest ((k : ℚ) / 10000) := by
  obtain ⟨hlo, hhi⟩ := log_share hk hk'
  have hcast : ((10000 : ℕ) : ℚ) = 10000 := by norm_num
  rw [← hcast] at hlo hhi ⊢
  rw [nearest_binary64, nearest_binary32, nearest_binary32]
  refine Lib.nearest_nearest_div (by norm_num) hk (by norm_num) (by omega) (by omega) ?_
  rw [hcast, ulpExp_share hk hk' (by norm_num), ulpExp_share hk hk' (by norm_num)]
  have hsplit : (2 : ℚ) ^ (Int.log 2 ((k : ℚ) / 10000) + 1 - (24 : ℕ)) =
      2 ^ 29 * 2 ^ (Int.log 2 ((k : ℚ) / 10000) + 1 - (53 : ℕ)) := by
    rw [← zpow_natCast, ← zpow_add₀ (by norm_num)]
    congr 1
    push_cast
    omega
  rw [hsplit]
  have hpos : (0 : ℚ) < 2 ^ (Int.log 2 ((k : ℚ) / 10000) + 1 - (53 : ℕ)) := by positivity
  nlinarith

theorem shareOf_eq (hk' : k ≤ 10000) : shareOf k = .fin (binary32.nearest ((k : ℚ) / 10000)) := by
  have hshare : |(k : ℚ) / 10000| ≤ 2 ^ 0 := by
    rw [pow_zero, abs_of_nonneg (by positivity), div_le_one (by norm_num)]
    exact_mod_cast hk'
  have hunit := binary64.abs_nearest_le hshare
  have hround : binary32.nearest (binary64.nearest ((k : ℚ) / 10000)) =
      binary32.nearest ((k : ℚ) / 10000) := by
    rcases Nat.eq_zero_or_pos k with rfl | hk
    · rw [Nat.cast_zero, zero_div, binary64.nearest_zero]
    · exact nearest_share hk hk'
  rw [shareOf, Lib.Binary.ofRat_of_le (by decide) hshare, Lib.Binary.convert,
    Lib.Binary.ofRat_of_le (by decide) hunit, hround]

theorem nearest_share_pos (hk : 0 < k) : 0 < binary32.nearest ((k : ℚ) / 10000) := by
  have hle : (2 : ℚ) ^ (-14 : ℤ) ≤ (k : ℚ) / 10000 := by
    have : (1 : ℚ) ≤ k := by exact_mod_cast hk
    norm_num
    linarith
  have hkeep : binary32.nearest (2 ^ (-14 : ℤ)) = 2 ^ (-14 : ℤ) :=
    binary32.nearest_zpow (by decide)
  calc (0 : ℚ) < 2 ^ (-14 : ℤ) := by positivity
    _ ≤ binary32.nearest ((k : ℚ) / 10000) := hkeep ▸ binary32.nearest_mono hle

/-- Rounding keeps the buckets apart. -/
theorem nearest_bucket_lt_iff (hk' : k ≤ 10000) :
    binary32.nearest ((b : ℚ) / 10000) < binary32.nearest ((k : ℚ) / 10000) ↔ b < k := by
  constructor
  · intro hlt
    by_contra hle
    have hq : (k : ℚ) ≤ b := by exact_mod_cast not_lt.1 hle
    exact hlt.not_ge (binary32.nearest_mono (by gcongr))
  · intro hlt
    rcases Nat.eq_zero_or_pos b with rfl | hb
    · rw [Nat.cast_zero, zero_div, binary32.nearest_zero]
      exact nearest_share_pos hlt
    · have hlog := (log_share hb (hlt.le.trans hk')).1
      rw [nearest_binary32, nearest_binary32]
      refine Lib.nearest_lt (by norm_num) (by positivity) (by omega) ?_
      have hnext : (b : ℚ) + 1 ≤ k := by exact_mod_cast hlt
      have hbq : (b : ℚ) ≤ 10000 := by exact_mod_cast hlt.le.trans hk'
      rw [div_mul_eq_mul_div]
      gcongr
      linarith

end Quotients

section Arms

variable {k : ℕ} {seed userId : String}

/-- The bucket of a user. -/
def bucketOf (seed userId : String) : ℕ := (fnv1a seed userId % 10000).toNat

theorem bucketOf_lt (seed userId : String) : bucketOf seed userId < 10000 := by
  rw [bucketOf, UInt64.toNat_mod]
  exact Nat.mod_lt _ (by decide)

theorem bucket_eq (seed userId : String) :
    (.ofRat (fnv1a seed userId % 10000).toNat : F32).div (.ofRat 10000) =
      .fin (binary32.nearest ((bucketOf seed userId : ℚ) / 10000)) := by
  have hlt := (bucketOf_lt seed userId).trans (by decide : 10000 < 2 ^ binary32.precision)
  exact Lib.Binary.div_natCast hlt (by decide) (by decide)

/-- Only the full share is not below 1. -/
theorem nearest_share_lt_one : binary32.nearest ((k : ℚ) / 10000) < 1 ↔ k < 10000 := by
  have hfull : binary32.nearest (((10000 : ℕ) : ℚ) / 10000) = 1 := by
    have hone : ((10000 : ℕ) : ℚ) / 10000 = (1 : ℕ) := by norm_num
    rw [hone, binary32.nearest_natCast (by decide), Nat.cast_one]
  rw [← hfull, nearest_bucket_lt_iff le_rfl]

/-- A share of `k` ten-thousandths puts exactly the users of the first `k` buckets into the
treatment, and no one without an id. -/
theorem treatment_iff_bucket (seed userId : String) (hk : k ≤ 10000) :
    pickArm (shareOf k) seed userId = .Treatment ↔ userId ≠ "" ∧ bucketOf seed userId < k := by
  have hbucket := bucketOf_lt seed userId
  rw [pickArm, shareOf_eq hk, Lib.Binary.ofRat_one, bucket_eq]
  by_cases hu : userId = ""
  · rw [if_pos (.inl hu)]
    exact ⟨nofun, fun h => absurd hu h.1⟩
  rcases Nat.eq_zero_or_pos k with rfl | hpos
  · have hzero : binary32.nearest (((0 : ℕ) : ℚ) / 10000) = 0 := by
      rw [Nat.cast_zero, zero_div, binary32.nearest_zero]
    rw [hzero, if_pos (.inr ((Lib.Binary.ge_fin 0 0).2 le_rfl))]
    exact ⟨nofun, fun h => absurd h.2 (Nat.not_lt_zero _)⟩
  have hsome : ¬ (userId = "" ∨ (.fin 0 : F32).ge (.fin (binary32.nearest ((k : ℚ) / 10000))) = true) := by
    rw [Lib.Binary.ge_fin, not_or]
    exact ⟨hu, not_le.2 (nearest_share_pos hpos)⟩
  rw [if_neg hsome]
  by_cases hfull : k = 10000
  · rw [if_pos ((Lib.Binary.ge_fin _ _).2 (not_lt.1 fun hlt => absurd (nearest_share_lt_one.1 hlt)
      (by omega)))]
    exact ⟨fun _ => ⟨hu, by omega⟩, fun _ => rfl⟩
  · have hpart : ¬ (.fin (binary32.nearest ((k : ℚ) / 10000)) : F32).ge (.fin 1) = true := by
      rw [Lib.Binary.ge_fin, not_le, nearest_share_lt_one]
      omega
    have hcmp : (.fin (binary32.nearest ((bucketOf seed userId : ℚ) / 10000)) : F32).partialCmp
        (.fin (binary32.nearest ((k : ℚ) / 10000))) = some .lt ↔ bucketOf seed userId < k := by
      rw [Lib.Binary.partialCmp, Option.some.injEq, compare_lt_iff_lt, nearest_bucket_lt_iff hk]
    rw [if_neg hpart]
    dsimp only
    by_cases hin : bucketOf seed userId < k
    · rw [if_pos (hcmp.2 hin)]
      exact ⟨fun _ => ⟨hu, hin⟩, fun _ => rfl⟩
    · rw [if_neg fun h => hin (hcmp.1 h)]
      exact ⟨nofun, fun h => absurd h.2 hin⟩

/-- An experiment with a share of `k` ten-thousandths scores the users of the first `k`
buckets with the treatment and all others, those without an id among them, with the control.
A larger share so keeps everyone in the treatment who is there. -/
theorem rollout_exact (control treatment : Scorer) (seed : String) (hk : k ≤ 10000) (ln : Ln)
    (infer : ℕ → Inference) (cs : List AdCandidate) (ctx : ScoringContext) (n : ℕ) :
    (Scorer.abTest control treatment (shareOf k) seed).scoreAll ln infer cs ctx n =
      if ctx.userId ≠ "" ∧ bucketOf seed ctx.userId < k then
        treatment.scoreAll ln infer cs ctx n
      else control.scoreAll ln infer cs ctx n := by
  have harm := treatment_iff_bucket seed ctx.userId hk
  rw [Scorer.scoreAll]
  split_ifs with h
  · rw [harm.2 h]
  · cases hpick : pickArm (shareOf k) seed ctx.userId with
    | Control => rfl
    | Treatment => exact absurd (harm.1 hpick) h

/-- The model without a fallback for a tenth of the users, of whom this one is. -/
theorem rollout_exact_tenth :
    treatedContext.userId ≠ "" ∧ bucketOf "rollout" treatedContext.userId < 1000 ∧
      (Scorer.abTest (.featureWeighted .default) (.ml defaultBatches) (shareOf 1000)
        "rollout").scoreAll id flakyModel treatedCandidates treatedContext 0 =
      (Scorer.ml defaultBatches).scoreAll id flakyModel treatedCandidates treatedContext 0 := by
  have huser : treatedContext.userId ≠ "" := by decide
  have hbucket : bucketOf "rollout" treatedContext.userId < 1000 := by decide
  refine ⟨huser, hbucket, ?_⟩
  rw [rollout_exact _ _ _ (by norm_num), if_pos ⟨huser, hbucket⟩]

end Arms

end RTB
