import RtbBidder.Lib.Nearest
import RtbBidder.Spec.Scoring

/-! The `f32` arithmetic of the scorers as rounded rational arithmetic, and with it the value
of the feature-weighted score: it does not fall as the price rises, and it is between 0 and 1
for a price that is not negative. -/

namespace RTB

namespace FeatureWeightedScorer

open Lib.Format (binary32)

variable {ctx : ScoringContext} {c c' : AdCandidate}

/-- The weights of `default` as they are stored. -/
def priceWeight : ℚ := 13421773 / 33554432

def overlapWeight : ℚ := 10066330 / 16777216

theorem default_weights : default.weightPrice = .fin priceWeight ∧
    default.weightSegmentOverlap = .fin overlapWeight := by decide +kernel

/-- What the score is computed from besides the price. -/
def overlapRatio (ctx : ScoringContext) (c : AdCandidate) : ℚ :=
  if 0 < ctx.segmentIds.length then min (binary32.nearest ((c.campaignId % 10).toNat / 10)) 1
  else 1 / 2

def normPrice (price : ℤ) : ℚ := min (binary32.nearest (binary32.nearest price / 1000)) 1

def scoreValue (price : ℤ) (overlap : ℚ) : ℚ :=
  binary32.nearest (binary32.nearest (priceWeight * normPrice price) +
    binary32.nearest (overlapWeight * overlap))

theorem overlapRatio_mem (ctx : ScoringContext) (c : AdCandidate) :
    0 ≤ overlapRatio ctx c ∧ overlapRatio ctx c ≤ 1 := by
  unfold overlapRatio
  split_ifs
  · exact ⟨le_min (binary32.nearest_nonneg (by positivity)) zero_le_one, min_le_right ..⟩
  · norm_num

/-- The overlap as the scorer computes it. -/
theorem overlap_eq (ctx : ScoringContext) (c : AdCandidate) :
    (if 0 < ctx.segmentIds.length then (overlapOf c.campaignId).min (.ofRat 1)
      else .ofRat (1 / 2)) = .fin (overlapRatio ctx c) := by
  have hhalf : (.ofRat (1 / 2) : F32) = .fin (1 / 2) := by
    have hkeep : binary32.nearest (2 ^ (-1 : ℤ)) = 2 ^ (-1 : ℤ) := binary32.nearest_zpow (by decide)
    rw [one_div, ← zpow_neg_one, Lib.Binary.ofRat_of_le (e := 64) (by decide) (by norm_num), hkeep]
  have hdigit : (c.campaignId % 10).toNat < 10 := by
    rw [UInt32.toNat_mod]
    exact Nat.mod_lt _ (by decide)
  have hquot : (.ofRat (c.campaignId % 10).toNat : F32).div (.ofRat 10) =
      .fin (binary32.nearest ((c.campaignId % 10).toNat / 10)) :=
    Lib.Binary.div_natCast (hdigit.trans (by decide)) (by decide : 10 < 2 ^ binary32.precision)
      (by decide)
  unfold overlapRatio
  split_ifs
  · rw [overlapOf, hquot, Lib.Binary.ofRat_one, Lib.Binary.min_fin]
  · exact hhalf

theorem abs_price_le (price : Int32) : |(price.toInt : ℚ)| ≤ 2 ^ 64 := by
  have hlo : -(2 : ℚ) ^ 31 ≤ price.toInt := by exact_mod_cast price.le_toInt
  have hhi : (price.toInt : ℚ) < 2 ^ 31 := by exact_mod_cast price.toInt_lt
  have hcap : (2 : ℚ) ^ 31 ≤ 2 ^ 64 := by norm_num
  exact abs_le.2 ⟨by linarith, by linarith⟩

theorem abs_normPrice_le (price : Int32) : |binary32.nearest price.toInt / 1000| ≤ 2 ^ 64 := by
  have hle := binary32.abs_nearest_le (abs_price_le price)
  rw [abs_div, abs_of_pos (by norm_num : (0 : ℚ) < 1000)]
  linarith [abs_nonneg (binary32.nearest price.toInt)]

/-- The normalised price as the scorer computes it. -/
theorem normPrice_eq (price : Int32) :
    ((.ofRat price.toInt : F32).div default.maxBidPriceCents).min (.ofRat 1) =
      .fin (normPrice price.toInt) := by
  have hmax : default.maxBidPriceCents = .fin 1000 := Lib.Binary.ofRat_ofNat 1000 (by decide)
  rw [hmax, Lib.Binary.ofRat_one, Lib.Binary.ofRat_of_le (by decide) (abs_price_le price),
    Lib.Binary.div_fin (by decide) (by norm_num) (abs_normPrice_le price), Lib.Binary.min_fin,
    normPrice]

theorem default_score (ctx : ScoringContext) (c : AdCandidate) :
    default.score ctx c = .fin (scoreValue c.bidPriceCents.toInt (overlapRatio ctx c)) := by
  -- no operation comes near an overflow
  have hterm : |priceWeight * normPrice c.bidPriceCents.toInt| ≤ 2 ^ 63 := by
    obtain ⟨hlo, hhi⟩ := abs_le.1 (binary32.abs_nearest_le (abs_normPrice_le c.bidPriceCents))
    have hmin : -(2 : ℚ) ^ 64 ≤ normPrice c.bidPriceCents.toInt := le_min hlo (by norm_num)
    have hmin' : normPrice c.bidPriceCents.toInt ≤ 1 := min_le_right ..
    rw [priceWeight]
    exact abs_le.2 ⟨by linarith, by linarith [show (1 : ℚ) ≤ 2 ^ 63 by norm_num]⟩
  have hover : |overlapWeight * overlapRatio ctx c| ≤ 2 ^ 63 := by
    obtain ⟨hlo, hhi⟩ := overlapRatio_mem ctx c
    rw [overlapWeight, abs_of_nonneg (by positivity)]
    linarith [show (1 : ℚ) ≤ 2 ^ 63 by norm_num]
  have hwide : (2 : ℚ) ^ 64 = 2 ^ 63 + 2 ^ 63 := by norm_num
  have hsum := (abs_add_le _ _).trans
    (add_le_add (binary32.abs_nearest_le hterm) (binary32.abs_nearest_le hover))
  have hfirst := Lib.Binary.mul_fin (f := binary32) (by decide) hterm
  have hsecond := Lib.Binary.mul_fin (f := binary32) (by decide) hover
  calc default.score ctx c
      = (default.weightPrice.mul
          (((.ofRat c.bidPriceCents.toInt : F32).div default.maxBidPriceCents).min (.ofRat 1))).add
        (default.weightSegmentOverlap.mul
          (if 0 < ctx.segmentIds.length then (overlapOf c.campaignId).min (.ofRat 1)
            else .ofRat (1 / 2))) := rfl
    _ = (.fin (binary32.nearest (priceWeight * normPrice c.bidPriceCents.toInt)) : F32).add
        (.fin (binary32.nearest (overlapWeight * overlapRatio ctx c))) := by
      rw [overlap_eq, normPrice_eq, default_weights.1, default_weights.2, hfirst, hsecond]
    _ = .fin (scoreValue c.bidPriceCents.toInt (overlapRatio ctx c)) :=
      Lib.Binary.add_fin (by decide) (hwide ▸ hsum)

theorem scoreValue_mono {price price' : ℤ} {overlap overlap' : ℚ} (hp : price ≤ price')
    (ho : overlap ≤ overlap') : scoreValue price overlap ≤ scoreValue price' overlap' := by
  have hprice : (price : ℚ) ≤ price' := by exact_mod_cast hp
  have hnorm : normPrice price ≤ normPrice price' := min_le_min_right 1
    (binary32.nearest_mono (div_le_div_of_nonneg_right (binary32.nearest_mono hprice) (by norm_num)))
  have hweight : 0 ≤ priceWeight := by norm_num [priceWeight]
  have hweight' : 0 ≤ overlapWeight := by norm_num [overlapWeight]
  exact binary32.nearest_mono (add_le_add
    (binary32.nearest_mono (mul_le_mul_of_nonneg_left hnorm hweight))
    (binary32.nearest_mono (mul_le_mul_of_nonneg_left ho hweight')))

theorem overlapRatio_mono (h : ctx.segmentIds = [] ∨ c.campaignId % 10 ≤ c'.campaignId % 10) :
    overlapRatio ctx c ≤ overlapRatio ctx c' := by
  unfold overlapRatio
  split_ifs with hsegs
  · have hdigit := h.resolve_left (List.length_pos_iff.1 hsegs)
    have hratio : ((c.campaignId % 10).toNat : ℚ) / 10 ≤ (c'.campaignId % 10).toNat / 10 :=
      div_le_div_of_nonneg_right (by exact_mod_cast UInt32.le_iff_toNat_le.1 hdigit) (by norm_num)
    exact min_le_min_right 1 (binary32.nearest_mono hratio)
  · exact le_rfl

theorem scoreValue_mem {price : ℤ} {overlap : ℚ} (hp : 0 ≤ price) (ho : 0 ≤ overlap)
    (ho' : overlap ≤ 1) : 0 ≤ scoreValue price overlap ∧ scoreValue price overlap ≤ 1 := by
  -- the stored weights add up to more than 1, by less than half a unit
  obtain ⟨hweight, hweight', hfull⟩ : binary32.nearest priceWeight = priceWeight ∧
      binary32.nearest overlapWeight = overlapWeight ∧
      binary32.nearest (priceWeight + overlapWeight) = 1 := by
    decide +kernel
  have hpos : 0 ≤ priceWeight := by norm_num [priceWeight]
  have hpos' : 0 ≤ overlapWeight := by norm_num [overlapWeight]
  have hnorm : 0 ≤ normPrice price := by
    have hq : (0 : ℚ) ≤ price := by exact_mod_cast hp
    have hquot := div_nonneg (binary32.nearest_nonneg hq) (by norm_num : (0 : ℚ) ≤ 1000)
    exact le_min (binary32.nearest_nonneg hquot) zero_le_one
  constructor
  · exact binary32.nearest_nonneg (add_nonneg (binary32.nearest_nonneg (mul_nonneg hpos hnorm))
      (binary32.nearest_nonneg (mul_nonneg hpos' ho)))
  · have hterm := binary32.nearest_mono (mul_le_of_le_one_right hpos (min_le_right _ 1) :
      priceWeight * normPrice price ≤ priceWeight)
    have hover := binary32.nearest_mono (mul_le_of_le_one_right hpos' ho')
    rw [hweight] at hterm
    rw [hweight'] at hover
    exact hfull ▸ binary32.nearest_mono (add_le_add hterm hover)

/-- The score of a candidate whose price is not negative. -/
theorem default_score_inUnit (ctx : ScoringContext) (h : 0 ≤ c.bidPriceCents.toInt) :
    (default.score ctx c).InUnit := by
  rw [default_score]
  obtain ⟨hlo, hhi⟩ := overlapRatio_mem ctx c
  exact scoreValue_mem h hlo hhi

end FeatureWeightedScorer

end RTB
