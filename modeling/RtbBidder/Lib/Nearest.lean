import RtbBidder.Lib.BinaryFloat

/-! Rounding to nearest keeps the order, keeps the values of the format and moves a value
of the normal range by at most half a unit of its last place. -/

namespace Lib

theorem roundEven_of_lt {p n : ℕ} (h : n < 2 ^ p) : roundEven p n = n := by
  have hlog : n = 0 ∨ n.log2 + 1 - p = 0 := by
    rcases Nat.eq_zero_or_pos n with h0 | hpos
    · exact .inl h0
    · have := (Nat.log2_lt hpos.ne').2 h
      exact .inr (by omega)
  rcases hlog with rfl | hlog
  · simp [roundEven]
  · simp [roundEven, hlog, Nat.mod_one]

/-- Rounding passes no multiple of a power of two above the unit, and moves by at most the
unit. -/
theorem roundEven_within {n e j m : ℕ} (p : ℕ) (he : n.log2 + 1 - p ≤ e) (hej : e ≤ j)
    (hm : m * 2 ^ j ≤ n) : m * 2 ^ j ≤ roundEven p n ∧ roundEven p n ≤ n + 2 ^ e := by
  have hpos : 0 < 2 ^ (n.log2 + 1 - p) := by positivity
  have hulp : 2 ^ (n.log2 + 1 - p) ≤ 2 ^ e := Nat.pow_le_pow_right (by norm_num) he
  obtain ⟨d, hd⟩ : 2 ^ (n.log2 + 1 - p) ∣ 2 ^ j := pow_dvd_pow 2 (he.trans hej)
  simp only [roundEven]
  generalize 2 ^ (n.log2 + 1 - p) = ulp at hpos hulp hd
  have hn : n / ulp * ulp + n % ulp = n := Nat.div_add_mod' n ulp
  have hlo : m * 2 ^ j ≤ n / ulp * ulp := by
    have hsplit : m * 2 ^ j = m * d * ulp := by rw [hd, mul_assoc, mul_comm d]
    rw [hsplit] at hm ⊢
    exact Nat.mul_le_mul_right _ ((Nat.le_div_iff_mul_le hpos).2 hm)
  split_ifs with h
  · rw [Nat.add_mul, Nat.one_mul]
    omega
  · omega

theorem halfEven_intCast (n : ℤ) : halfEven n = n := by
  simp [halfEven]

theorem halfEven_mem (x : ℚ) : halfEven x = ⌊x⌋ ∨ halfEven x = ⌊x⌋ + 1 := by
  simp only [halfEven]
  split_ifs
  · exact .inr rfl
  · exact .inl rfl

/-- The rounded value is at most half away. -/
theorem abs_halfEven_sub_le (x : ℚ) : |(halfEven x : ℚ) - x| ≤ 1 / 2 := by
  have hlo := Int.floor_le x
  have hhi := Int.lt_floor_add_one x
  simp only [halfEven]
  rw [abs_le]
  split_ifs with h
  · have hr : 1 / 2 ≤ x - ⌊x⌋ := by
      rcases h with h | h
      · exact h.le
      · exact h.1.ge
    push_cast
    constructor <;> linarith
  · have hr : x - ⌊x⌋ ≤ 1 / 2 := by
      by_contra hlt
      exact h (.inl (not_le.1 hlt))
    constructor <;> linarith

theorem halfEven_mono {x y : ℚ} (h : x ≤ y) : halfEven x ≤ halfEven y := by
  rcases (Int.floor_mono h).lt_or_eq with hlt | heq
  · rcases halfEven_mem x with hx | hx <;> rcases halfEven_mem y with hy | hy <;> omega
  · -- within one unit the remainder decides
    simp only [halfEven, ← heq]
    split_ifs with hx hy
    · exact le_rfl
    · refine absurd ?_ hy
      rcases hx with hx | ⟨hx, hodd⟩
      · exact .inl (hx.trans_le (by linarith))
      · rcases (show 1 / 2 ≤ y - ⌊x⌋ by linarith).lt_or_eq with hlt | he
        · exact .inl hlt
        · exact .inr ⟨he.symm, hodd⟩
    · omega
    · exact le_rfl

theorem halfEven_neg (x : ℚ) : halfEven (-x) = -halfEven x := by
  have hlo := Int.floor_le x
  have hhi := Int.lt_floor_add_one x
  rcases hlo.eq_or_lt with hint | hfrac
  · -- an integer
    rw [← hint, ← Int.cast_neg, halfEven_intCast, halfEven_intCast]
  · have hfloor : ⌊-x⌋ = -⌊x⌋ - 1 := by
      rw [Int.floor_eq_iff]
      push_cast
      constructor <;> linarith
    simp only [halfEven, hfloor]
    push_cast
    split_ifs with hneg hpos hpos
    · exfalso
      rcases hneg with hneg | ⟨hneg, hodd⟩ <;> rcases hpos with hpos | ⟨hpos, hodd'⟩
      · linarith
      · linarith
      · linarith
      · omega
    · omega
    · omega
    · exfalso
      simp only [not_or, not_and, not_lt] at hneg hpos
      have hhalf : x - ⌊x⌋ = 1 / 2 := by linarith [hneg.1, hpos.1]
      have h1 := hneg.2 (by linarith)
      have h2 := hpos.2 hhalf
      omega

/-- Rounding only depends on the half unit that a value is in. -/
theorem halfEven_congr {x y : ℚ} (h : ∀ m : ℤ, 2 * x < m ↔ 2 * y < m)
    (hx : ∀ m : ℤ, 2 * x ≠ m) (hy : ∀ m : ℤ, 2 * y ≠ m) : halfEven x = halfEven y := by
  have hfloor : ⌊x⌋ = ⌊y⌋ := by
    refine eq_of_forall_gt_iff fun n => ?_
    have hhalf := h (2 * n)
    push_cast at hhalf
    rw [Int.floor_lt, Int.floor_lt, ← mul_lt_mul_iff_right₀ (zero_lt_two (α := ℚ)), hhalf,
      mul_lt_mul_iff_right₀ zero_lt_two]
  have hmid := h (2 * ⌊y⌋ + 1)
  have hxmid := hx (2 * ⌊y⌋ + 1)
  have hymid := hy (2 * ⌊y⌋ + 1)
  push_cast at hmid hxmid hymid
  -- neither is a tie, so the remainder decides
  have hxtie : x - ⌊y⌋ ≠ 1 / 2 := fun htie => hxmid (by linarith)
  have hytie : y - ⌊y⌋ ≠ 1 / 2 := fun htie => hymid (by linarith)
  have hside : 1 / 2 < x - ⌊y⌋ ↔ 1 / 2 < y - ⌊y⌋ := by
    constructor
    · intro hlt
      by_contra hle
      have := hmid.2 (lt_of_le_of_ne (by linarith) hymid)
      linarith
    · intro hlt
      by_contra hle
      have := hmid.1 (lt_of_le_of_ne (by linarith) hxmid)
      linarith
  simp only [halfEven, hfloor, hside, hxtie, hytie, false_and, or_false]

/-- The exponent of the unit in the last place. -/
def ulpExp (p : ℕ) (emin : ℤ) (q : ℚ) : ℤ := max (Int.log 2 |q| + 1 - p) emin

/-- The nearest value with `p` bits, whatever its size. -/
def nearest (p : ℕ) (emin : ℤ) (q : ℚ) : ℚ :=
  halfEven (q / 2 ^ ulpExp p emin q) * 2 ^ ulpExp p emin q

theorem roundRat_eq (p : ℕ) (emin emax : ℤ) (q : ℚ) :
    roundRat p emin emax q =
      if |nearest p emin q| < 2 ^ (emax + 1) then some (nearest p emin q) else none := rfl

section Nearest

variable {p : ℕ} {emin : ℤ} {q r : ℚ}

/-- A multiple of the unit is kept. -/
theorem nearest_of_multiple (n : ℤ) (h : q = n * 2 ^ ulpExp p emin q) : nearest p emin q = q := by
  have hne : (2 : ℚ) ^ ulpExp p emin q ≠ 0 := by positivity
  have hdiv : q / 2 ^ ulpExp p emin q = n := by
    rw [div_eq_iff hne]
    exact h
  rw [nearest, hdiv, halfEven_intCast]
  exact h.symm

theorem nearest_zero : nearest p emin 0 = 0 :=
  nearest_of_multiple 0 (by simp)

theorem abs_nearest_sub_le (q : ℚ) : |nearest p emin q - q| ≤ 2 ^ ulpExp p emin q / 2 := by
  have hpos : (0 : ℚ) < 2 ^ ulpExp p emin q := by positivity
  have hsplit : nearest p emin q - q =
      (halfEven (q / 2 ^ ulpExp p emin q) - q / 2 ^ ulpExp p emin q) * 2 ^ ulpExp p emin q := by
    rw [nearest, sub_mul, div_mul_cancel₀ _ hpos.ne']
  rw [hsplit, abs_mul, abs_of_pos hpos]
  have hhalf := abs_halfEven_sub_le (q / 2 ^ ulpExp p emin q)
  calc _ ≤ 1 / 2 * (2 : ℚ) ^ ulpExp p emin q := by gcongr
    _ = _ := by ring

/-- In the normal range the error is relative to the value. -/
theorem abs_nearest_sub_le_mul (hq : 0 < q) (hn : emin ≤ Int.log 2 q + 1 - p) :
    |nearest p emin q - q| ≤ q / 2 ^ p := by
  have hexp : ulpExp p emin q = Int.log 2 q + 1 - p := by
    rw [ulpExp, abs_of_pos hq, max_eq_left hn]
  refine (abs_nearest_sub_le q).trans ?_
  have hlog : (2 : ℚ) ^ Int.log 2 q ≤ q := by
    have := Int.zpow_log_le_self (b := 2) (by norm_num) hq
    exact_mod_cast this
  rw [hexp, zpow_sub₀ (by norm_num), zpow_add₀ (by norm_num), zpow_one, zpow_natCast]
  calc (2 : ℚ) ^ Int.log 2 q * 2 / 2 ^ p / 2 = 2 ^ Int.log 2 q / 2 ^ p := by ring
    _ ≤ q / 2 ^ p := by gcongr

theorem nearest_same (h : ulpExp p emin q = ulpExp p emin r) (hqr : q ≤ r) :
    nearest p emin q ≤ nearest p emin r := by
  have hpos : (0 : ℚ) < 2 ^ ulpExp p emin r := by positivity
  rw [nearest, nearest, h]
  have hdiv : q / 2 ^ ulpExp p emin r ≤ r / 2 ^ ulpExp p emin r := by gcongr
  have := halfEven_mono hdiv
  gcongr

/-- A value on the grid of `q` bounds `nearest q` from above if it bounds `q`. -/
theorem nearest_le_of_multiple (n : ℤ) (h : q ≤ n * 2 ^ ulpExp p emin q) :
    nearest p emin q ≤ n * 2 ^ ulpExp p emin q := by
  have hpos : (0 : ℚ) < 2 ^ ulpExp p emin q := by positivity
  have hle := halfEven_mono ((div_le_iff₀ hpos).2 h)
  rw [halfEven_intCast] at hle
  rw [nearest]
  gcongr

theorem le_nearest_of_multiple (n : ℤ) (h : n * 2 ^ ulpExp p emin q ≤ q) :
    n * 2 ^ ulpExp p emin q ≤ nearest p emin q := by
  have hpos : (0 : ℚ) < 2 ^ ulpExp p emin q := by positivity
  have hle := halfEven_mono ((le_div_iff₀ hpos).2 h)
  rw [halfEven_intCast] at hle
  rw [nearest]
  gcongr

/-- A power of two above the unit is a multiple of it. -/
theorem zpow_eq_multiple {e u : ℤ} (h : u ≤ e) : ∃ n : ℤ, (2 : ℚ) ^ e = n * 2 ^ u := by
  refine ⟨2 ^ (e - u).toNat, ?_⟩
  have hexp : ((e - u).toNat : ℤ) = e - u := Int.toNat_of_nonneg (by omega)
  push_cast
  rw [← zpow_natCast, hexp, ← zpow_add₀ (by norm_num)]
  congr 1
  omega

theorem nearest_mono_of_pos (hp : 0 < p) (hq : 0 < q) (hqr : q ≤ r) :
    nearest p emin q ≤ nearest p emin r := by
  have hr : 0 < r := hq.trans_le hqr
  have hlog : Int.log 2 q ≤ Int.log 2 r := Int.log_mono_right hq hqr
  have huq : ulpExp p emin q = max (Int.log 2 q + 1 - p) emin := by rw [ulpExp, abs_of_pos hq]
  have hur : ulpExp p emin r = max (Int.log 2 r + 1 - p) emin := by rw [ulpExp, abs_of_pos hr]
  by_cases hsame : ulpExp p emin q = ulpExp p emin r
  · exact nearest_same hsame hqr
  · -- the power of two at the bottom of the binade of `r` is on both grids
    have hstep : Int.log 2 q + 1 ≤ Int.log 2 r := by omega
    obtain ⟨m, hm⟩ := zpow_eq_multiple (show ulpExp p emin q ≤ Int.log 2 r by omega)
    obtain ⟨n, hn⟩ := zpow_eq_multiple (show ulpExp p emin r ≤ Int.log 2 r by omega)
    have hlt : q < (2 : ℚ) ^ (Int.log 2 q + 1) := by
      exact_mod_cast Int.lt_zpow_succ_log_self (b := 2) (by norm_num) q
    have hqpow : q ≤ (2 : ℚ) ^ Int.log 2 r :=
      hlt.le.trans (zpow_le_zpow_right₀ (by norm_num) hstep)
    have hrpow : (2 : ℚ) ^ Int.log 2 r ≤ r := by
      exact_mod_cast Int.zpow_log_le_self (b := 2) (by norm_num) hr
    calc nearest p emin q ≤ (2 : ℚ) ^ Int.log 2 r := by
          rw [hm]
          exact nearest_le_of_multiple m (hm ▸ hqpow)
      _ ≤ nearest p emin r := by
          rw [hn]
          exact le_nearest_of_multiple n (hn ▸ hrpow)

theorem nearest_nonneg (hq : 0 ≤ q) : 0 ≤ nearest p emin q := by
  have hle : ((0 : ℤ) : ℚ) * 2 ^ ulpExp p emin q ≤ nearest p emin q :=
    le_nearest_of_multiple 0 (by simpa using hq)
  simpa using hle

theorem nearest_mono_of_nonneg (hp : 0 < p) (hq : 0 ≤ q) (hqr : q ≤ r) :
    nearest p emin q ≤ nearest p emin r := by
  rcases hq.lt_or_eq with hpos | rfl
  · exact nearest_mono_of_pos hp hpos hqr
  · rw [nearest_zero]
    exact nearest_nonneg hqr

theorem nearest_neg (q : ℚ) : nearest p emin (-q) = -nearest p emin q := by
  have hexp : ulpExp p emin (-q) = ulpExp p emin q := by rw [ulpExp, ulpExp, abs_neg]
  rw [nearest, nearest, hexp, neg_div, halfEven_neg, Int.cast_neg, neg_mul]

theorem nearest_mono (hp : 0 < p) (hqr : q ≤ r) : nearest p emin q ≤ nearest p emin r := by
  rcases le_total 0 q with hq | hq
  · exact nearest_mono_of_nonneg hp hq hqr
  · have hq' : 0 ≤ nearest p emin (-q) := nearest_nonneg (by linarith)
    rw [nearest_neg] at hq'
    rcases le_total 0 r with hr | hr
    · have hr' : 0 ≤ nearest p emin r := nearest_nonneg hr
      linarith
    · have hflip : nearest p emin (-r) ≤ nearest p emin (-q) :=
        nearest_mono_of_nonneg hp (by linarith) (by linarith)
      rw [nearest_neg, nearest_neg] at hflip
      linarith

theorem abs_nearest (q : ℚ) : |nearest p emin q| = nearest p emin |q| := by
  rcases le_total 0 q with h | h
  · rw [abs_of_nonneg h, abs_of_nonneg (nearest_nonneg h)]
  · have hneg : 0 ≤ nearest p emin (-q) := nearest_nonneg (by linarith)
    rw [nearest_neg] at hneg
    rw [abs_of_nonpos h, nearest_neg, abs_of_nonpos (by linarith)]

theorem nearest_zpow {e : ℤ} (hp : 0 < p) (he : emin ≤ e) : nearest p emin (2 ^ e) = 2 ^ e := by
  have hulp : ulpExp p emin (2 ^ e) ≤ e := by
    have hlog : Int.log 2 ((2 : ℚ) ^ e) = e := by
      exact_mod_cast Int.log_zpow (R := ℚ) (b := 2) (by norm_num) e
    rw [ulpExp, abs_of_pos (by positivity), hlog]
    omega
  obtain ⟨n, hn⟩ := zpow_eq_multiple hulp
  exact nearest_of_multiple n hn

/-- A bound that is a power of two is kept. -/
theorem abs_nearest_le_zpow {e : ℤ} (hp : 0 < p) (he : emin ≤ e) (h : |q| ≤ 2 ^ e) :
    |nearest p emin q| ≤ 2 ^ e := by
  obtain ⟨hlo, hhi⟩ := abs_le.1 h
  have hdown : nearest p emin (-2 ^ e) ≤ nearest p emin q := nearest_mono hp hlo
  have hup : nearest p emin q ≤ nearest p emin (2 ^ e) := nearest_mono hp hhi
  rw [nearest_neg, nearest_zpow hp he] at hdown
  rw [nearest_zpow hp he] at hup
  exact abs_le.2 ⟨hdown, hup⟩

/-- Values of the normal range that are four units of the last place apart stay apart. -/
theorem nearest_lt (hp : 2 ≤ p) (hq : 0 < q) (hn : emin ≤ Int.log 2 q + 1 - p)
    (h : q * (1 + 4 / 2 ^ p) ≤ r) : nearest p emin q < nearest p emin r := by
  have hpow : (4 : ℚ) ≤ 2 ^ p := by
    calc (4 : ℚ) = 2 ^ 2 := by norm_num
      _ ≤ 2 ^ p := pow_le_pow_right₀ (by norm_num) hp
  have hpos : (0 : ℚ) < 2 ^ p := by positivity
  set ε : ℚ := 1 / 2 ^ p with hε
  have hε0 : 0 < ε := by positivity
  have hε4 : ε ≤ 1 / 4 := by
    rw [hε]
    gcongr
  have hfour : 4 / 2 ^ p = 4 * ε := by rw [hε]; ring
  rw [hfour] at h
  have hqr : q ≤ r := (le_mul_of_one_le_right hq.le (by linarith)).trans h
  have hr : 0 < r := hq.trans_le hqr
  have hnr : emin ≤ Int.log 2 r + 1 - p := by
    have := Int.log_mono_right (b := 2) hq hqr
    omega
  have hup := (abs_le.1 (abs_nearest_sub_le_mul hq hn)).2
  have hlo := (abs_le.1 (abs_nearest_sub_le_mul hr hnr)).1
  rw [div_eq_mul_one_div, ← hε] at hup hlo
  have hgap : q * (1 + ε) < r * (1 - ε) := by
    calc q * (1 + ε) < q * (1 + 4 * ε) * (1 - ε) := by nlinarith [mul_pos hq hε0]
      _ ≤ r * (1 - ε) := by
        apply mul_le_mul_of_nonneg_right h
        linarith
  linarith

/-- A natural number of at most `p` bits is kept. -/
theorem nearest_natCast {n : ℕ} (hp : 0 < p) (h : n < 2 ^ p) (he : emin ≤ 0) :
    nearest p emin (n : ℚ) = n := by
  have hlog : Nat.log 2 n < p := Nat.log_lt_of_lt_pow' hp.ne' h
  have hulp : ulpExp p emin (n : ℚ) ≤ 0 := by
    rw [ulpExp, Nat.abs_cast, Int.log_natCast]
    omega
  obtain ⟨m, hm⟩ := zpow_eq_multiple hulp
  refine nearest_of_multiple (n * m) ?_
  push_cast
  rw [mul_assoc, ← hm, zpow_zero, mul_one]

section DoubleRounding

/-- `x` and `y` lie on the same side of every multiple of `u`, and neither is one. -/
structure SameCell (u x y : ℚ) : Prop where
  side : ∀ m : ℤ, x < m * u ↔ y < m * u
  left : ∀ m : ℤ, x ≠ m * u
  right : ∀ m : ℤ, y ≠ m * u

variable {u x y : ℚ}

/-- A value that is closer to `x` than every multiple of `u` is in the cell of `x`. -/
theorem SameCell.of_close (h : ∀ m : ℤ, |y - x| < |m * u - x|) : SameCell u x y := by
  refine ⟨?_, ?_, ?_⟩
  · intro m
    obtain ⟨hlo, hhi⟩ := abs_lt.1 (h m)
    constructor
    · intro hlt
      rw [abs_of_pos (by linarith)] at hhi
      linarith
    · intro hlt
      by_contra hge
      rw [abs_of_nonpos (by linarith)] at hlo
      linarith
  · intro m heq
    have hlt := h m
    rw [← heq, sub_self, abs_zero] at hlt
    exact absurd hlt (abs_nonneg _).not_gt
  · intro m heq
    have hlt := h m
    rw [heq] at hlt
    exact lt_irrefl _ hlt

theorem SameCell.pos (h : SameCell u x y) (hx : 0 < x) : 0 < y := by
  have hside := h.side 0
  have hne := h.right 0
  rw [Int.cast_zero, zero_mul] at hside hne
  exact lt_of_le_of_ne (not_lt.1 fun hlt => absurd (hside.2 hlt) hx.not_gt) hne.symm

/-- Within a cell of half units all values round alike. -/
theorem nearest_eq_of_sameCell (hp : 0 < p) (hx : 0 < x) (hn : emin ≤ Int.log 2 x + 1 - p)
    (h : SameCell (2 ^ (ulpExp p emin x - 1)) x y) : nearest p emin y = nearest p emin x := by
  have hy := h.pos hx
  have he : ulpExp p emin x = Int.log 2 x + 1 - p := by rw [ulpExp, abs_of_pos hx, max_eq_left hn]
  have hpow : ∀ j : ℤ, ulpExp p emin x - 1 ≤ j → (x < 2 ^ j ↔ y < 2 ^ j) := by
    intro j hj
    obtain ⟨m, hm⟩ := zpow_eq_multiple hj
    rw [hm]
    exact h.side m
  have hlog : Int.log 2 y = Int.log 2 x := by
    have hb : 1 < 2 := by norm_num
    apply le_antisymm
    · have hlt : y < 2 ^ (Int.log 2 x + 1) := by
        rw [← hpow _ (by omega)]
        exact_mod_cast Int.lt_zpow_succ_log_self hb x
      exact Int.lt_add_one_iff.1 ((Int.lt_zpow_iff_log_lt hb hy).1 (by exact_mod_cast hlt))
    · rw [← Int.zpow_le_iff_le_log hb hy]
      have hge : ¬ y < 2 ^ Int.log 2 x := by
        rw [← hpow _ (by omega)]
        exact not_lt.2 (by exact_mod_cast Int.zpow_log_le_self hb hx)
      exact_mod_cast not_lt.1 hge
  have hexp : ulpExp p emin y = ulpExp p emin x := by
    rw [ulpExp, ulpExp, abs_of_pos hx, abs_of_pos hy, hlog]
  have hunit : (2 : ℚ) ^ ulpExp p emin x = 2 * 2 ^ (ulpExp p emin x - 1) := by
    rw [zpow_sub_one₀ (by norm_num)]
    ring
  have hpos : (0 : ℚ) < 2 ^ (ulpExp p emin x - 1) := by positivity
  have hscale : ∀ z : ℚ, 2 * (z / (2 * 2 ^ (ulpExp p emin x - 1))) = z / 2 ^ (ulpExp p emin x - 1) := by
    intro z
    field_simp
  rw [nearest, nearest, hexp, hunit, halfEven_congr]
  · intro m
    rw [hscale, hscale, div_lt_iff₀ hpos, div_lt_iff₀ hpos]
    exact (h.side m).symm
  · intro m
    rw [hscale, ne_eq, div_eq_iff hpos.ne']
    exact h.right m
  · intro m
    rw [hscale, ne_eq, div_eq_iff hpos.ne']
    exact h.left m

/-- A quotient with a small denominator is a multiple of `u` or well away from all of them. -/
theorem div_apart {a b : ℕ} {n : ℤ} (hb : 0 < b) (hu : 0 < u) (hinv : 1 = n * u) (m : ℤ)
    (hne : (a : ℚ) / b ≠ m * u) : u ≤ b * |m * u - (a : ℚ) / b| := by
  have hbq : (0 : ℚ) < b := by exact_mod_cast hb
  have hscale : (b : ℚ) * (m * u - (a : ℚ) / b) = ((b * m - a * n : ℤ) : ℚ) * u := by
    push_cast
    rw [mul_sub, mul_div_cancel₀ _ hbq.ne']
    linear_combination (-(a : ℚ)) * hinv
  have hint : (b * m - a * n : ℤ) ≠ 0 := by
    intro h0
    rw [h0, Int.cast_zero, zero_mul, mul_eq_zero] at hscale
    rcases hscale with h | h
    · exact hbq.ne' h
    · exact hne (by linarith)
  have habs : (1 : ℚ) ≤ |((b * m - a * n : ℤ) : ℚ)| := by
    exact_mod_cast Int.one_le_abs hint
  calc u ≤ |((b * m - a * n : ℤ) : ℚ)| * u := le_mul_of_one_le_left hu.le habs
    _ = |(b : ℚ) * (m * u - (a : ℚ) / b)| := by rw [hscale, abs_mul, abs_of_pos hu]
    _ = b * |m * u - (a : ℚ) / b| := by rw [abs_mul, abs_of_pos hbq]

/-- Rounding a quotient to more bits first makes no difference if these are so many that its
denominator cannot bridge the gap. -/
theorem nearest_nearest_div {P : ℕ} {Emin : ℤ} {a b : ℕ} (hp : 0 < p) (ha : 0 < a) (hb : 0 < b)
    (hn : emin ≤ Int.log 2 ((a : ℚ) / b) + 1 - p) (hfrac : Int.log 2 ((a : ℚ) / b) + 1 ≤ p)
    (hgap : (b : ℚ) * 2 ^ ulpExp P Emin ((a : ℚ) / b) < 2 ^ ulpExp p emin ((a : ℚ) / b)) :
    nearest p emin (nearest P Emin ((a : ℚ) / b)) = nearest p emin ((a : ℚ) / b) := by
  have hbq : (0 : ℚ) < b := by exact_mod_cast hb
  have hx : (0 : ℚ) < (a : ℚ) / b := by positivity
  have hclose : |nearest P Emin ((a : ℚ) / b) - (a : ℚ) / b| ≤ 2 ^ ulpExp P Emin ((a : ℚ) / b) / 2 :=
    abs_nearest_sub_le _
  have hle : ulpExp P Emin ((a : ℚ) / b) ≤ ulpExp p emin ((a : ℚ) / b) - 1 := by
    have hone : (1 : ℚ) ≤ b := by exact_mod_cast hb
    have hlt := lt_of_le_of_lt (le_mul_of_one_le_left (by positivity) hone) hgap
    have := (zpow_lt_zpow_iff_right₀ (by norm_num)).1 hlt
    omega
  have he : ulpExp p emin ((a : ℚ) / b) = Int.log 2 ((a : ℚ) / b) + 1 - p := by
    rw [ulpExp, abs_of_pos hx, max_eq_left hn]
  obtain ⟨n, hinv⟩ := zpow_eq_multiple (show ulpExp p emin ((a : ℚ) / b) - 1 ≤ 0 by omega)
  rw [zpow_zero] at hinv
  by_cases hturn : ∃ m : ℤ, (a : ℚ) / b = m * 2 ^ (ulpExp p emin ((a : ℚ) / b) - 1)
  · -- a multiple of half a unit is kept by the finer rounding
    obtain ⟨m, hm⟩ := hturn
    obtain ⟨k, hk⟩ := zpow_eq_multiple hle
    rw [nearest_of_multiple (p := P) (m * k)]
    push_cast
    rw [mul_assoc, ← hk]
    exact hm
  · push Not at hturn
    refine nearest_eq_of_sameCell hp hx hn (.of_close fun m => ?_)
    have hapart := div_apart hb (by positivity) hinv m (hturn m)
    have hunit : (2 : ℚ) ^ ulpExp p emin ((a : ℚ) / b) =
        2 * 2 ^ (ulpExp p emin ((a : ℚ) / b) - 1) := by
      rw [zpow_sub_one₀ (by norm_num)]
      ring
    have hnear : (b : ℚ) * |nearest P Emin ((a : ℚ) / b) - (a : ℚ) / b| <
        2 ^ (ulpExp p emin ((a : ℚ) / b) - 1) := by
      calc (b : ℚ) * |nearest P Emin ((a : ℚ) / b) - (a : ℚ) / b|
          ≤ b * (2 ^ ulpExp P Emin ((a : ℚ) / b) / 2) := by gcongr
        _ < 2 ^ (ulpExp p emin ((a : ℚ) / b) - 1) := by linarith
    exact lt_of_mul_lt_mul_left (hnear.trans_le hapart) hbq.le

end DoubleRounding

end Nearest

namespace Format

variable (f : Format) {q r : ℚ}

/-- The rational value of the nearest number of the format. -/
def nearest (q : ℚ) : ℚ := Lib.nearest f.precision f.emin q

theorem nearest_binary32 (q : ℚ) : binary32.nearest q = Lib.nearest 24 (-149) q := rfl

theorem nearest_binary64 (q : ℚ) : binary64.nearest q = Lib.nearest 53 (-1074) q := rfl

theorem nearest_mono (h : q ≤ r) : f.nearest q ≤ f.nearest r := Lib.nearest_mono f.precision_pos h

theorem nearest_nonneg (h : 0 ≤ q) : 0 ≤ f.nearest q := Lib.nearest_nonneg h

theorem nearest_natCast {n : ℕ} (h : n < 2 ^ f.precision) : f.nearest n = n :=
  Lib.nearest_natCast f.precision_pos h f.emin_nonpos

theorem nearest_zero : f.nearest 0 = 0 := Lib.nearest_zero

theorem nearest_zpow {e : ℤ} (h : f.emin ≤ e) : f.nearest (2 ^ e) = 2 ^ e :=
  Lib.nearest_zpow f.precision_pos h

theorem abs_nearest (q : ℚ) : |f.nearest q| = f.nearest |q| := Lib.abs_nearest q

theorem abs_nearest_le {e : ℕ} (h : |q| ≤ 2 ^ e) : |f.nearest q| ≤ 2 ^ e := by
  have hbound : |q| ≤ 2 ^ (e : ℤ) := by exact_mod_cast h
  have hmin := f.emin_nonpos
  exact_mod_cast Lib.abs_nearest_le_zpow f.precision_pos (by omega) hbound

end Format

namespace Binary

variable {f : Format} {q a b : ℚ} {e : ℕ}

theorem ofRat_of_lt (h : |f.nearest q| < 2 ^ (f.emax + 1)) :
    (ofRat q : Binary f) = .fin (f.nearest q) := by
  have hround : roundRat f.precision f.emin f.emax q = some (f.nearest q) := by
    rw [roundRat_eq]
    exact if_pos h
  delta ofRat
  rw [hround]

/-- Far from the largest value there is no overflow. -/
theorem ofRat_of_le (he : e ≤ f.emax) (h : |q| ≤ 2 ^ e) :
    (ofRat q : Binary f) = .fin (f.nearest q) := by
  refine ofRat_of_lt ((f.abs_nearest_le h).trans_lt ?_)
  rw [← zpow_natCast]
  exact zpow_lt_zpow_right₀ (by norm_num) (by omega)

/-- Beyond that it may be an infinity. -/
theorem ofRat_cases (q : ℚ) : (ofRat q : Binary f) = .fin (f.nearest q) ∨
    (ofRat q : Binary f) = .posInf ∨ (ofRat q : Binary f) = .negInf := by
  by_cases h : |f.nearest q| < 2 ^ (f.emax + 1)
  · exact .inl (ofRat_of_lt h)
  · have hround : roundRat f.precision f.emin f.emax q = none := by
      rw [roundRat_eq]
      exact if_neg h
    delta ofRat
    rw [hround]
    by_cases hneg : q < 0
    · exact .inr (.inr (if_pos hneg))
    · exact .inr (.inl (if_neg hneg))

theorem ofRat_natCast {n : ℕ} (h : n < 2 ^ f.precision) : (ofRat n : Binary f) = .fin n := by
  have hkeep := f.nearest_natCast h
  rw [ofRat_of_lt, hkeep]
  rw [hkeep, Nat.abs_cast]
  have hlt : (n : ℚ) < 2 ^ (f.precision : ℤ) := by exact_mod_cast h
  exact hlt.trans_le (zpow_le_zpow_right₀ (by norm_num) f.precision_le)

theorem ofRat_one : (ofRat 1 : Binary f) = .fin 1 := by
  rw [← Nat.cast_one, ofRat_natCast (Nat.one_lt_two_pow f.precision_pos.ne')]

theorem ofRat_ofNat (n : ℕ) [n.AtLeastTwo] (h : n < 2 ^ f.precision) :
    (ofRat (OfNat.ofNat n) : Binary f) = .fin (OfNat.ofNat n) := ofRat_natCast h

theorem div_fin (he : e ≤ f.emax) (hb : b ≠ 0) (h : |a / b| ≤ 2 ^ e) :
    (fin a : Binary f).div (.fin b) = .fin (f.nearest (a / b)) := by
  rw [div, if_neg hb, ofRat_of_le he h]

theorem mul_fin (he : e ≤ f.emax) (h : |a * b| ≤ 2 ^ e) :
    (fin a : Binary f).mul (.fin b) = .fin (f.nearest (a * b)) := ofRat_of_le he h

theorem add_fin (he : e ≤ f.emax) (h : |a + b| ≤ 2 ^ e) :
    (fin a : Binary f).add (.fin b) = .fin (f.nearest (a + b)) := ofRat_of_le he h

/-- The quotient of two exact natural numbers. -/
theorem div_natCast {m n : ℕ} (hm : m < 2 ^ f.precision) (hn : n < 2 ^ f.precision) (hpos : 0 < n) :
    (ofRat m : Binary f).div (ofRat n) = .fin (f.nearest (m / n)) := by
  have hne : (n : ℚ) ≠ 0 := by positivity
  have hle : (m : ℚ) / n ≤ m := div_le_self (by positivity) (by exact_mod_cast hpos)
  have hround : f.nearest ((m : ℚ) / n) ≤ m := by
    calc f.nearest ((m : ℚ) / n) ≤ f.nearest (m : ℚ) := f.nearest_mono hle
      _ = m := f.nearest_natCast hm
  rw [ofRat_natCast hm, ofRat_natCast hn, div, if_neg hne, ofRat_of_lt]
  rw [abs_of_nonneg (f.nearest_nonneg (by positivity))]
  have hlt : (m : ℚ) < 2 ^ (f.precision : ℤ) := by exact_mod_cast hm
  exact (hround.trans_lt hlt).trans_le (zpow_le_zpow_right₀ (by norm_num) f.precision_le)

end Binary

/-- The rounded share `m / n` is above the rounded `1 / k` exactly if the share is above. -/
theorem nearest_inv_lt_iff {k m n : ℕ} (hk : 0 < k) (hk' : k < 2 ^ 50) (hn : 0 < n)
    (hn' : n < 2 ^ 50) :
    Format.binary64.nearest (1 / (k : ℚ)) < Format.binary64.nearest ((m : ℚ) / n) ↔
      n < k * m := by
  have hkq : (0 : ℚ) < k := by exact_mod_cast hk
  have hnq : (0 : ℚ) < n := by exact_mod_cast hn
  constructor
  · intro hlt
    by_contra hle
    refine hlt.not_ge (Format.nearest_mono _ ?_)
    rw [div_le_div_iff₀ hnq hkq, one_mul, mul_comm]
    exact_mod_cast not_lt.1 hle
  · intro hlt
    have hlog : (-50 : ℤ) ≤ Int.log 2 (1 / (k : ℚ)) := by
      rw [← Int.zpow_le_iff_le_log (by norm_num) (by positivity)]
      rw [Nat.cast_ofNat, zpow_neg, one_div]
      apply inv_anti₀ hkq
      exact_mod_cast hk'.le
    rw [Format.nearest_binary64, Format.nearest_binary64]
    refine nearest_lt (by norm_num) (by positivity) (by omega) ?_
    have hshare : ((n : ℚ) + 1) / (k * n) ≤ m / n := by
      rw [div_le_div_iff₀ (by positivity) hnq]
      have : (n : ℚ) + 1 ≤ k * m := by exact_mod_cast hlt
      nlinarith
    have hsmall : (4 : ℚ) / 2 ^ 53 ≤ 1 / n := by
      rw [div_le_div_iff₀ (by positivity) hnq]
      have hle : (n : ℚ) ≤ 2 ^ 50 := by exact_mod_cast hn'.le
      calc 4 * (n : ℚ) ≤ 4 * 2 ^ 50 := by gcongr
        _ ≤ 1 * 2 ^ 53 := by norm_num
    calc 1 / (k : ℚ) * (1 + 4 / 2 ^ 53) ≤ 1 / k * (1 + 1 / n) := by gcongr
      _ = (n + 1) / (k * n) := by field_simp
      _ ≤ m / n := hshare

end Lib
