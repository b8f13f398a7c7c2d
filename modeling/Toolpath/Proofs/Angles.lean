import Toolpath.Machine.Motion
import Toolpath.Proofs.BoundedDoubles

/-!
# Angles and lengths are bounded

The arc tangent divides by a polynomial without a negative coefficient, which
stays away from zero; so the angle of a vector is bounded, even when the
quotient of its coordinates or its length is out of range. The angles of a tool
axis are therefore finite whenever its coordinates are.
-/

namespace Toolpath.Number

section
variable {a b z : Float} {k : ℤ}

theorem horner_within (ha : Within k a) (hz : Within 4 z) (hb : Within (k + 4) b) (hlow : 0 ≤ k)
    (hhigh : k ≤ 1000) : Within (k + 5) (a * z + b) := by
  have h := (ha.mul hz (by omega) (by omega)).add hb (by omega) (by omega)
  rwa [add_assoc] at h

theorem horner_nonneg (ha : Within k a) (hz : Within 4 z) (hb : Within (k + 4) b) (hlow : 0 ≤ k)
    (hhigh : k ≤ 1000) (ha0 : 0 ≤ value a) (hz0 : 0 ≤ value z) (hb0 : 0 ≤ value b) :
    0 ≤ value (a * z + b) :=
  value_add_nonneg (ha.mul hz (by omega) (by omega)) hb (by omega)
    (value_mul_nonneg ha hz (by omega) (mul_nonneg ha0 hz0)) hb0

theorem numerator_within {p₀ p₁ p₂ p₃ p₄ : Float} (hz : Within 4 z) (h₀ : Within 1 p₀)
    (h₁ : Within 5 p₁) (h₂ : Within 10 p₂) (h₃ : Within 15 p₃) (h₄ : Within 20 p₄) :
    Within 21 ((((p₀ * z + p₁) * z + p₂) * z + p₃) * z + p₄) := by
  have a₁ : Within 6 (p₀ * z + p₁) := horner_within h₀ hz h₁ (by norm_num) (by norm_num)
  have a₂ : Within 11 ((p₀ * z + p₁) * z + p₂) := horner_within a₁ hz h₂ (by norm_num) (by norm_num)
  have a₃ : Within 16 (((p₀ * z + p₁) * z + p₂) * z + p₃) :=
    horner_within a₂ hz h₃ (by norm_num) (by norm_num)
  exact horner_within a₃ hz h₄ (by norm_num) (by norm_num)

theorem denominator_bounds {q₀ q₁ q₂ q₃ q₄ : Float} (hz : Within 4 z) (hz0 : 0 ≤ value z)
    (h₀ : Within 5 q₀) (h₁ : Within 10 q₁) (h₂ : Within 15 q₂) (h₃ : Within 20 q₃)
    (h₄ : Within 25 q₄) (hq : ∀ q ∈ [q₀, q₁, q₂, q₃, q₄], 0 ≤ value q) :
    isFinite (((((z + q₀) * z + q₁) * z + q₂) * z + q₃) * z + q₄) = true ∧
      ∀ k : ℤ, -1074 ≤ k → 2 ^ k ≤ value q₄ →
        2 ^ k ≤ |value (((((z + q₀) * z + q₁) * z + q₂) * z + q₃) * z + q₄)| := by
  simp only [List.forall_mem_cons, List.not_mem_nil, false_imp_iff, implies_true, and_true] at hq
  obtain ⟨hq₀, hq₁, hq₂, hq₃, hq₄⟩ := hq
  have hz5 : Within 5 z := hz.mono (by norm_num)
  have a₀ : Within 6 (z + q₀) := hz5.add h₀ (by norm_num) (by norm_num)
  have n₀ := value_add_nonneg hz5 h₀ (by norm_num) hz0 hq₀
  have a₁ : Within 11 ((z + q₀) * z + q₁) := horner_within a₀ hz h₁ (by norm_num) (by norm_num)
  have n₁ := horner_nonneg a₀ hz h₁ (by norm_num) (by norm_num) n₀ hz0 hq₁
  have a₂ : Within 16 (((z + q₀) * z + q₁) * z + q₂) :=
    horner_within a₁ hz h₂ (by norm_num) (by norm_num)
  have n₂ := horner_nonneg a₁ hz h₂ (by norm_num) (by norm_num) n₁ hz0 hq₂
  have a₃ : Within 21 ((((z + q₀) * z + q₁) * z + q₂) * z + q₃) :=
    horner_within a₂ hz h₃ (by norm_num) (by norm_num)
  have n₃ := horner_nonneg a₂ hz h₃ (by norm_num) (by norm_num) n₂ hz0 hq₃
  generalize (((z + q₀) * z + q₁) * z + q₂) * z + q₃ = a at a₃ n₃ ⊢
  have hproduct : Within 25 (a * z) := a₃.mul hz (by norm_num) (by norm_num)
  have n₄ := value_mul_nonneg a₃ hz (by norm_num) (mul_nonneg n₃ hz0)
  have hsum : |value (a * z) + value q₄| ≤ 2 ^ (26 : ℤ) :=
    (abs_add_le _ _).trans (hproduct.sizes_le h₄)
  have hnear := add_near hproduct.finite h₄.finite (Within.le_top hsum (by norm_num))
  refine ⟨hnear.finite, fun k hk hlow => hnear.ge k hk ?_⟩
  rw [abs_of_nonneg (add_nonneg n₄ hq₄)]
  linarith

theorem approximation_within {x p₀ p₁ p₂ p₃ p₄ q₀ q₁ q₂ q₃ q₄ : Float} (hx : Within 2 x)
    (hz : Within 4 z) (hz0 : 0 ≤ value z) (hp₀ : Within 1 p₀) (hp₁ : Within 5 p₁)
    (hp₂ : Within 10 p₂) (hp₃ : Within 15 p₃) (hp₄ : Within 20 p₄) (hq₀ : Within 5 q₀)
    (hq₁ : Within 10 q₁) (hq₂ : Within 15 q₂) (hq₃ : Within 20 q₃) (hq₄ : Within 25 q₄)
    (hq : ∀ q ∈ [q₀, q₁, q₂, q₃, q₄], signBit q = false) (hlow : 2 ^ (7 : ℤ) ≤ |value q₄|) :
    Within 21 (x * (z * ((((p₀ * z + p₁) * z + p₂) * z + p₃) * z + p₄) /
      (((((z + q₀) * z + q₁) * z + q₂) * z + q₃) * z + q₄)) + x) := by
  simp only [List.forall_mem_cons, List.not_mem_nil, false_imp_iff, implies_true, and_true] at hq
  obtain ⟨h₀, h₁, h₂, h₃, h₄⟩ := hq
  have hq' : ∀ q ∈ [q₀, q₁, q₂, q₃, q₄], 0 ≤ value q := by
    simp only [List.forall_mem_cons, List.not_mem_nil, false_imp_iff, implies_true, and_true]
    exact ⟨value_nonneg hq₀.finite h₀, value_nonneg hq₁.finite h₁, value_nonneg hq₂.finite h₂,
      value_nonneg hq₃.finite h₃, value_nonneg hq₄.finite h₄⟩
  obtain ⟨hfinite, hden⟩ := denominator_bounds hz hz0 hq₀ hq₁ hq₂ hq₃ hq₄ hq'
  rw [abs_of_nonneg (value_nonneg hq₄.finite h₄)] at hlow
  have hnum : Within 25 _ :=
    hz.mul (numerator_within hz hp₀ hp₁ hp₂ hp₃ hp₄) (by norm_num) (by norm_num)
  have hquotient : Within 18 _ :=
    hnum.div hfinite (hden 7 (by norm_num) hlow) (by norm_num) (by norm_num)
  have hproduct : Within 20 _ := hx.mul hquotient (by norm_num) (by norm_num)
  exact hproduct.add (hx.mono (by norm_num)) (by norm_num) (by norm_num)

end

variable {x p q : Float}

theorem atanReduced_within (hx : Within 2 x) : Within 21 (atanReduced x) := by
  have hz : Within 4 (x * x) := hx.mul hx (by norm_num) (by norm_num)
  have hz0 := value_mul_nonneg hx hx (by norm_num) (mul_self_nonneg (value x))
  refine approximation_within hx hz hz0 ?_ ?_ ?_ ?_ ?_ ?_ ?_ ?_ ?_ ?_ (by decide)
    (le_abs_value_of_reaches (by decide))
  all_goals exact within_of_fits (by decide)

theorem atanPositive_within (hx : isFinite x = true) (hpos : 0 < value x) :
    Within 23 (atanPositive x) := by
  have hcut : Within 0 (0.66 : Float) := within_of_fits (by decide)
  have hfar : Within 2 (2.41421356237309504880 : Float) := within_of_fits (by decide)
  have hfar' : 2 ^ (1 : ℤ) ≤ |value (2.41421356237309504880 : Float)| :=
    le_abs_value_of_reaches (by decide)
  have hsign : 0 ≤ value (2.41421356237309504880 : Float) := value_nonneg hfar.finite (by decide)
  have hone : Within 1 (1 : Float) := within_of_fits (by decide)
  rw [abs_of_nonneg hsign] at hfar'
  unfold atanPositive
  dsimp only
  split_ifs with hsmall hlarge
  · rw [le_iff_value hx hcut.finite] at hsmall
    have hle : |value x| ≤ 2 ^ (0 : ℤ) := by
      rw [abs_of_pos hpos]
      exact hsmall.trans ((le_abs_self _).trans hcut.le)
    exact (atanReduced_within (Within.mono ⟨hx, hle⟩ (by norm_num))).mono (by norm_num)
  · rw [lt_iff_value hfar.finite hx] at hlarge
    have hge : 2 ^ (0 : ℤ) ≤ |value x| := by
      rw [abs_of_pos hpos]
      norm_num at hfar' ⊢
      linarith
    have hquotient : Within 1 (1 / x) := hone.div hx hge (by norm_num) (by norm_num)
    have hreduced := atanReduced_within (hquotient.mono (k := 2) (by norm_num))
    have hdiff : Within 22 (halfPi - atanReduced (1 / x)) :=
      Within.sub (k := 21) (within_of_fits (by decide)) hreduced (by norm_num) (by norm_num)
    exact hdiff.add (within_of_fits (by decide)) (by norm_num) (by norm_num)
  · rw [lt_iff_value hfar.finite hx, not_lt] at hlarge
    have hle : Within 2 x := by
      refine ⟨hx, ?_⟩
      rw [abs_of_pos hpos]
      exact hlarge.trans ((le_abs_self _).trans hfar.le)
    have hle' : value x ≤ 4 := by
      have := (le_abs_self _).trans hle.le
      norm_num at this
      exact this
    have hdiff : Within 2 (x - 1) := by
      have habs : |value x - value 1| ≤ 2 ^ (2 : ℤ) := by
        rw [value_one, abs_le]
        constructor <;> norm_num <;> linarith
      exact (sub_near hx hone.finite (Within.le_top habs (by norm_num))).within (by norm_num) habs
    have hsum : |value x + value 1| ≤ 2 ^ (3 : ℤ) := by
      rw [value_one, abs_le]
      constructor <;> norm_num <;> linarith
    have hnear := add_near hx hone.finite (Within.le_top hsum (by norm_num))
    have hge : 2 ^ (0 : ℤ) ≤ |value (x + 1)| := by
      apply hnear.ge 0 (by norm_num)
      rw [value_one, abs_of_pos (by linarith)]
      norm_num
      exact hpos.le
    have hquotient : Within 2 ((x - 1) / (x + 1)) :=
      hdiff.div hnear.finite hge (by norm_num) (by norm_num)
    have hreduced : Within 22 (quarterPi + atanReduced ((x - 1) / (x + 1))) :=
      Within.add (k := 21) (within_of_fits (by decide)) (atanReduced_within hquotient)
        (by norm_num) (by norm_num)
    exact hreduced.add (within_of_fits (by decide)) (by norm_num) (by norm_num)

theorem atan_within (hx : isNan x = false) : Within 23 (atan x) := by
  cases hfinite : isFinite x with
  | false =>
    rw [eq_infinity hfinite hx]
    cases signBit x <;> exact within_of_fits (by decide +kernel)
  | true =>
    have hzero : isFinite 0 = true := by decide
    unfold atan
    split_ifs with h0 hpos
    · rw [beq_iff_value hfinite hzero, value_zero] at h0
      refine ⟨hfinite, ?_⟩
      rw [h0, abs_zero]
      positivity
    · rw [lt_iff_value hzero hfinite, value_zero] at hpos
      exact atanPositive_within hfinite hpos
    · rw [beq_iff_value hfinite hzero, value_zero] at h0
      rw [lt_iff_value hzero hfinite, value_zero, not_lt] at hpos
      apply Within.neg
      apply atanPositive_within (isFinite_neg hfinite)
      rw [value_neg hfinite]
      exact neg_pos.mpr (lt_of_le_of_ne hpos h0)

theorem copySign_within {k : ℤ} (h : ∀ b, fits k (withSign b (abs x).toBits) = true)
    (y : Float) : Within k (copySign x y) :=
  within_of_fits (h (signBit y))

/-- The angle of a vector stays bounded, also when its length is out of range. -/
theorem atan2_within {y x : Float} (hy : isNan y = false) (hx : isNan x = false) :
    Within 24 (atan2 y x) := by
  have hzero : isFinite 0 = true := by decide
  have hpi : Within 23 pi := within_of_fits (by decide)
  unfold atan2
  dsimp only
  rw [if_neg (show ¬(isNan y || isNan x) = true by simp [hy, hx])]
  split_ifs with hy0 hsign hx0 hxinf hsign hyinf hyinf hyinf hneg hq
  all_goals try exact copySign_within (by decide) y
  all_goals
    have hyfinite : isFinite y = true := by simpa [hy] using hyinf
    have hxfinite : isFinite x = true := by simpa [hx] using hxinf
    rw [beq_iff_value hxfinite hzero, value_zero] at hx0
    have hatan := atan_within (isNan_div hyfinite hxfinite hx0)
  · exact hatan.add hpi (by norm_num) (by norm_num)
  · exact hatan.sub hpi (by norm_num) (by norm_num)
  · exact hatan.mono (by norm_num)

theorem stretch_within {big small : Float} (hbig : isFinite big = true)
    (hsmall : isFinite small = true) (h0 : value big ≠ 0) (hle : |value small| ≤ |value big|) :
    Within 1 (small / big * (small / big) + 1).sqrt := by
  have hpos : 0 < |value big| := abs_pos.mpr h0
  have hratio : Within 0 (small / big) := by
    have hone : |value small / value big| ≤ 2 ^ (0 : ℤ) := by
      rw [abs_div, zpow_zero, div_le_one hpos]
      exact hle
    exact (div_near hsmall hbig h0 (Within.le_top hone (by norm_num))).within (by norm_num) hone
  have hsquare : Within 0 (small / big * (small / big)) :=
    hratio.mul hratio (by norm_num) (by norm_num)
  have hsquare0 := value_mul_nonneg hratio hratio (by norm_num) (mul_self_nonneg _)
  have hone : Within 1 (1 : Float) := within_of_fits (by decide)
  have hsum : Within 2 (small / big * (small / big) + 1) :=
    (hsquare.mono (by norm_num)).add hone (by norm_num) (by norm_num)
  have hsum0 := value_add_nonneg (hsquare.mono (by norm_num)) hone (by norm_num) hsquare0 (by simp)
  obtain ⟨q, hq, hnear⟩ := exists_sqrt_near (k := 1) hsum.finite hsum0 (by norm_num)
    ((le_abs_self _).trans hsum.le)
  exact hnear.within (by norm_num) hq

theorem hypot_cases (hp : isFinite p = true) (hq : isFinite q = true) :
    hypot p q = 0 ∨ ∃ big s, (big = abs p ∨ big = abs q) ∧ Within 1 s ∧ hypot p q = big * s := by
  have hzero : isFinite 0 = true := by decide
  have hfp := isFinite_abs hp
  have hfq := isFinite_abs hq
  unfold hypot
  dsimp only
  rw [if_neg (by simp [hp, hq]), if_neg (by simp [isNan_of_isFinite hp, isNan_of_isFinite hq])]
  by_cases hlt : abs p < abs q
  · rw [if_pos hlt]
    dsimp only
    split_ifs with h0
    · exact .inl rfl
    · right
      rw [beq_iff_value hfq hzero, value_zero] at h0
      rw [lt_iff_value hfp hfq, value_abs hp, value_abs hq] at hlt
      refine ⟨abs q, _, .inr rfl, stretch_within hfq hfp h0 ?_, rfl⟩
      rw [value_abs hp, value_abs hq, abs_abs, abs_abs]
      exact hlt.le
  · rw [if_neg hlt]
    dsimp only
    split_ifs with h0
    · exact .inl rfl
    · right
      rw [beq_iff_value hfp hzero, value_zero] at h0
      rw [lt_iff_value hfp hfq, value_abs hp, value_abs hq, not_lt] at hlt
      refine ⟨abs p, _, .inl rfl, stretch_within hfp hfq h0 ?_, rfl⟩
      rw [value_abs hp, value_abs hq, abs_abs, abs_abs]
      exact hlt

theorem isNan_hypot (hp : isFinite p = true) (hq : isFinite q = true) :
    isNan (hypot p q) = false := by
  obtain h | ⟨big, s, hbig, hs, h⟩ := hypot_cases hp hq
  · rw [h]
    decide
  · rw [h]
    obtain rfl | rfl := hbig
    · exact isNan_mul (isFinite_abs hp) hs.finite
    · exact isNan_mul (isFinite_abs hq) hs.finite

theorem hypot_within {k : ℤ} (hp : Within k p) (hq : Within k q) (hlow : -1075 ≤ k)
    (hhigh : k ≤ 1022) : Within (k + 1) (hypot p q) := by
  obtain h | ⟨big, s, hbig, hs, h⟩ := hypot_cases hp.finite hq.finite
  · rw [h]
    refine ⟨by decide, ?_⟩
    rw [value_zero, abs_zero]
    positivity
  · rw [h]
    obtain rfl | rfl := hbig
    · exact hp.abs.mul hs (by omega) (by omega)
    · exact hq.abs.mul hs (by omega) (by omega)

end Toolpath.Number

namespace Toolpath.ToolAxis

open Number

theorem isFinite_normal {a : Float} (ha : Within 31 a) : isFinite (normal round a) = true := by
  have h360 : Within 31 (360 : Float) := within_of_fits (by decide)
  have hturned : Within 32 (if a < 0 then a + 360 else a) := by
    split
    · exact ha.add h360 (by norm_num) (by norm_num)
    · exact ha.mono (by norm_num)
  have hscaled := hturned.mul (k := 10) (y := 1000) (within_of_fits (by decide)) (by norm_num)
    (by norm_num)
  have hround := isFinite_round hscaled.finite
  have h1000 : 2 ^ (1 : ℤ) ≤ |value (1000 : Float)| := le_abs_value_of_reaches (by decide)
  have hle : Within 1024 (round ((if a < 0 then a + 360 else a) * 1000)) :=
    ⟨hround, (abs_value_lt hround).le⟩
  exact (hle.div (by decide) h1000 (by norm_num) (by norm_num)).finite

theorem degrees_within {a : Float} (ha : Within 24 a) : Within 31 (degrees a) := by
  have hproduct := ha.mul (k := 8) (y := 180) (within_of_fits (by decide)) (by norm_num)
    (by norm_num)
  exact hproduct.div (k := 1) (by decide) (le_abs_value_of_reaches (by decide))
    (by norm_num) (by norm_num)

theorem isFinite_angles {i j k : Float} (hi : isFinite i = true) (hj : isFinite j = true)
    (hk : isFinite k = true) :
    isFinite (angles i j k).1 = true ∧ isFinite (angles i j k).2 = true := by
  have hi' := isNan_of_isFinite hi
  have hj' := isNan_of_isFinite hj
  have hk' := isNan_of_isFinite hk
  exact ⟨isFinite_normal (degrees_within (atan2_within hj' hk')),
    isFinite_normal (degrees_within (atan2_within hi' (isNan_hypot hj hk)))⟩

end Toolpath.ToolAxis
