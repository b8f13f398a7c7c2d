import Mathlib.Data.Rat.Floor
import Toolpath.Proofs.Angles

/-!
# Normal angles

The angles of a tool axis are made positive first and rounded to thousandths then. An angle
at most half a thousandth below zero is therefore rounded to the full turn; any other comes
to lie below it. This is shown of exact angles, and of doubles up to what is lost by rounding.
-/

namespace Toolpath.Number

theorem divideToUpper_eq (m : Nat) {d : Nat} (hd : d ≠ 0) :
    divideToUpper m d = ⌊(m / d : ℚ) + 1 / 2⌋₊ := by
  have hd' : (d : ℚ) ≠ 0 := by exact_mod_cast hd
  rw [divideToUpper, ← Rat.natFloor_natCast_div_natCast]
  congr 1
  push_cast
  field_simp

theorem round_eq {x : Float} (hx : isFinite x = true) (h0 : 0 ≤ value x)
    (hlt : value x < 2 ^ (52 : ℤ)) : round x = ofNat (signBit x) ⌊value x + 1 / 2⌋₊ := by
  obtain ⟨m, e, hmagnitude, hparts, hpack⟩ := exists_parts hx
  have hvalue : value x = m * 2 ^ e := by rw [← abs_of_nonneg h0, abs_value hmagnitude]
  obtain rfl | hnormal := hparts
  · have hzero : ∀ s, round (withSign s 0) = ofNat s 0 := by decide +kernel
    have hfloor : ⌊value x + 1 / 2⌋₊ = 0 := by
      rw [hvalue, Nat.cast_zero, zero_mul]
      norm_num
    rw [hfloor, ← hzero]
    exact congrArg round hpack.symm
  · have he : e < 0 := by
      by_contra hnot
      have hfull : (2 : ℚ) ^ (52 : ℤ) ≤ m := by exact_mod_cast hnormal.normal (by omega)
      have hone : (1 : ℚ) ≤ 2 ^ e := one_le_zpow₀ one_le_two (by omega)
      rw [hvalue] at hlt
      nlinarith
    have hd : Nat.pow 2 (-e).toNat ≠ 0 := (Nat.two_pow_pos _).ne'
    have hpow : ((Nat.pow 2 (-e).toNat : Nat) : ℚ) = (2 ^ e)⁻¹ := by
      change ((2 ^ (-e).toNat : Nat) : ℚ) = _
      rw [Nat.cast_pow, ← zpow_natCast, Int.toNat_of_nonneg (by omega), zpow_neg, Nat.cast_ofNat]
    rw [round, hmagnitude]
    dsimp only
    rw [if_neg (by omega), divideToUpper_eq m hd, hpow, div_inv_eq_mul, hvalue]

end Toolpath.Number

namespace Toolpath.ToolAxis

open Number

/-- The nearest whole number, a half going away from zero. -/
def nearestWhole (q : ℚ) : ℚ := if q < 0 then -⌊1 / 2 - q⌋₊ else ⌊q + 1 / 2⌋₊

/-- An angle without sign. -/
def turned (a : ℚ) : ℚ := if a < 0 then a + 360 else a

theorem turned_bounds {a : ℚ} (ha : |a| ≤ 180) :
    0 ≤ turned a ∧ turned a < 360 ∧ (359.9995 ≤ turned a ↔ a ∈ Set.Ico (-1 / 2000) 0) := by
  obtain ⟨hlow, hhigh⟩ := abs_le.mp ha
  rw [Set.mem_Ico]
  unfold turned
  split
  next hneg => exact ⟨by linarith, by linarith, fun h => ⟨by linarith, hneg⟩, fun h => by linarith⟩
  next hpos => exact ⟨by linarith, by linarith, fun h => by linarith, fun h => absurd h.2 hpos⟩

theorem floor_bounds {q : ℚ} (h0 : 0 ≤ q) (hq : q < 360000 + 1 / 2) :
    ⌊q + 1 / 2⌋₊ ≤ 360000 ∧ (⌊q + 1 / 2⌋₊ = 360000 ↔ 359999.5 ≤ q) := by
  constructor
  · rw [← Nat.lt_add_one_iff, Nat.floor_lt (by linarith)]
    push_cast
    linarith
  · rw [Nat.floor_eq_iff (by linarith)]
    push_cast
    constructor
    · rintro ⟨h, -⟩
      linarith
    · exact fun h => ⟨by linarith, by linarith⟩

theorem normal_exact {a : ℚ} (ha : |a| ≤ 180) :
    normal nearestWhole a ∈ Set.Icc 0 360 ∧
      (normal nearestWhole a = 360 ↔ a ∈ Set.Ico (-1 / 2000) 0) := by
  obtain ⟨h0, hlt, hedge⟩ := turned_bounds ha
  have hscaled : 359.9995 ≤ turned a ↔ 359999.5 ≤ turned a * 1000 := by
    constructor <;> intro h <;> linarith
  obtain ⟨hmax, htop⟩ := floor_bounds (q := turned a * 1000) (by linarith) (by linarith)
  have hmax' : (⌊turned a * 1000 + 1 / 2⌋₊ : ℚ) ≤ 360000 := by exact_mod_cast hmax
  have hnormal : normal nearestWhole a = ⌊turned a * 1000 + 1 / 2⌋₊ / 1000 := by
    change nearestWhole (turned a * 1000) / 1000 = _
    rw [nearestWhole, if_neg (by linarith)]
  rw [hnormal, ← hedge, hscaled, ← htop]
  refine ⟨⟨by positivity, by linarith⟩, ?_⟩
  rw [div_eq_iff (by norm_num)]
  norm_num
  norm_cast

theorem value_360 : isFinite 360 = true ∧ value 360 = 360 := value_ofNat (n := 360) (by norm_num)
theorem value_1000 :
    isFinite 1000 = true ∧ value 1000 = 1000 := value_ofNat (n := 1000) (by norm_num)

theorem turned_near {x : Float} (hx : isFinite x = true) (hle : |value x| ≤ 180) :
    isFinite (if x < 0 then x + 360 else x) = true ∧ 0 ≤ value (if x < 0 then x + 360 else x) ∧
      |turned (value x) - value (if x < 0 then x + 360 else x)| ≤ 2 ^ (-42 : ℤ) := by
  have hzero : x < 0 ↔ value x < 0 := by rw [lt_iff_value hx (by decide), value_zero]
  obtain ⟨h0, hlt, -⟩ := turned_bounds hle
  unfold turned at h0 hlt ⊢
  simp only [hzero]
  split
  next hneg =>
    rw [if_pos hneg] at h0 hlt
    obtain ⟨h360, hvalue⟩ := value_360
    have hsize : |value x + value 360| ≤ 2 ^ (9 : ℤ) := by
      rw [hvalue, abs_of_nonneg h0]
      norm_num
      linarith
    have hnear := add_near hx h360 (Within.le_top hsize (by norm_num))
    have hclose := hnear.distance (by norm_num) hsize
    rw [hvalue] at hclose hnear
    exact ⟨hnear.finite, hnear.nonneg h0, hclose⟩
  next hpos =>
    rw [sub_self, abs_zero]
    exact ⟨hx, not_lt.mp hpos, by positivity⟩

theorem scaled_near {t : Float} {q : ℚ} (ht : isFinite t = true) (h0 : 0 ≤ value t) (hq : q < 360)
    (hclose : |q - value t| ≤ 2 ^ (-42 : ℤ)) :
    isFinite (t * 1000) = true ∧ 0 ≤ value (t * 1000) ∧
      |q * 1000 - value (t * 1000)| ≤ 2 ^ (-31 : ℤ) := by
  obtain ⟨h1000, hvalue⟩ := value_1000
  rw [abs_le] at hclose
  norm_num at hclose
  have hsize : |value t * value 1000| ≤ 2 ^ (19 : ℤ) := by
    rw [hvalue, abs_of_nonneg (by linarith)]
    norm_num
    linarith
  have hnear := mul_near ht h1000 (Within.le_top hsize (by norm_num))
  have hproduct := hnear.distance (by norm_num) hsize
  rw [hvalue] at hproduct hnear
  refine ⟨hnear.finite, hnear.nonneg (by linarith), ?_⟩
  rw [abs_le] at hproduct ⊢
  norm_num at hproduct ⊢
  constructor <;> linarith

theorem value_div_1000 {n : Nat} (hn : n ≤ 360000) {s : Bool} (hs : n ≠ 0 → s = false) :
    value (ofNat s n / 1000) ∈ Set.Icc 0 360 ∧ (value (ofNat s n / 1000) = 360 ↔ n = 360000) := by
  obtain rfl | hpos := Nat.eq_zero_or_pos n
  · have hzero : value (ofNat s 0 / 1000) = 0 := by cases s <;> rfl
    rw [hzero]
    norm_num
  obtain rfl := hs hpos.ne'
  obtain rfl | hless := hn.eq_or_lt
  · have hwhole : ofNat false 360000 / 1000 = 360 := by decide +kernel
    rw [hwhole, value_360.2]
    norm_num
  obtain ⟨h1000, hvalue⟩ := value_1000
  obtain ⟨hfinite, hn⟩ := value_ofNat (n := n) (by omega)
  have hle : (n : ℚ) ≤ 359999 := by exact_mod_cast Nat.le_of_lt_succ hless
  have hsize : |value (ofNat false n) / value 1000| ≤ 2 ^ (9 : ℤ) := by
    rw [hn, hvalue, abs_of_nonneg (by positivity)]
    norm_num
    linarith
  have hnear :=
    div_near hfinite h1000 (by rw [hvalue]; norm_num) (Within.le_top hsize (by norm_num))
  have hclose := hnear.distance (by norm_num) hsize
  rw [hn, hvalue] at hnear hclose
  rw [abs_le] at hclose
  norm_num at hclose
  have hbelow : value (ofNat false n / 1000) < 360 := by linarith
  exact ⟨⟨hnear.nonneg (by positivity), hbelow.le⟩, iff_of_false hbelow.ne hless.ne⟩

theorem value_normal {x : Float} (hx : isFinite x = true) (hle : |value x| ≤ 180) :
    value (normal round x) ∈ Set.Icc 0 360 ∧ (2 ^ (-40 : ℤ) ≤ |value x + 1 / 2000| →
      (value (normal round x) = 360 ↔ value x ∈ Set.Ico (-1 / 2000) 0)) := by
  obtain ⟨hlow, hhigh, hedge⟩ := turned_bounds hle
  obtain ⟨ht, ht0, htclose⟩ := turned_near hx hle
  obtain ⟨hp, hp0, hclose⟩ := scaled_near ht ht0 hhigh htclose
  unfold normal
  generalize (if x < 0 then x + 360 else x) * 1000 = p at hp hp0 hclose ⊢
  rw [abs_le] at hclose
  norm_num at hclose
  obtain ⟨hmax, htop⟩ := floor_bounds hp0 (by linarith)
  rw [round_eq hp hp0 (by norm_num; linarith)]
  have hsign : ⌊value p + 1 / 2⌋₊ ≠ 0 → signBit p = false := by
    intro hfloor
    apply signBit_of_pos hp
    rw [← Nat.pos_iff_ne_zero, Nat.floor_pos] at hfloor
    linarith
  obtain ⟨hbounds, htop'⟩ := value_div_1000 hmax hsign
  refine ⟨hbounds, fun hoff => ?_⟩
  rw [htop', htop, ← hedge]
  unfold turned at hclose hhigh ⊢
  rw [le_abs] at hoff
  norm_num at hoff
  split_ifs at hclose ⊢ with hneg
  · constructor <;> intro h <;> obtain hoff | hoff := hoff <;> linarith
  · rw [abs_le] at hle
    constructor <;> intro h <;> linarith

/-- The angles of an axis as exact numbers. Made normal, both are at least 0 and below 360 if
and only if neither is within half a thousandth below zero; one that is becomes 360. A double
comes to lie between 0 and 360, and becomes 360 in the same cases, or else is within `2 ^ -40`
of the edge. -/
theorem angles_normal_iff {a b : ℚ} (ha : a ∈ Set.Icc (-180) 180) (hb : b ∈ Set.Icc (-90) 90) :
    (normal nearestWhole a ∈ Set.Ico 0 360 ∧ normal nearestWhole b ∈ Set.Ico 0 360 ↔
      a ∉ Set.Ico (-1 / 2000) 0 ∧ b ∉ Set.Ico (-1 / 2000) 0) ∧
    ∀ c ∈ [a, b], (c ∈ Set.Ico (-1 / 2000) 0 → normal nearestWhole c = 360) ∧
      ∀ x : Float, isFinite x = true → value x = c →
        value (normal round x) ∈ Set.Icc 0 360 ∧ (2 ^ (-40 : ℤ) ≤ |c + 1 / 2000| →
          (value (normal round x) = 360 ↔ c ∈ Set.Ico (-1 / 2000) 0)) := by
  have hrange : ∀ c ∈ [a, b], |c| ≤ 180 := by
    simp only [List.forall_mem_cons, List.not_mem_nil, false_imp_iff, implies_true,
      and_true, abs_le]
    exact ⟨ha, by linarith [hb.1], by linarith [hb.2]⟩
  have hbelow : ∀ c ∈ [a, b], normal nearestWhole c ∈ Set.Ico 0 360 ↔
      c ∉ Set.Ico (-1 / 2000) 0 := by
    intro c hc
    obtain ⟨⟨h0, hle⟩, hedge⟩ := normal_exact (hrange c hc)
    rw [← hedge, Set.mem_Ico, lt_iff_le_and_ne]
    simp [h0, hle]
  refine ⟨and_congr (hbelow a (by simp)) (hbelow b (by simp)), fun c hc => ⟨?_, ?_⟩⟩
  · exact (normal_exact (hrange c hc)).2.mpr
  · rintro x hx rfl
    exact value_normal hx (hrange _ hc)

/-- Half a degree below zero, and a double that is less than half a thousandth below. -/
theorem angles_normal_iff_below_zero :
    (-1 / 2 : ℚ) ∈ Set.Icc (-180) 180 ∧ (-1 / 4096 : ℚ) ∈ Set.Icc (-90) 90 ∧
    isFinite (-0.000244140625) = true ∧ value (-0.000244140625) = -1 / 4096 ∧
    normal nearestWhole (-1 / 4096 : ℚ) = 360 ∧ value (normal round (-0.000244140625)) = 360 := by
  have ha : (-1 / 2 : ℚ) ∈ Set.Icc (-180) 180 := by norm_num
  have hb : (-1 / 4096 : ℚ) ∈ Set.Icc (-90) 90 := by norm_num
  have hedge : (-1 / 4096 : ℚ) ∈ Set.Ico (-1 / 2000) 0 := by norm_num
  have hmagnitude : magnitude (-0.000244140625) = .finite ⟨true, 2 ^ 52, -64⟩ := by decide +kernel
  have hvalue : value (-0.000244140625) = -1 / 4096 := by
    rw [value_eq hmagnitude]
    norm_num [signed]
  have hfinite := isFinite_of_magnitude hmagnitude
  obtain ⟨hfull, hdouble⟩ := (angles_normal_iff ha hb).2 (-1 / 4096) (by simp)
  refine ⟨ha, hb, hfinite, hvalue, hfull hedge, ?_⟩
  exact ((hdouble _ hfinite hvalue).2 (by norm_num [abs_of_pos])).mpr hedge

/-- A vector that is tilted by less than half a thousandth to the negative side gets the
angles of a full turn. -/
theorem tilted_axis_turned_fully :
    (-1 / 4000 : ℚ) ∈ Set.Icc (-90) 90 ∧ normal nearestWhole (-1 / 4000 : ℚ) ∉ Set.Ico 0 360 ∧
    angles (-1e-6) (-1e-6) 1 = (360, 360) := by
  refine ⟨by norm_num, ?_, by decide +kernel⟩
  have hfull : normal nearestWhole (-1 / 4000 : ℚ) = 360 :=
    (normal_exact (by norm_num [abs_of_neg])).2.mpr (by norm_num)
  simp [hfull]

end Toolpath.ToolAxis
