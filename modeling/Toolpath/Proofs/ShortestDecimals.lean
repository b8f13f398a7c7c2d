import Toolpath.Proofs.NearestDoubles

/-!
# The shortest decimal is read back

The shortest decimal of a double is a point of the first decimal grid that has one among the
numbers that round to the double. A grid of seventeen digits always has one: it is finer than the
doubles are apart.
-/

namespace Toolpath.Number

def Ratio.value (r : Ratio) : ℚ := r.num / r.den

theorem Ratio.le_iff {a b : Ratio} (ha : a.den ≠ 0) (hb : b.den ≠ 0) :
    a.le b = true ↔ a.value ≤ b.value := by
  have ha' : (0 : ℚ) < a.den := by exact_mod_cast Nat.pos_of_ne_zero ha
  have hb' : (0 : ℚ) < b.den := by exact_mod_cast Nat.pos_of_ne_zero hb
  rw [Ratio.le, decide_eq_true_iff, Ratio.value, Ratio.value, div_le_div_iff₀ ha' hb']
  norm_cast

theorem Ratio.lt_iff {a b : Ratio} (ha : a.den ≠ 0) (hb : b.den ≠ 0) :
    a.lt b = true ↔ a.value < b.value := by
  have ha' : (0 : ℚ) < a.den := by exact_mod_cast Nat.pos_of_ne_zero ha
  have hb' : (0 : ℚ) < b.den := by exact_mod_cast Nat.pos_of_ne_zero hb
  rw [Ratio.lt, decide_eq_true_iff, Ratio.value, Ratio.value, div_lt_div_iff₀ ha' hb']
  norm_cast

theorem ratio_den_ne_zero (n : Nat) (e : Int) : (ratio n e).den ≠ 0 := by
  unfold ratio scale
  split_ifs
  · exact one_ne_zero
  · exact pow_ne_zero _ two_ne_zero

theorem ratio_value (n : Nat) (e : Int) : (ratio n e).value = n * 2 ^ e := by
  unfold ratio scale Ratio.value
  split_ifs with he
  · change ((n * 2 ^ e.toNat : Nat) : ℚ) / ((1 : Nat) : ℚ) = _
    rw [Nat.cast_mul, zpow_toNat he, Nat.cast_one, div_one]
  · change (n : ℚ) / ((2 ^ (-e).toNat : Nat) : ℚ) = _
    rw [zpow_toNat (by omega), zpow_neg, div_inv_eq_mul]

variable {d : Decimal} {i : Interval} {order : Int} {n : Nat}

namespace Decimal

def value (d : Decimal) : ℚ := d.digits * 10 ^ d.exponent

theorem ratio_value (d : Decimal) : d.ratio.value = d.value := by
  unfold Decimal.ratio Ratio.value Decimal.value
  split_ifs with he
  · change ((d.digits * 10 ^ d.exponent.toNat : Nat) : ℚ) / ((1 : Nat) : ℚ) = _
    rw [Nat.cast_one, div_one, Nat.cast_mul, Nat.cast_pow, ← zpow_natCast, Int.toNat_of_nonneg he]
    rfl
  · change (d.digits : ℚ) / ((10 ^ (-d.exponent).toNat : Nat) : ℚ) = _
    rw [Nat.cast_pow, ← zpow_natCast, Int.toNat_of_nonneg (by omega), zpow_neg, div_inv_eq_mul]
    rfl

theorem value_pos (h : d.digits ≠ 0) : 0 < d.value := by
  have : (0 : ℚ) < d.digits := by exact_mod_cast Nat.pos_of_ne_zero h
  unfold value
  positivity

theorem strip_spec (d : Decimal) (h : d.digits ≠ 0) (fuel : Nat) :
    (d.strip fuel).value = d.value ∧ (d.strip fuel).digits ≠ 0 := by
  induction fuel generalizing d with
  | zero => exact ⟨rfl, h⟩
  | succ fuel ih =>
    rw [Decimal.strip]
    split_ifs with hten
    · obtain ⟨hvalue, hdigits⟩ := ih ⟨d.digits / 10, d.exponent + 1⟩ (by dsimp only; omega)
      refine ⟨hvalue.trans ?_, hdigits⟩
      obtain ⟨k, hk⟩ := Nat.dvd_of_mod_eq_zero hten.2
      unfold value
      rw [hk, Nat.mul_div_cancel_left k (by norm_num), zpow_add_one₀ (by norm_num)]
      push_cast
      ring
    · exact ⟨rfl, h⟩

end Decimal

variable {m : Nat} {e : Int} {negative : Bool}

theorem interval_low (h : 0 < m) : (interval ⟨negative, m, e⟩).low.value = lowEnd m e := by
  have hquarter : (2 : ℚ) ^ e = 4 * 2 ^ (e - 2) := by
    rw [zpow_sub₀ two_ne_zero]
    norm_num
    ring
  change (ratio (if m = 2 ^ 52 ∧ -1074 < e then 4 * m - 1 else 4 * m - 2) (e - 2)).value = _
  rw [ratio_value, lowEnd, hquarter]
  split_ifs
  · rw [Nat.cast_sub (by omega)]
    push_cast
    ring
  · rw [Nat.cast_sub (by omega)]
    push_cast
    ring

theorem interval_high : (interval ⟨negative, m, e⟩).high.value = highEnd m e := by
  have hquarter : (2 : ℚ) ^ e = 4 * 2 ^ (e - 2) := by
    rw [zpow_sub₀ two_ne_zero]
    norm_num
    ring
  change (ratio (4 * m + 2) (e - 2)).value = _
  rw [ratio_value, highEnd, hquarter]
  push_cast
  ring

theorem Interval.holds_iff (hlow : i.low.den ≠ 0) (hhigh : i.high.den ≠ 0) (d : Decimal) :
    i.holds d = true ↔
      if i.closed then i.low.value ≤ d.value ∧ d.value ≤ i.high.value
      else i.low.value < d.value ∧ d.value < i.high.value := by
  unfold Interval.holds
  split_ifs
  · rw [Bool.and_eq_true, Ratio.le_iff hlow d.ratio_den_ne_zero,
      Ratio.le_iff d.ratio_den_ne_zero hhigh, d.ratio_value]
  · rw [Bool.and_eq_true, Ratio.lt_iff hlow d.ratio_den_ne_zero,
      Ratio.lt_iff d.ratio_den_ne_zero hhigh, d.ratio_value]

theorem interval_holds (h : 0 < m) (d : Decimal) :
    (interval ⟨negative, m, e⟩).holds d = true ↔ RoundsTo d.value m e := by
  rw [Interval.holds_iff (ratio_den_ne_zero _ _) (ratio_den_ne_zero _ _), interval_low h,
    interval_high]
  change (if decide (m % 2 = 0) then _ else _) ↔ _
  by_cases heven : m % 2 = 0
  · rw [if_pos (by simpa using heven)]
    exact ⟨fun hd => ⟨hd.1, hd.2, fun _ => heven⟩, fun hd => ⟨hd.low, hd.high⟩⟩
  · rw [if_neg (by simpa using heven)]
    constructor
    · intro hd
      refine ⟨hd.1.le, hd.2.le, ?_⟩
      rintro (heq | heq)
      · exact absurd heq hd.1.ne'
      · exact absurd heq hd.2.ne
    · intro hd
      exact ⟨lt_of_le_of_ne hd.low fun heq => heven (hd.tie (.inl heq.symm)),
        lt_of_le_of_ne hd.high fun heq => heven (hd.tie (.inr heq))⟩

theorem Interval.onGrid?_sound
    (h : i.onGrid? order n = some d) : i.holds d = true ∧ d.digits ≠ 0 := by
  unfold Interval.onGrid? at h
  dsimp only at h
  generalize i.value.num * _ / _ = digits at h
  cases hbelow : i.holds ⟨digits, order - n⟩ && digits != 0 with
  | false =>
    cases habove : i.holds ⟨digits + 1, order - n⟩ with
    | false => simp [hbelow, habove] at h
    | true =>
      obtain rfl : (⟨digits + 1, order - n⟩ : Decimal) = d := by simpa [hbelow, habove] using h
      exact ⟨habove, Nat.succ_ne_zero digits⟩
  | true =>
    have hgood : i.holds ⟨digits, order - n⟩ = true ∧ digits ≠ 0 := by simpa using hbelow
    cases habove : i.holds ⟨digits + 1, order - n⟩ with
    | false =>
      obtain rfl : (⟨digits, order - n⟩ : Decimal) = d := by simpa [hbelow, habove] using h
      exact hgood
    | true =>
      rw [hbelow, habove] at h
      dsimp only at h
      split_ifs at h <;> obtain rfl := Option.some.inj h
      · exact hgood
      · exact ⟨habove, Nat.succ_ne_zero digits⟩
      · exact hgood
      · exact ⟨habove, Nat.succ_ne_zero digits⟩

def Interval.digitsBelow (i : Interval) (order : Int) (n : Nat) : Nat :=
  i.value.num * (Decimal.ratio ⟨1, order - n⟩).den /
    (i.value.den * (Decimal.ratio ⟨1, order - n⟩).num)

theorem Interval.onGrid?_isSome
    (h : i.holds ⟨i.digitsBelow order n, order - n⟩ = true ∧ i.digitsBelow order n ≠ 0 ∨
      i.holds ⟨i.digitsBelow order n + 1, order - n⟩ = true) :
    (i.onGrid? order n).isSome = true := by
  unfold Interval.onGrid?
  dsimp only
  split
  next hbelow habove =>
    change (i.holds ⟨i.digitsBelow order n, order - n⟩ && i.digitsBelow order n != 0) =
      false at hbelow
    change i.holds ⟨i.digitsBelow order n + 1, order - n⟩ = false at habove
    simp_all
  · rfl
  · rfl
  · split_ifs <;> rfl

theorem Interval.search_spec {n fuel k : Nat} (hk : n ≤ k)
    (hfuel : k < n + fuel) (h : (i.onGrid? order k).isSome = true) :
    i.holds (i.search order n fuel) = true ∧ (i.search order n fuel).digits ≠ 0 := by
  induction fuel generalizing n with
  | zero => omega
  | succ fuel ih =>
    rw [Interval.search]
    cases hgrid : i.onGrid? order n with
    | some d => exact Interval.onGrid?_sound hgrid
    | none =>
      have hne : n ≠ k := by
        rintro rfl
        rw [hgrid] at h
        cases h
      exact ih (by omega) (by omega)

theorem floor_bounds {a b : Nat} (hb : b ≠ 0) :
    ((a / b : Nat) : ℚ) ≤ a / b ∧ (a / b : ℚ) < (a / b : Nat) + 1 := by
  have hb' : (0 : ℚ) < b := by exact_mod_cast Nat.pos_of_ne_zero hb
  constructor
  · rw [le_div_iff₀ hb']
    exact_mod_cast Nat.div_mul_le_self a b
  · rw [div_lt_iff₀ hb']
    exact_mod_cast Nat.lt_mul_of_div_lt (Nat.lt_succ_self _) (Nat.pos_of_ne_zero hb)

theorem Interval.digitsBelow_bounds (hden : i.value.den ≠ 0) (order : Int) (n : Nat) :
    (i.digitsBelow order n : ℚ) * 10 ^ (order - n) ≤ i.value.value ∧
      i.value.value < (i.digitsBelow order n + 1) * 10 ^ (order - n) := by
  set step : Decimal := ⟨1, order - n⟩
  have hvalue : step.ratio.value = 10 ^ (order - n) := by
    rw [step.ratio_value, Decimal.value, Nat.cast_one, one_mul]
  have hpos : (0 : ℚ) < 10 ^ (order - n) := by positivity
  have hstep : step.ratio.den ≠ 0 := step.ratio_den_ne_zero
  have hnum : step.ratio.num ≠ 0 := by
    intro hzero
    rw [Ratio.value, hzero, Nat.cast_zero, zero_div] at hvalue
    exact hpos.ne hvalue
  have hquotient : ((i.value.num * step.ratio.den : Nat) : ℚ) /
      (i.value.den * step.ratio.num : Nat) = i.value.value / 10 ^ (order - n) := by
    rw [← hvalue, Ratio.value, Ratio.value]
    push_cast
    field_simp
  have hbounds := floor_bounds (a := i.value.num * step.ratio.den)
    (b := i.value.den * step.ratio.num) (Nat.mul_ne_zero hden hnum)
  rw [hquotient, le_div_iff₀ hpos, div_lt_iff₀ hpos] at hbounds
  exact hbounds

theorem pow_length_le (h : n ≠ 0) : (10 : ℚ) ^ ((Nat.toDigits 10 n).length - 1 : Int) ≤ n := by
  obtain ⟨k, hk⟩ := Nat.exists_eq_succ_of_ne_zero (Nat.length_toDigits_pos (b := 10) (n := n)).ne'
  have hle : 10 ^ k ≤ n := by
    by_contra hlt
    cases k with
    | zero => omega
    | succ k =>
      have := (Nat.length_toDigits_le_iff (b := 10) (by norm_num) k.succ_pos).mpr (not_le.mp hlt)
      omega
  rw [hk]
  push_cast
  rw [add_sub_cancel_right, zpow_natCast]
  exact_mod_cast hle

theorem lt_pow_length (n : Nat) : (n : ℚ) < 10 ^ ((Nat.toDigits 10 n).length : Int) := by
  rw [zpow_natCast]
  exact_mod_cast (Nat.length_toDigits_le_iff (b := 10) (by norm_num) Nat.length_toDigits_pos).mp
    (le_refl _)

theorem pow_decimalOrder_le {r : Ratio} (hnum : r.num ≠ 0) (hden : r.den ≠ 0) :
    (10 : ℚ) ^ (decimalOrder r - 1) ≤ r.value := by
  have hden' : (0 : ℚ) < r.den := by exact_mod_cast Nat.pos_of_ne_zero hden
  unfold decimalOrder
  dsimp only
  split_ifs with hle hlt
  · have hwhole : r.num / r.den ≠ 0 := Nat.div_ne_zero_iff.mpr ⟨hden, hle⟩
    exact (pow_length_le hwhole).trans (floor_bounds hden).1
  · rw [Ratio.value, le_div_iff₀ hden']
    calc (10 : ℚ) ^ ((Nat.toDigits 10 r.num).length - (Nat.toDigits 10 r.den).length - 1 : Int) *
      r.den
        ≤ 10 ^ ((Nat.toDigits 10 r.num).length - (Nat.toDigits 10 r.den).length - 1 : Int) *
          10 ^ ((Nat.toDigits 10 r.den).length : Int) := by
          gcongr
          exact (lt_pow_length r.den).le
      _ = 10 ^ ((Nat.toDigits 10 r.num).length - 1 : Int) := by
        rw [← zpow_add₀ (by norm_num)]
        congr 1
        ring
      _ ≤ r.num := pow_length_le hnum
  · rw [add_sub_cancel_right]
    have hge := mt (Ratio.lt_iff hden (Decimal.ratio_den_ne_zero _)).mpr hlt
    rw [Decimal.ratio_value, Decimal.value, Nat.cast_one, one_mul, not_lt] at hge
    exact hge

theorem onGrid?_seventeen (negative : Bool) (h : Normalized m e) :
    ((interval ⟨negative, m, e⟩).onGrid? (decimalOrder (interval ⟨negative, m, e⟩).value)
      17).isSome =
      true := by
  set i := interval ⟨negative, m, e⟩
  set order := decimalOrder i.value
  have hunit : (0 : ℚ) < 2 ^ e := by positivity
  have hden : i.value.den ≠ 0 := ratio_den_ne_zero m e
  have hvalue : i.value.value = m * 2 ^ e := ratio_value m e
  have hm : (0 : ℚ) < m := by exact_mod_cast h.pos
  have hnum : i.value.num ≠ 0 := by
    intro hzero
    rw [Ratio.value, hzero, Nat.cast_zero, zero_div] at hvalue
    exact (mul_pos hm hunit).ne hvalue
  obtain ⟨hbelow, habove⟩ := i.digitsBelow_bounds hden order 17
  -- a step of the grid is at most a part in `10 ^ 16` of the value
  have hstep : 10 ^ 16 * (10 : ℚ) ^ (order - (17 : Nat)) ≤ m * 2 ^ e := by
    calc 10 ^ 16 * (10 : ℚ) ^ (order - (17 : Nat)) = 10 ^ (order - 1) := by
          rw [← zpow_natCast, ← zpow_add₀ (by norm_num)]
          congr 1
          push_cast
          ring
      _ ≤ i.value.value := pow_decimalOrder_le hnum hden
      _ = m * 2 ^ e := hvalue
  set step := (10 : ℚ) ^ (order - (17 : Nat))
  set digits := i.digitsBelow order 17
  have hpos : 0 < step := by positivity
  rw [hvalue] at hbelow habove
  have hholds : ∀ k : Nat, i.holds ⟨k, order - (17 : Nat)⟩ = true ↔ RoundsTo (k * step) m e :=
    fun k => interval_holds h.pos _
  have hlow : lowEnd m e < m * 2 ^ e := by
    unfold lowEnd
    split_ifs <;> nlinarith
  have hhigh : (m : ℚ) * 2 ^ e < highEnd m e := by
    unfold highEnd
    nlinarith
  apply Interval.onGrid?_isSome
  rw [hholds, hholds]
  by_cases hnear : (digits + 1) * step < highEnd m e
  · right
    push_cast
    exact .of_between (hlow.trans habove) hnear
  · left
    have hlt : (m : ℚ) < 2 ^ 53 := by exact_mod_cast h.lt
    have hfar : (m : ℚ) * 2 ^ e + 1 / 2 * 2 ^ e ≤ (digits + 1) * step := by
      have := not_lt.mp hnear
      unfold highEnd at this
      linarith
    have hend : lowEnd m e < digits * step := by
      unfold lowEnd
      split_ifs with hleast
      · rw [hleast.1] at hstep hfar hbelow ⊢
        push_cast at hstep hfar hbelow ⊢
        nlinarith
      · nlinarith
    refine ⟨.of_between hend (hbelow.trans_lt hhigh), ?_⟩
    intro hzero
    change digits = 0 at hzero
    rw [hzero, Nat.cast_zero, zero_add, one_mul] at habove
    nlinarith

theorem shortestDecimal_spec (negative : Bool) (h : Normalized m e) :
    RoundsTo (shortestDecimal ⟨negative, m, e⟩).value m e ∧
      (shortestDecimal ⟨negative, m, e⟩).digits ≠ 0 := by
  unfold shortestDecimal
  rw [if_neg h.pos.ne']
  obtain ⟨hholds, hdigits⟩ := Interval.search_spec (n := 1) (by norm_num : 1 ≤ 17)
    (by norm_num : 17 < 1 + 17) (onGrid?_seventeen negative h)
  obtain ⟨hvalue, hstripped⟩ := Decimal.strip_spec _ hdigits 17
  exact ⟨hvalue ▸ (interval_holds h.pos _).mp hholds, hstripped⟩

theorem Decimal.pow_order_le (h : d.digits ≠ 0) : (10 : ℚ) ^ (d.order - 1) ≤ d.value := by
  have hpos : (0 : ℚ) < 10 ^ d.exponent := by positivity
  calc (10 : ℚ) ^ (d.order - 1)
      = 10 ^ ((Nat.toDigits 10 d.digits).length - 1 : Int) * 10 ^ d.exponent := by
        rw [← zpow_add₀ (by norm_num), Decimal.order]
        congr 1
        ring
    _ ≤ d.digits * 10 ^ d.exponent := by
      gcongr
      exact pow_length_le h

theorem Decimal.lt_pow_order (d : Decimal) : d.value < 10 ^ d.order := by
  have hpos : (0 : ℚ) < 10 ^ d.exponent := by positivity
  calc d.value = d.digits * 10 ^ d.exponent := rfl
    _ < 10 ^ ((Nat.toDigits 10 d.digits).length : Int) * 10 ^ d.exponent := by
      gcongr
      exact lt_pow_length d.digits
    _ = 10 ^ d.order := by rw [← zpow_add₀ (by norm_num), Decimal.order]

theorem least_order : (10 : ℚ) ^ (-330 : Int) ≤ 1 / 2 * 2 ^ (-1074 : Int) := by
  have hpow : 2 ^ 1075 ≤ 10 ^ 330 := by decide +kernel
  have hcast : ((2 : ℚ) ^ 1075) ≤ 10 ^ 330 := by exact_mod_cast hpow
  calc (10 : ℚ) ^ (-330 : Int) = (10 ^ 330)⁻¹ := by rw [zpow_neg]; rfl
    _ ≤ (2 ^ 1075)⁻¹ := inv_anti₀ (by positivity) hcast
    _ = 1 / 2 * 2 ^ (-1074 : Int) := by
      rw [pow_succ, mul_inv, zpow_neg, mul_comm, one_div]
      rfl

theorem greatest_order : (2 : ℚ) ^ 53 * 2 ^ (971 : Int) < 10 ^ (310 : Int) := by
  have hpow : 2 ^ 53 * 2 ^ 971 < 10 ^ 310 := by decide +kernel
  exact_mod_cast hpow

theorem Decimal.order_bounds (h : Normalized m e) (hd : d.digits ≠ 0)
    (hrounds : RoundsTo d.value m e) : -330 ≤ d.order ∧ d.order ≤ 310 := by
  have hm : (1 : ℚ) ≤ m := by exact_mod_cast h.pos
  have hlt : (m : ℚ) + 1 ≤ 2 ^ 53 := by exact_mod_cast h.lt
  constructor
  · have hleast : (10 : ℚ) ^ (-330 : Int) < 10 ^ d.order := by
      calc (10 : ℚ) ^ (-330 : Int) ≤ 1 / 2 * 2 ^ (-1074 : Int) := least_order
        _ ≤ 1 / 2 * 2 ^ e := by
          gcongr
          · exact one_le_two
          · exact h.least
        _ ≤ (m - 1 / 2) * 2 ^ e := by
          gcongr
          linarith
        _ ≤ d.value := (lowEnd_ge m e).trans hrounds.low
        _ < 10 ^ d.order := d.lt_pow_order
    exact ((zpow_lt_zpow_iff_right₀ (by norm_num)).mp hleast).le
  · have hgreatest : (10 : ℚ) ^ (d.order - 1) < 10 ^ (310 : Int) := by
      calc (10 : ℚ) ^ (d.order - 1) ≤ d.value := d.pow_order_le hd
        _ ≤ (m + 1 / 2) * 2 ^ e := hrounds.high
        _ ≤ 2 ^ 53 * 2 ^ e := by
          gcongr
          linarith
        _ ≤ 2 ^ 53 * 2 ^ (971 : Int) := by
          gcongr
          · exact one_le_two
          · exact h.greatest
        _ < 10 ^ (310 : Int) := greatest_order
    have := (zpow_lt_zpow_iff_right₀ (by norm_num)).mp hgreatest
    omega

theorem Decimal.nearest?_eq {x : Float} (h : Normalized m e) (hd : d.digits ≠ 0)
    (hrounds : RoundsTo d.value m e) (hx : withSign negative (pack m e) = x) :
    d.nearest? negative = some x := by
  obtain ⟨hlow, hhigh⟩ := Decimal.order_bounds h hd hrounds
  have hden := d.ratio_den_ne_zero
  have hnum : d.ratio.num ≠ 0 := by
    intro hzero
    have hvalue := d.ratio_value
    rw [Ratio.value, hzero, Nat.cast_zero, zero_div] at hvalue
    exact (Decimal.value_pos hd).ne hvalue
  rw [← d.ratio_value] at hrounds
  unfold Decimal.nearest?
  rw [if_neg (by omega), if_neg (by omega), Number.nearest?, round?_of_roundsTo hnum hden h hrounds]
  exact congrArg some hx

end Toolpath.Number
