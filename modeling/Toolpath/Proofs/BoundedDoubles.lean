import Toolpath.Proofs.DoubleArithmetic

/-!
# Doubles bounded by powers of two

`Within k x` tells that `x` is finite and at most `2 ^ k` in size. Bounds of this
kind are carried through sums, products and quotients without looking at the
rounding, and for constants they are computed. An operation on finite numbers
may be out of range, but it is never NaN.
-/

namespace Toolpath.Number

open Float.Model Float.Model.UnpackedFloat

/-- Finite, and at most `2 ^ k` in size. -/
structure Within (k : ℤ) (x : Float) : Prop where
  finite : isFinite x = true
  le : |value x| ≤ 2 ^ k

theorem Near.within {q : ℚ} {x : Float} {k : ℤ} (h : Near q x) (hk : -1074 ≤ k) (hq : |q| ≤ 2 ^ k) :
    Within k x :=
  ⟨h.finite, h.le k hk hq⟩

namespace Within

variable {x y : Float} {j k : ℤ}

theorem mono (h : Within j x) (hjk : j ≤ k) : Within k x :=
  ⟨h.finite, h.le.trans (zpow_le_zpow_right₀ one_le_two hjk)⟩

theorem sizes_le (hx : Within k x) (hy : Within k y) : |value x| + |value y| ≤ 2 ^ (k + 1) := by
  rw [zpow_add₀ two_ne_zero, zpow_one]
  linarith [hx.le, hy.le]

theorem product_le (hx : Within j x) (hy : Within k y) : |value x * value y| ≤ 2 ^ (j + k) := by
  rw [abs_mul, zpow_add₀ two_ne_zero]
  exact mul_le_mul hx.le hy.le (abs_nonneg _) (by positivity)

theorem le_top {q : ℚ} (h : |q| ≤ 2 ^ k) (hk : k ≤ 1023) : |q| ≤ 2 ^ (1023 : ℤ) :=
  h.trans (zpow_le_zpow_right₀ one_le_two hk)

theorem add (hx : Within k x) (hy : Within k y) (hlow : -1075 ≤ k) (hhigh : k ≤ 1022) :
    Within (k + 1) (x + y) := by
  have hsum : |value x + value y| ≤ 2 ^ (k + 1) := (abs_add_le _ _).trans (hx.sizes_le hy)
  exact (add_near hx.finite hy.finite (le_top hsum (by omega))).within (by omega) hsum

theorem sub (hx : Within k x) (hy : Within k y) (hlow : -1075 ≤ k) (hhigh : k ≤ 1022) :
    Within (k + 1) (x - y) := by
  have hdiff : |value x - value y| ≤ 2 ^ (k + 1) := (abs_sub _ _).trans (hx.sizes_le hy)
  exact (sub_near hx.finite hy.finite (le_top hdiff (by omega))).within (by omega) hdiff

theorem mul (hx : Within j x) (hy : Within k y) (hlow : -1074 ≤ j + k) (hhigh : j + k ≤ 1023) :
    Within (j + k) (x * y) :=
  (mul_near hx.finite hy.finite (le_top (hx.product_le hy) hhigh)).within hlow (hx.product_le hy)

theorem div (hx : Within j x) (hy : isFinite y = true) (hk : 2 ^ k ≤ |value y|)
    (hlow : -1074 ≤ j - k) (hhigh : j - k ≤ 1023) : Within (j - k) (x / y) := by
  have hpos : (0 : ℚ) < |value y| := lt_of_lt_of_le (by positivity) hk
  have hquotient : |value x / value y| ≤ 2 ^ (j - k) := by
    rw [abs_div, zpow_sub₀ two_ne_zero]
    exact div_le_div₀ (by positivity) hx.le (by positivity) hk
  exact (div_near hx.finite hy (abs_pos.mp hpos) (le_top hquotient hhigh)).within hlow hquotient

theorem neg (hx : Within k x) : Within k (-x) := by
  refine ⟨isFinite_neg hx.finite, ?_⟩
  rw [value_neg hx.finite, abs_neg]
  exact hx.le

end Within

def fits (k : Int) (x : Float) : Bool :=
  match magnitude x with
  | .finite v => v.mantissa.log2 + 1 + v.exponent ≤ k
  | _ => false

def reaches (k : Int) (x : Float) : Bool :=
  match magnitude x with
  | .finite v => v.mantissa ≠ 0 && decide (k ≤ v.mantissa.log2 + v.exponent)
  | _ => false

variable {v : Dyadic} {n : Nat}

theorem value_eq {x : Float} (h : magnitude x = .finite v) :
    value x = signed (if v.negative then .negative else .positive)
      (v.mantissa * 2 ^ v.exponent) := by
  rw [magnitude_eq_unpack] at h
  unfold value
  generalize x.toModel.unpack = u at h ⊢
  cases u with
  | infinity s => cases h
  | notANumber => cases h
  | zero s =>
    obtain rfl := Magnitude.finite.inj h
    cases s <;> simp [signed]
  | finite s m e hm =>
    obtain rfl := Magnitude.finite.inj h
    cases s <;> rfl

theorem abs_value {x : Float} (h : magnitude x = .finite v) :
    |value x| = v.mantissa * 2 ^ v.exponent := by
  rw [value_eq h, abs_signed, abs_of_nonneg (by positivity)]

theorem within_of_fits {x : Float} {k : ℤ} (h : fits k x = true) : Within k x := by
  unfold fits at h
  cases hx : magnitude x with
  | infinite s => simp [hx] at h
  | undefined => simp [hx] at h
  | finite v =>
    simp only [hx, decide_eq_true_eq] at h
    refine ⟨isFinite_of_magnitude hx, ?_⟩
    rw [abs_value hx]
    have hm : (v.mantissa : ℚ) ≤ 2 ^ (v.mantissa.log2 + 1 : ℤ) := by
      exact_mod_cast (Nat.lt_log2_self (n := v.mantissa)).le
    calc
      (v.mantissa : ℚ) * 2 ^ v.exponent ≤ 2 ^ (v.mantissa.log2 + 1 : ℤ) * 2 ^ v.exponent := by
        gcongr
      _ = 2 ^ (v.mantissa.log2 + 1 + v.exponent) := (zpow_add₀ two_ne_zero _ _).symm
      _ ≤ 2 ^ k := zpow_le_zpow_right₀ one_le_two h

theorem le_abs_value_of_reaches {x : Float} {k : ℤ} (h : reaches k x = true) :
    2 ^ k ≤ |value x| := by
  unfold reaches at h
  cases hx : magnitude x with
  | infinite s => simp [hx] at h
  | undefined => simp [hx] at h
  | finite v =>
    simp only [hx, Bool.and_eq_true, decide_eq_true_eq] at h
    rw [abs_value hx]
    have hm : (2 : ℚ) ^ (v.mantissa.log2 : ℤ) ≤ v.mantissa := by exact_mod_cast Nat.log2_self_le h.1
    calc (2 : ℚ) ^ k ≤ 2 ^ (v.mantissa.log2 + v.exponent) := zpow_le_zpow_right₀ one_le_two h.2
      _ = 2 ^ (v.mantissa.log2 : ℤ) * 2 ^ v.exponent := zpow_add₀ two_ne_zero _ _
      _ ≤ v.mantissa * 2 ^ v.exponent := by gcongr

theorem value_nonneg {x : Float} (hx : isFinite x = true) (hsign : signBit x = false) :
    0 ≤ value x := by
  obtain ⟨m, e, hmagnitude, -⟩ := exists_parts hx
  rw [value_eq hmagnitude, hsign, if_neg Bool.false_ne_true, signed]
  positivity

theorem signBit_of_pos {x : Float} (hx : isFinite x = true) (h : 0 < value x) :
    signBit x = false := by
  obtain ⟨m, e, hmagnitude, -⟩ := exists_parts hx
  by_contra hneg
  rw [value_eq hmagnitude, Bool.eq_true_of_not_eq_false hneg, if_pos rfl, signed] at h
  have : (0 : ℚ) ≤ m * 2 ^ e := by positivity
  linarith

@[simp] theorem value_zero : value 0 = 0 := rfl

@[simp] theorem value_one : value 1 = 1 := by
  have hone : (1 : Float).toModel.unpack = .finite .positive (2 ^ 52) (-52) (by norm_num) := rfl
  rw [value, hone, worth_finite, signed]
  norm_num

theorem value_add_nonneg {x y : Float} {k : ℤ} (hx : Within k x) (hy : Within k y) (hk : k ≤ 1022)
    (hx0 : 0 ≤ value x) (hy0 : 0 ≤ value y) : 0 ≤ value (x + y) := by
  have hsum : |value x + value y| ≤ 2 ^ (k + 1) := (abs_add_le _ _).trans (hx.sizes_le hy)
  exact (add_near hx.finite hy.finite (Within.le_top hsum (by omega))).nonneg (add_nonneg hx0 hy0)

theorem value_mul_nonneg {x y : Float} {j k : ℤ} (hx : Within j x) (hy : Within k y)
    (hk : j + k ≤ 1023) (h0 : 0 ≤ value x * value y) : 0 ≤ value (x * y) :=
  (mul_near hx.finite hy.finite (Within.le_top (hx.product_le hy) hk)).nonneg h0

theorem toBits_abs {x : Float} (hx : isFinite x = true) :
    (abs x).toBits.toNat = x.toBits.toNat % 2 ^ 63 := by
  have hmask : (x.toBits &&& 0x7FFFFFFFFFFFFFFF).toNat = x.toBits.toNat % 2 ^ 63 := by
    rw [UInt64.toNat_and]
    exact Nat.and_two_pow_sub_one_eq_mod _ 63
  have hfield : x.toBits.toNat / 2 ^ 52 % 2 ^ 11 ≠ 2047 := bne_iff_ne.mp hx
  rw [abs, toBits_ofBits (by omega), hmask]

theorem magnitude_abs {x : Float} (h : magnitude x = .finite v) :
    magnitude (abs x) = .finite { v with negative := false } := by
  have hbits := toBits_abs (isFinite_of_magnitude h)
  have hfield : (abs x).toBits.toNat / Nat.pow 2 52 % Nat.pow 2 11 =
      x.toBits.toNat / Nat.pow 2 52 % Nat.pow 2 11 := by
    change _ / 2 ^ 52 % 2 ^ 11 = _ / 2 ^ 52 % 2 ^ 11
    omega
  have hfraction : (abs x).toBits.toNat % Nat.pow 2 52 = x.toBits.toNat % Nat.pow 2 52 := by
    change _ % 2 ^ 52 = _ % 2 ^ 52
    omega
  have hsign : signBit (abs x) = false := by
    apply decide_eq_false
    change ¬2 ^ 63 ≤ _
    omega
  unfold magnitude at h ⊢
  dsimp only at h ⊢
  rw [hfield, hfraction, hsign]
  split_ifs at h ⊢
  · obtain rfl := Magnitude.finite.inj h
    rfl
  · obtain rfl := Magnitude.finite.inj h
    rfl

theorem isFinite_abs {x : Float} (hx : isFinite x = true) : isFinite (abs x) = true := by
  obtain ⟨m, e, hmagnitude, -⟩ := exists_parts hx
  exact isFinite_of_magnitude (magnitude_abs hmagnitude)

theorem value_abs {x : Float} (hx : isFinite x = true) : value (abs x) = |value x| := by
  obtain ⟨m, e, hmagnitude, -⟩ := exists_parts hx
  rw [abs_value hmagnitude, value_eq (magnitude_abs hmagnitude)]
  rfl

theorem Within.abs {x : Float} {k : ℤ} (h : Within k x) : Within k (abs x) := by
  refine ⟨isFinite_abs h.finite, ?_⟩
  rw [value_abs h.finite, abs_abs]
  exact h.le

theorem isNan_of_held {x : Float} {u : UnpackedFloat} (h : Held u)
    (hx : x.toModel = Float.Model.pack u) :
    isNan x = false := by
  have hmagnitude := magnitude_eq_unpack x
  rw [hx] at hmagnitude
  obtain hu | ⟨-, s, hs⟩ := unpack_pack_cases h
  · rw [isNan, hmagnitude, hu]
    cases u with
    | infinity s => exact h.elim
    | notANumber => exact h.elim
    | zero s => rfl
    | finite s m e hm => rfl
  · rw [isNan, hmagnitude, hs]
    rfl

theorem isNan_of_isFinite {x : Float} (hx : isFinite x = true) : isNan x = false := by
  obtain ⟨m, e, hmagnitude, -⟩ := exists_parts hx
  simp [isNan, hmagnitude]

theorem isNan_mul {x y : Float} (hx : isFinite x = true) (hy : isFinite y = true) :
    isNan (x * y) = false :=
  isNan_of_held (rounded_mul (held_unpack hx) (held_unpack hy)).held rfl

theorem isNan_div {x y : Float} (hx : isFinite x = true) (hy : isFinite y = true)
    (h0 : value y ≠ 0) :
    isNan (x / y) = false :=
  isNan_of_held (rounded_div (held_unpack hx) (held_unpack hy) h0).held rfl

theorem eq_infinity {x : Float} (hx : isFinite x = false) (hnan : isNan x = false) :
    x = infinity (signBit x) := by
  have hbits : x.toBits.toNat < 2 ^ 64 := x.toBits.toNat_lt
  have hfield : x.toBits.toNat / 2 ^ 52 % 2 ^ 11 = 2047 := by simpa [isFinite] using hx
  have hfraction : x.toBits.toNat % 2 ^ 52 = 0 := by
    by_contra hne
    have hundefined : magnitude x = .undefined := by
      rw [magnitude, if_pos (show _ / Nat.pow 2 52 % Nat.pow 2 11 = 2047 from hfield),
        if_neg (show ¬_ % Nat.pow 2 52 = 0 from hne)]
    simp [isNan, hundefined] at hnan
  apply eq_of_toBits
  apply UInt64.toNat_inj.mp
  cases hsign : signBit x with
  | false =>
    have hlt : ¬2 ^ 63 ≤ x.toBits.toNat := of_decide_eq_false hsign
    have hinfinity : (infinity false).toBits.toNat = 2047 * 2 ^ 52 := by decide
    omega
  | true =>
    have hge : 2 ^ 63 ≤ x.toBits.toNat := of_decide_eq_true hsign
    have hinfinity : (infinity true).toBits.toNat = 2 ^ 63 + 2047 * 2 ^ 52 := by decide
    omega

theorem round?_isSome (h : n < 2 ^ 64) : (double.round? n 1).isSome := by
  have horder : binaryOrder n 1 ≤ n.log2 := by
    unfold binaryOrder
    dsimp only
    have hlog : Nat.log2 1 = 0 := by decide
    rw [hlog]
    split <;> omega
  unfold BinaryFormat.round?
  split_ifs with h0
  · rfl
  · have hlog : n.log2 < 64 := (Nat.log2_lt h0).mpr h
    have hprecision : ((double.precision - 1 : Nat) : Int) = 52 := rfl
    have hleast : double.least = -1074 := rfl
    have hgreatest : double.greatest = 971 := rfl
    dsimp only
    rw [hprecision, hleast, hgreatest]
    have he : max (-1074) (binaryOrder n 1 - 52) ≤ 12 := by omega
    generalize max (-1074) (binaryOrder n 1 - 52) = e at he
    generalize (if 0 ≤ e then _ else _) = m
    split_ifs with htop hrange hrange
    · omega
    · rfl
    · omega
    · rfl

theorem isFinite_ofNat (h : n < 2 ^ 64) (negative : Bool) : isFinite (ofNat negative n) = true := by
  obtain ⟨⟨m, e⟩, hround⟩ := Option.isSome_iff_exists.mp (round?_isSome h)
  have hnearest : nearest? negative n 1 = some (withSign negative (pack m e)) := by
    rw [nearest?, hround]
    rfl
  rw [ofNat, hnearest]
  exact isFinite_nearest? one_ne_zero hnearest

theorem exists_value_eq {m : Nat} {e : Int} (h : Normalized m e) :
    ∃ x, isFinite x = true ∧ value x = m * 2 ^ e := by
  let u : UnpackedFloat := .finite .positive m e h.pos
  have hheld : Held u := ⟨h.lt, h.least, h.normal⟩
  have hworth : worth u = m * 2 ^ e := worth_finite .positive e h.pos
  have hsmall : |worth u| < 2 ^ (1024 : ℤ) := by
    rw [hworth, abs_of_nonneg (by positivity)]
    have hm : (m : ℚ) < 2 ^ (53 : ℤ) := by exact_mod_cast h.lt
    have he := h.greatest
    calc (m : ℚ) * 2 ^ e < 2 ^ (53 : ℤ) * 2 ^ e := by gcongr
      _ = 2 ^ (53 + e) := (zpow_add₀ two_ne_zero _ _).symm
      _ ≤ 2 ^ (1024 : ℤ) := zpow_le_zpow_right₀ one_le_two (by omega)
  have hunpack : (Float.ofModel (Float.Model.pack u)).toModel.unpack = u := unpack_pack hheld hsmall
  refine ⟨.ofModel (Float.Model.pack u), isFinite_of_held (by rwa [hunpack]), ?_⟩
  rw [value, hunpack, hworth]

theorem exists_value_grid {i : Nat} (hi : i < 2 ^ 53) :
    ∃ x, isFinite x = true ∧ value x = i * 2 ^ (-20 : ℤ) := by
  obtain rfl | hpos := Nat.eq_zero_or_pos i
  · refine ⟨0, by decide, ?_⟩
    have hzero : magnitude 0 = .finite ⟨false, 0, -1074⟩ := by decide
    rw [value_eq hzero]
    simp [signed]
  · -- as many digits as a full mantissa has
    have hlog : i.log2 < 53 := (Nat.log2_lt hpos.ne').mpr hi
    have hlow := Nat.log2_self_le hpos.ne'
    have hhigh := Nat.lt_log2_self (n := i)
    have hnormal : Normalized (i * 2 ^ (52 - i.log2)) (-20 - (52 - i.log2 : Nat)) := by
      have hfull : 2 ^ 52 ≤ i * 2 ^ (52 - i.log2) := by
        calc 2 ^ 52 = 2 ^ i.log2 * 2 ^ (52 - i.log2) := by rw [← pow_add]; congr 1; omega
          _ ≤ i * 2 ^ (52 - i.log2) := by gcongr
      have hlt : i * 2 ^ (52 - i.log2) < 2 ^ 53 := by
        calc i * 2 ^ (52 - i.log2) < 2 ^ (i.log2 + 1) * 2 ^ (52 - i.log2) := by gcongr
          _ = 2 ^ 53 := by rw [← pow_add]; congr 1; omega
      exact ⟨by positivity, hlt, by omega, by omega, fun _ => hfull⟩
    obtain ⟨x, hx, hvalue⟩ := exists_value_eq hnormal
    refine ⟨x, hx, hvalue.trans ?_⟩
    rw [zpow_sub₀ two_ne_zero, zpow_natCast]
    push_cast
    field_simp

theorem value_ofNat (hn : n < 2 ^ 33) :
    isFinite (ofNat false n) = true ∧ value (ofNat false n) = n := by
  obtain rfl | hpos := Nat.eq_zero_or_pos n
  · have hzero : ofNat false 0 = 0 := by decide
    rw [hzero, value_zero]
    exact ⟨by decide, Nat.cast_zero.symm⟩
  · obtain ⟨x, hx, hgrid⟩ := exists_value_grid (i := n * 2 ^ 20) (by omega)
    have hvalue : value x = n := by
      rw [hgrid, Nat.cast_mul, mul_assoc]
      norm_num
    obtain ⟨m, e, hmagnitude, hparts, hpack⟩ := exists_parts hx
    have hexact : (n : ℚ) = m * 2 ^ e := by rw [← abs_value hmagnitude, hvalue, Nat.abs_cast]
    have hn0 : (0 : ℚ) < n := by exact_mod_cast hpos
    have hsign := signBit_of_pos hx (by rwa [hvalue])
    obtain rfl | hnormal := hparts
    · simp [hexact] at hn0
    · have hround : double.round? n 1 = some (m, e) := by
        have hunit : (0 : ℚ) < 2 ^ e := by positivity
        apply round?_of_roundsTo hpos.ne' one_ne_zero hnormal
        rw [Nat.cast_one, div_one, hexact]
        apply RoundsTo.of_between
        · unfold lowEnd
          split <;> linarith
        · unfold highEnd
          linarith
      have heq : ofNat false n = x := by
        rw [ofNat, nearest?, hround, ← hpack, hsign]
        rfl
      rw [heq]
      exact ⟨hx, hvalue⟩

theorem isFinite_ofInt (i : Int64) : isFinite (ofInt i.toInt) = true := by
  apply isFinite_ofNat
  have := i.toInt_lt
  have := i.le_toInt
  omega

theorem isFinite_round {x : Float} (hx : isFinite x = true) : isFinite (round x) = true := by
  obtain ⟨m, e, hmagnitude, hparts, -⟩ := exists_parts hx
  unfold round
  rw [hmagnitude]
  dsimp only
  split_ifs with he
  · exact hx
  · apply isFinite_ofNat
    have hm : m < 2 ^ 53 := by
      obtain rfl | hnormal := hparts
      · norm_num
      · exact hnormal.lt
    have hd : 0 < Nat.pow 2 (-e).toNat := Nat.pow_pos two_pos
    generalize Nat.pow 2 (-e).toNat = d at hd
    calc divideToUpper m d ≤ m + 1 := by
          apply Nat.div_le_of_le_mul
          have : 2 * m ≤ 2 * m * d := Nat.le_mul_of_pos_right _ hd
          linarith
      _ < 2 ^ 64 := by omega

end Toolpath.Number
