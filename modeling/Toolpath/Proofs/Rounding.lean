import Mathlib.Tactic.FieldSimp
import Mathlib.Tactic.Linarith
import Toolpath.Proofs.FiniteNumbers

/-!
# Rounding the result of an operation

The result of an operation on doubles is rounded to 53 bits, or to those above the least double.
Rounding keeps the order of a number and every power of two that is a double, so it leads over
none of them.
-/

namespace Toolpath.Number

open Float.Model Float.Model.UnpackedFloat

/-- The mantissa is the whole part of `r`, and the two bits behind it say in
which half of its unit `r` lies, and whether at the start of that half. -/
def Describes (em : ExtendedMantissa) (r : ℚ) : Prop :=
  match em.roundBit, em.stickyBit with
  | false, false => r = em.mantissa
  | false, true => em.mantissa < r ∧ r < em.mantissa + 1 / 2
  | true, false => r = em.mantissa + 1 / 2
  | true, true => em.mantissa + 1 / 2 < r ∧ r < em.mantissa + 1

variable {n m : Nat} {e : Int} {u v : UnpackedFloat}

namespace Describes

variable {em : ExtendedMantissa} {r : ℚ}

theorem mantissa_le (h : Describes em r) : (em.mantissa : ℚ) ≤ r := by
  obtain ⟨m, b, s⟩ := em
  cases b <;> cases s <;> simp only [Describes] at h ⊢ <;> linarith

theorem lt_succ_mantissa (h : Describes em r) : r < em.mantissa + 1 := by
  obtain ⟨m, b, s⟩ := em
  cases b <;> cases s <;> simp only [Describes] at h ⊢ <;> linarith

theorem shiftRightOne (h : Describes em r) : Describes em.shiftRightOne (r / 2) := by
  obtain ⟨m, b, s⟩ := em
  have hm : (m : ℚ) = 2 * (m / 2 : Nat) + (m % 2 : Nat) := by
    exact_mod_cast (Nat.div_add_mod m 2).symm
  obtain hbit | hbit := Nat.mod_two_eq_zero_or_one m
  all_goals
    rw [hbit] at hm
    cases b <;> cases s <;>
      simp [Describes, ExtendedMantissa.shiftRightOne, hbit] at h ⊢ <;>
      first | linarith | constructor <;> linarith

theorem shiftRight (h : Describes em r) (n : Nat) : Describes (em >>> n) (r / 2 ^ n) := by
  change Describes (n.repeat ExtendedMantissa.shiftRightOne em) _
  induction n with
  | zero => simpa [Nat.repeat] using h
  | succ n ih =>
    rw [pow_succ, ← div_div]
    exact ih.shiftRightOne

theorem roundedMantissa_le (h : Describes em r) (hr : r ≤ n) : em.roundedMantissa ≤ n := by
  have hle : em.mantissa ≤ n := by exact_mod_cast h.mantissa_le.trans hr
  obtain ⟨m, b, s⟩ := em
  have hup : (m : ℚ) < r → m + 1 ≤ n := fun hlt => by exact_mod_cast hlt.trans_le hr
  cases b <;> cases s <;> simp only [Describes] at h
  · exact hle
  · exact hle
  · have := hup (by linarith)
    change m + m % 2 ≤ n
    omega
  · exact hup (by linarith)

theorem le_roundedMantissa (h : Describes em r) (hr : n ≤ r) : n ≤ em.roundedMantissa := by
  have hle : n ≤ em.mantissa := by
    have : (n : ℚ) < em.mantissa + 1 := hr.trans_lt h.lt_succ_mantissa
    exact Nat.lt_succ_iff.mp (by exact_mod_cast this)
  apply hle.trans
  obtain ⟨m, b, s⟩ := em
  cases b <;> cases s <;> simp [ExtendedMantissa.roundedMantissa, ExtendedMantissa.accuracy,
    Accuracy.roundToNearestEven]

end Describes

theorem mantissa_shiftRight (em : ExtendedMantissa) (n : Nat) :
    (em >>> n).mantissa = em.mantissa / 2 ^ n := by
  change (n.repeat ExtendedMantissa.shiftRightOne em).mantissa = _
  induction n with
  | zero => simp [Nat.repeat]
  | succ n ih =>
    rw [pow_succ, ← Nat.div_div_eq_div_mul, ← ih]
    rfl

def carried (s : Sign) (k : Nat) (e : Int) : UnpackedFloat :=
  if h : k = 0 then .zero s
  else if k = 2 ^ 53 then .finite s (2 ^ 52) (e + 1) (by positivity)
  else .finite s k e (Nat.pos_of_ne_zero h)

theorem shiftToTargetExponent_eq (m : Nat) (e : Int) (acc : Accuracy) :
    shiftToTargetExponent Format.binary64 m e acc =
      (ExtendedMantissa.ofMantissaAndAccuracy m acc >>>
        (max (m.log2 + 1 + e - 53) (-1074) - e).toNat,
        e + (max (m.log2 + 1 + e - 53) (-1074) - e).toNat) := rfl

theorem mantissa_ofMantissaAndAccuracy (m : Nat) (acc : Accuracy) :
    (ExtendedMantissa.ofMantissaAndAccuracy m acc).mantissa = m := by
  cases acc with
  | exact => rfl
  | inexact o => cases o <;> rfl

theorem shiftToTargetExponent_carried {k : Nat} (hk : k ≤ 2 ^ 53) (he : -1074 ≤ e) (s : Sign) :
    (if h : (shiftToTargetExponent Format.binary64 k e .exact).1.mantissa = 0 then .zero s
      else .finite s (shiftToTargetExponent Format.binary64 k e .exact).1.mantissa
        (shiftToTargetExponent Format.binary64 k e .exact).2 (Nat.pos_of_ne_zero h)) =
          carried s k e := by
  have hmantissa : (shiftToTargetExponent Format.binary64 k e .exact).1.mantissa =
      k / 2 ^ (max (k.log2 + 1 + e - 53) (-1074) - e).toNat := by
    rw [shiftToTargetExponent_eq, mantissa_shiftRight]
    rfl
  have hexponent : (shiftToTargetExponent Format.binary64 k e .exact).2 =
      e + (max (k.log2 + 1 + e - 53) (-1074) - e).toNat := rfl
  generalize (shiftToTargetExponent Format.binary64 k e .exact).1.mantissa = m at hmantissa
  generalize (shiftToTargetExponent Format.binary64 k e .exact).2 = e' at hexponent
  unfold carried
  obtain hlt | rfl := Nat.lt_or_eq_of_le hk
  · have hshift : (max (k.log2 + 1 + e - 53) (-1074) - e).toNat = 0 := by
      have hlog : k.log2 < 53 := by
        by_cases h0 : k = 0
        · subst h0
          decide
        · exact (Nat.log2_lt h0).mpr hlt
      omega
    rw [hshift] at hmantissa hexponent
    obtain rfl : m = k := by simpa using hmantissa
    obtain rfl : e' = e := by simpa using hexponent
    by_cases h0 : m = 0
    · rw [dif_pos h0, dif_pos h0]
    · rw [dif_neg h0, dif_neg h0, if_neg hlt.ne]
  · have hshift : (max ((2 ^ 53).log2 + 1 + e - 53) (-1074) - e).toNat = 1 := by
      rw [Nat.log2_two_pow]
      omega
    rw [hshift] at hmantissa hexponent
    obtain rfl : m = 2 ^ 52 := by rw [hmantissa]; norm_num
    obtain rfl : e' = e + 1 := by simpa using hexponent
    rw [dif_neg (by norm_num), dif_neg (by norm_num), if_pos rfl]

theorem shifted_bounds (hbits : e ≤ -1074 ∨ 2 ^ 52 ≤ m)
    (hn : n = (max (m.log2 + 1 + e - 53) (-1074) - e).toNat) :
    m / 2 ^ n < 2 ^ 53 ∧ -1074 ≤ e + n ∧ (-1074 < e + n → 2 ^ 52 ≤ m / 2 ^ n) := by
  have hlog : m < 2 ^ (m.log2 + 1) := Nat.lt_log2_self
  have hfull : e ≤ -1074 ∨ 52 ≤ m.log2 := by
    refine hbits.imp_right fun h => (Nat.le_log2 ?_).mpr h
    exact (lt_of_lt_of_le (by positivity) h).ne'
  refine ⟨?_, by omega, fun hlow => ?_⟩
  · rw [Nat.div_lt_iff_lt_mul (by positivity), ← pow_add]
    exact hlog.trans_le (Nat.pow_le_pow_right two_pos (by omega))
  · have hle : 52 + n ≤ m.log2 := by omega
    rw [Nat.le_div_iff_mul_le (by positivity), ← pow_add]
    have hm : m ≠ 0 := by
      rintro rfl
      simp at hle
    exact (Nat.pow_le_pow_right two_pos hle).trans (Nat.log2_self_le hm)

/-- Rounding keeps 53 bits, or those above the least double, and does not pass a
multiple of the unit that is left. -/
theorem exists_carried {acc : Accuracy} {r : ℚ}
    (hr : Describes (.ofMantissaAndAccuracy m acc) r) (hbits : e ≤ -1074 ∨ 2 ^ 52 ≤ m) (s : Sign) :
    ∃ k e', roundWithAccuracy Format.binary64 s m e acc = carried s k e' ∧
      k ≤ 2 ^ 53 ∧ -1074 ≤ e' ∧ (-1074 < e' → 2 ^ 52 ≤ k) ∧
      (∀ n : Nat, r * 2 ^ e ≤ n * 2 ^ e' → k ≤ n) ∧
      (∀ n : Nat, n * 2 ^ e' ≤ r * 2 ^ e → n ≤ k) := by
  have hshift := shiftToTargetExponent_eq m e acc
  obtain ⟨hlt, hleast, hfull⟩ := shifted_bounds hbits rfl
  generalize (max (m.log2 + 1 + e - 53) (-1074) - e).toNat = n at hshift hlt hleast hfull
  have hdescribed := hr.shiftRight n
  have hmantissa : (ExtendedMantissa.ofMantissaAndAccuracy m acc >>> n).mantissa = m / 2 ^ n := by
    rw [mantissa_shiftRight, mantissa_ofMantissaAndAccuracy]
  rw [← hmantissa] at hlt hfull
  generalize ExtendedMantissa.ofMantissaAndAccuracy m acc >>> n = em at hshift hdescribed hlt hfull
  have hunit : r * 2 ^ e = r / 2 ^ n * 2 ^ (e + n) := by
    rw [zpow_add₀ two_ne_zero, zpow_natCast]
    field_simp
  have hscale : (0 : ℚ) < 2 ^ (e + n) := by positivity
  have hcarry : em.roundedMantissa ≤ 2 ^ 53 :=
    hdescribed.roundedMantissa_le (hdescribed.lt_succ_mantissa.le.trans (by exact_mod_cast hlt))
  refine ⟨em.roundedMantissa, e + n, ?_, hcarry, hleast, ?_, ?_, ?_⟩
  · rw [← shiftToTargetExponent_carried hcarry hleast]
    unfold roundWithAccuracy
    rw [hshift]
  · intro hlow
    exact (hfull hlow).trans (hdescribed.le_roundedMantissa hdescribed.mantissa_le)
  · intro k hk
    apply hdescribed.roundedMantissa_le
    rw [hunit] at hk
    exact le_of_mul_le_mul_right hk hscale
  · intro k hk
    apply hdescribed.le_roundedMantissa
    rw [hunit] at hk
    exact le_of_mul_le_mul_right hk hscale

/-! ## What an unpacked number stands for -/

def signed (s : Sign) (q : ℚ) : ℚ :=
  match s with
  | .negative => -q
  | .positive => q

@[simp] theorem abs_signed (s : Sign) (q : ℚ) : |signed s q| = |q| := by
  cases s with
  | negative => exact abs_neg q
  | positive => rfl

theorem signed_sub (s : Sign) (q t : ℚ) : signed s (q - t) = signed s q - signed s t := by
  cases s with
  | negative => exact neg_sub' q t
  | positive => rfl

theorem signed_apply (s : Sign) (i : Int) : ((s.apply i : Int) : ℚ) = signed s i := by
  cases s with
  | negative => exact Int.cast_neg i
  | positive => rfl

/-- The number an unpacked number stands for; an infinity and NaN stand for none. -/
def worth : UnpackedFloat → ℚ
  | .finite s m e _ => signed s (m * 2 ^ e)
  | _ => 0

/-- As a double holds it, but for the size of the exponent. -/
def Held : UnpackedFloat → Prop
  | .zero _ => True
  | .finite _ m e _ => m < 2 ^ 53 ∧ -1074 ≤ e ∧ (-1074 < e → 2 ^ 52 ≤ m)
  | _ => False

/-- The number is held as a double and lies on the same side of zero, and of each
power of two from the least double on, as `q`; the two are no more than a unit of its
last place apart. -/
structure Rounded (q : ℚ) (u : UnpackedFloat) : Prop where
  held : Held u
  le : ∀ k : ℤ, -1074 ≤ k → |q| ≤ 2 ^ k → |worth u| ≤ 2 ^ k
  ge : ∀ k : ℤ, -1074 ≤ k → 2 ^ k ≤ |q| → 2 ^ k ≤ |worth u|
  nonneg : 0 ≤ q → 0 ≤ worth u
  close : |q - worth u| ≤ |worth u| * 2 ^ (-52 : ℤ) + 2 ^ (-1074 : ℤ)

theorem rounded_self (h : Held u) : Rounded (worth u) u := by
  refine ⟨h, fun _ _ => id, fun _ _ => id, id, ?_⟩
  rw [sub_self, abs_zero]
  positivity

@[simp] theorem worth_zero (s : Sign) : worth (.zero s) = 0 := rfl

theorem worth_finite (s : Sign) (e : Int) (hm : 0 < m) :
    worth (.finite s m e hm) = signed s (m * 2 ^ e) := rfl

theorem rounded_zero (s : Sign) : Rounded 0 (.zero s) := rounded_self (u := .zero s) trivial

theorem carried_cases (s : Sign) (k : Nat) (e : Int) :
    k = 0 ∧ carried s k e = .zero s ∨
      k = 2 ^ 53 ∧ carried s k e = .finite s (2 ^ 52) (e + 1) (Nat.two_pow_pos 52) ∨
      ∃ h : 0 < k, k ≠ 2 ^ 53 ∧ carried s k e = .finite s k e h := by
  unfold carried
  by_cases h0 : k = 0
  · exact .inl ⟨h0, dif_pos h0⟩
  rw [dif_neg h0]
  by_cases hcarry : k = 2 ^ 53
  · exact .inr (.inl ⟨hcarry, if_pos hcarry⟩)
  · exact .inr (.inr ⟨Nat.pos_of_ne_zero h0, hcarry, if_neg hcarry⟩)

theorem worth_carried (s : Sign) (k : Nat) (e : Int) :
    worth (carried s k e) = signed s (k * 2 ^ e) := by
  obtain ⟨rfl, h⟩ | ⟨rfl, h⟩ | ⟨hpos, -, h⟩ := carried_cases s k e
  · rw [h]
    cases s <;> simp [signed]
  · rw [h, worth_finite, zpow_add₀ two_ne_zero]
    congr 1
    norm_num
    ring
  · rw [h, worth_finite]

theorem held_carried {k : Nat} (hk : k ≤ 2 ^ 53) (he : -1074 ≤ e)
    (hfull : -1074 < e → 2 ^ 52 ≤ k) (s : Sign) : Held (carried s k e) := by
  obtain ⟨-, h⟩ | ⟨-, h⟩ | ⟨hpos, hcarry, h⟩ := carried_cases s k e
  · rw [h]
    trivial
  · rw [h]
    exact ⟨by norm_num, by omega, fun _ => le_rfl⟩
  · rw [h]
    exact ⟨by omega, he, hfull⟩

theorem natCast_two_zpow {k e : Int} (h : e ≤ k) :
    (((2 ^ (k - e).toNat : Nat) : ℚ)) * 2 ^ e = 2 ^ k := by
  rw [zpow_toNat (by omega), ← zpow_add₀ two_ne_zero, sub_add_cancel]

theorem rounded_of_describes {acc : Accuracy} {r : ℚ}
    (hr : Describes (.ofMantissaAndAccuracy m acc) r) (hbits : e ≤ -1074 ∨ 2 ^ 52 ≤ m) (s : Sign) :
    Rounded (signed s (r * 2 ^ e)) (roundWithAccuracy Format.binary64 s m e acc) := by
  obtain ⟨n, e', heq, hcarry, hleast, hfull, hle, hge⟩ := exists_carried hr hbits s
  have hr0 : 0 ≤ r := (Nat.cast_nonneg _).trans hr.mantissa_le
  have hq : |r * 2 ^ e| = r * 2 ^ e := abs_of_nonneg (by positivity)
  have hn : |(n : ℚ) * 2 ^ e'| = n * 2 ^ e' := abs_of_nonneg (by positivity)
  rw [heq]
  refine ⟨held_carried hcarry hleast hfull s, ?_, ?_, ?_, ?_⟩
  · intro k hk hbound
    rw [abs_signed, hq] at hbound
    rw [worth_carried, abs_signed, hn]
    by_cases hunit : e' ≤ k
    · rw [← natCast_two_zpow hunit] at hbound ⊢
      have := hle _ hbound
      gcongr
    · -- a number below one unit cannot be rounded to a full mantissa
      have hone : n ≤ 1 := by
        apply hle
        rw [Nat.cast_one, one_mul]
        exact hbound.trans (zpow_le_zpow_right₀ one_le_two (by omega))
      have := hfull (by omega)
      omega
  · intro k hk hbound
    rw [abs_signed, hq] at hbound
    rw [worth_carried, abs_signed, hn]
    by_cases hunit : e' ≤ k
    · rw [← natCast_two_zpow hunit] at hbound ⊢
      have := hge _ hbound
      gcongr
    · have hone : (1 : ℚ) ≤ n := by exact_mod_cast (Nat.one_le_two_pow).trans (hfull (by omega))
      calc (2 : ℚ) ^ k ≤ 2 ^ e' := zpow_le_zpow_right₀ one_le_two (by omega)
        _ ≤ n * 2 ^ e' := le_mul_of_one_le_left (by positivity) hone
  · intro hsign
    rw [worth_carried]
    cases s with
    | positive =>
      change (0 : ℚ) ≤ n * 2 ^ e'
      positivity
    | negative =>
      have h0 : r * 2 ^ e ≤ 0 := by simpa [signed] using hsign
      obtain rfl : n = 0 := Nat.le_zero.mp (hle 0 (by simpa using h0))
      simp [signed]
  · rw [worth_carried, ← signed_sub, abs_signed, abs_signed, hn]
    have hbelow : r * 2 ^ e < (n + 1) * 2 ^ e' := by
      by_contra hnot
      have := hge (n + 1) (by push_cast; exact not_lt.mp hnot)
      omega
    have habove : (n - 1) * 2 ^ e' < r * 2 ^ e := by
      by_contra hnot
      obtain rfl | hpos := Nat.eq_zero_or_pos n
      · have : 0 < (2 : ℚ) ^ e' := by positivity
        apply hnot
        push_cast
        linarith [(by positivity : 0 ≤ r * 2 ^ e)]
      · have := hle (n - 1) (by push_cast [hpos]; exact not_lt.mp hnot)
        omega
    -- one unit is the least double, or small beside a full mantissa
    have hunit : (2 : ℚ) ^ e' ≤ n * 2 ^ e' * 2 ^ (-52 : ℤ) + 2 ^ (-1074 : ℤ) := by
      by_cases hlow : -1074 < e'
      · have hn' : (2 : ℚ) ^ (52 : ℤ) ≤ n := by exact_mod_cast hfull hlow
        calc (2 : ℚ) ^ e' = 2 ^ (52 : ℤ) * 2 ^ e' * 2 ^ (-52 : ℤ) := by
              rw [← zpow_add₀ two_ne_zero, ← zpow_add₀ two_ne_zero]
              congr 1
              omega
          _ ≤ n * 2 ^ e' * 2 ^ (-52 : ℤ) := by gcongr
          _ ≤ _ := le_add_of_nonneg_right (by positivity)
      · obtain rfl : e' = -1074 := by omega
        exact le_add_of_nonneg_left (by positivity)
    rw [abs_le]
    constructor <;> linarith

theorem describes_exact (m : Nat) : Describes (.ofMantissaAndAccuracy m .exact) m := rfl

theorem rounded_round (hm : m ≠ 0) (e : Int) (s : Sign) :
    Rounded (signed s (m * 2 ^ e)) (UnpackedFloat.round Format.binary64 s m e) := by
  have hround : UnpackedFloat.round Format.binary64 s m e =
      roundWithAccuracy Format.binary64 s (m <<< (e - max (m.log2 + 1 + e - 53) (-1074)).toNat)
        (e - (e - max (m.log2 + 1 + e - 53) (-1074)).toNat) .exact := rfl
  rw [hround]
  generalize hn : (e - max (m.log2 + 1 + e - 53) (-1074)).toNat = n
  have hworth : (m : ℚ) * 2 ^ e = (m <<< n : Nat) * 2 ^ (e - n) := by
    rw [Nat.shiftLeft_eq, zpow_sub₀ two_ne_zero, zpow_natCast]
    push_cast
    field_simp
  rw [hworth]
  apply rounded_of_describes (describes_exact _)
  by_cases hlow : e - n ≤ -1074
  · exact .inl hlow
  · right
    rw [Nat.shiftLeft_eq]
    calc 2 ^ 52 ≤ 2 ^ (m.log2 + n) := Nat.pow_le_pow_right two_pos (by omega)
      _ = 2 ^ m.log2 * 2 ^ n := pow_add ..
      _ ≤ m * 2 ^ n := Nat.mul_le_mul_right _ (Nat.log2_self_le hm)

theorem rounded_normalize (i e : Int) (s : Sign) :
    Rounded (i * 2 ^ e) (normalize Format.binary64 i e s) := by
  unfold UnpackedFloat.normalize
  obtain hneg | rfl | hpos := lt_trichotomy i 0
  · have hcompare : compare i 0 = .lt := Int.compare_eq_lt.mpr hneg
    rw [hcompare]
    have hi : (i : ℚ) * 2 ^ e = signed .negative (((-i).toNat : Nat) * 2 ^ e) := by
      have : ((-i).toNat : ℚ) = -i := by exact_mod_cast Int.toNat_of_nonneg (by omega : 0 ≤ -i)
      rw [this, signed]
      ring
    rw [hi]
    exact rounded_round (by omega) e .negative
  · have hcompare : compare (0 : Int) 0 = .eq := rfl
    rw [hcompare, Int.cast_zero, zero_mul]
    exact rounded_zero s
  · have hcompare : compare i 0 = .gt := Int.compare_eq_gt.mpr hpos
    rw [hcompare]
    have hi : (i : ℚ) * 2 ^ e = signed .positive ((i.toNat : Nat) * 2 ^ e) := by
      have : (i.toNat : ℚ) = i := by exact_mod_cast Int.toNat_of_nonneg hpos.le
      rw [this, signed]
    rw [hi]
    exact rounded_round (by omega) e .positive

theorem decreaseExponent_worth (m : Nat) {e t : Int} (h : t ≤ e) :
    ((decreaseExponent m e t).1 : ℚ) * 2 ^ t = m * 2 ^ e := by
  change ((m <<< (e - t).toNat : Nat) : ℚ) * 2 ^ t = _
  rw [Nat.shiftLeft_eq, Nat.cast_mul, mul_assoc, natCast_two_zpow h]

theorem signed_mul (s : Sign) (q t : ℚ) : signed s q * t = signed s (q * t) := by
  cases s with
  | negative => exact neg_mul q t
  | positive => rfl

theorem rounded_add (hu : Held u) (hv : Held v) :
    Rounded (worth u + worth v) (UnpackedFloat.add Format.binary64 u v) := by
  cases u with
  | infinity s => exact hu.elim
  | notANumber => exact hu.elim
  | zero s =>
    rw [worth_zero, zero_add]
    cases v with
    | infinity t => exact hv.elim
    | notANumber => exact hv.elim
    | zero t =>
      change Rounded 0 (if (s == t) = true then .zero s else .zero .positive)
      split <;> exact rounded_zero _
    | finite t m e h => exact rounded_self hv
  | finite s m e h =>
    cases v with
    | infinity t => exact hv.elim
    | notANumber => exact hv.elim
    | zero t =>
      rw [worth_zero, add_zero]
      exact rounded_self hu
    | finite t m' e' h' =>
      have hsum : worth (.finite s m e h) + worth (.finite t m' e' h') =
          ((s.apply (decreaseExponent m e (min e e')).1 +
            t.apply (decreaseExponent m' e' (min e e')).1 : Int) : ℚ) * 2 ^ min e e' := by
        rw [Int.cast_add, add_mul, signed_apply, signed_apply, signed_mul, signed_mul,
          Int.cast_natCast, Int.cast_natCast, decreaseExponent_worth m (min_le_left e e'),
          decreaseExponent_worth m' (min_le_right e e')]
        rfl
      rw [hsum]
      exact rounded_normalize _ _ _

theorem worth_neg (u : UnpackedFloat) : worth u.neg = -worth u := by
  cases u with
  | finite s m e h =>
    cases s with
    | negative => exact (neg_neg _).symm
    | positive => rfl
  | _ => exact neg_zero.symm

theorem Held.neg (h : Held u) : Held u.neg := by
  cases u <;> exact h

theorem apply_neg (s : Sign) (i : Int) : (-s).apply i = -s.apply i := by
  cases s with
  | negative => exact (neg_neg i).symm
  | positive => rfl

theorem sub_eq_add_negated (u v : UnpackedFloat) :
    UnpackedFloat.sub Format.binary64 u v = UnpackedFloat.add Format.binary64 u v.neg := by
  cases u with
  | finite s m e h =>
    cases v with
    | finite t m' e' h' =>
      delta UnpackedFloat.sub UnpackedFloat.add UnpackedFloat.neg
      dsimp only
      rw [apply_neg, sub_eq_add_neg]
    | _ => rfl
  | _ => cases v <;> rfl

theorem rounded_sub (hu : Held u) (hv : Held v) :
    Rounded (worth u - worth v) (UnpackedFloat.sub Format.binary64 u v) := by
  rw [sub_eq_add_negated, sub_eq_add_neg, ← worth_neg]
  exact rounded_add hu hv.neg

theorem signed_mul_signed (s t : Sign) (a b : ℚ) :
    signed s a * signed t b = signed (s * t) (a * b) := by
  cases s with
  | negative =>
    cases t with
    | negative => exact neg_mul_neg a b
    | positive => exact neg_mul a b
  | positive =>
    cases t with
    | negative => exact mul_neg a b
    | positive => rfl

theorem signed_div_signed (s t : Sign) (a b : ℚ) :
    signed s a / signed t b = signed (s / t) (a / b) := by
  cases s with
  | negative =>
    cases t with
    | negative => exact neg_div_neg_eq a b
    | positive => exact neg_div b a
  | positive =>
    cases t with
    | negative => exact div_neg a
    | positive => rfl

theorem rounded_mul (hu : Held u) (hv : Held v) :
    Rounded (worth u * worth v) (UnpackedFloat.mul Format.binary64 u v) := by
  cases u with
  | infinity s => exact hu.elim
  | notANumber => exact hu.elim
  | zero s =>
    rw [worth_zero, zero_mul]
    cases v with
    | infinity t => exact hv.elim
    | notANumber => exact hv.elim
    | zero t => exact rounded_zero _
    | finite t m e h => exact rounded_zero _
  | finite s m e h =>
    cases v with
    | infinity t => exact hv.elim
    | notANumber => exact hv.elim
    | zero t =>
      rw [worth_zero, mul_zero]
      exact rounded_zero _
    | finite t m' e' h' =>
      have hproduct : worth (.finite s m e h) * worth (.finite t m' e' h') =
          signed (s * t) ((m * m' : Nat) * 2 ^ (e + e')) := by
        rw [worth_finite, worth_finite, signed_mul_signed, zpow_add₀ two_ne_zero, Nat.cast_mul]
        ring_nf
      rw [hproduct]
      apply rounded_of_describes (describes_exact _)
      obtain ⟨-, hleast, hfull⟩ := hu
      obtain ⟨-, hleast', hfull'⟩ := hv
      by_cases he : -1074 < e
      · exact .inr ((hfull he).trans (Nat.le_mul_of_pos_right m h'))
      by_cases he' : -1074 < e'
      · exact .inr ((hfull' he').trans (Nat.le_mul_of_pos_left m' h))
      · left
        omega

theorem describes_fraction (a : Nat) {b : Nat} (hb : 0 < b) :
    Describes (.ofMantissaAndAccuracy (a / b) (accuracyOfFraction (a % b) b)) (a / b) := by
  have hb' : (0 : ℚ) < b := by exact_mod_cast hb
  have ha : (a : ℚ) / b = (a / b : Nat) + (a % b : Nat) / b := by
    rw [add_div' _ _ _ hb'.ne', div_left_inj' hb'.ne', mul_comm]
    exact_mod_cast (Nat.div_add_mod a b).symm
  have hmod := Nat.mod_lt a hb
  rw [ha]
  generalize a % b = r at hmod ⊢
  have hlt : (r : ℚ) / b < 1 := by
    rw [div_lt_one hb']
    exact_mod_cast hmod
  unfold accuracyOfFraction
  split_ifs with hr
  · simp [hr, Describes, ExtendedMantissa.ofMantissaAndAccuracy]
  · have hpos : (0 : ℚ) < r / b := by positivity
    obtain h | h | h := lt_trichotomy (2 * r) b
    · have hhalf : (r : ℚ) / b < 1 / 2 := by
        rw [div_lt_iff₀ hb']
        have : (2 * r : ℚ) < b := by exact_mod_cast h
        linarith
      rw [Nat.compare_eq_lt.mpr h]
      simp only [Describes, ExtendedMantissa.ofMantissaAndAccuracy]
      constructor <;> linarith
    · have hhalf : (r : ℚ) / b = 1 / 2 := by
        rw [div_eq_iff hb'.ne']
        have : (2 * r : ℚ) = b := by exact_mod_cast h
        linarith
      rw [Nat.compare_eq_eq.mpr h]
      simp only [Describes, ExtendedMantissa.ofMantissaAndAccuracy]
      linarith
    · have hhalf : 1 / 2 < (r : ℚ) / b := by
        rw [lt_div_iff₀ hb']
        have : (b : ℚ) < 2 * r := by exact_mod_cast h
        linarith
      rw [Nat.compare_eq_gt.mpr h]
      simp only [Describes, ExtendedMantissa.ofMantissaAndAccuracy]
      constructor <;> linarith

theorem rounded_divCore {m m' : Nat} (h : 0 < m) (h' : 0 < m') (e e' : Int) (s : Sign) :
    Rounded (signed s (m * 2 ^ e / (m' * 2 ^ e')))
      (roundWithAccuracy Format.binary64 s (divCore Format.binary64 m e m' e').1
        (divCore Format.binary64 m e m' e').2.1 (divCore Format.binary64 m e m' e').2.2) := by
  have hcore : divCore Format.binary64 m e m' e' =
      let t := min (e - e') (max (m.log2 + 1 + e - (m'.log2 + 1 + e') - 53) (-1074))
      let n := (e - e' - t).toNat
      ((m <<< n) / m', t, accuracyOfFraction ((m <<< n) % m') m') := rfl
  dsimp only at hcore
  have hmin : min (e - e') (max (m.log2 + 1 + e - (m'.log2 + 1 + e') - 53) (-1074)) ≤ e - e' :=
    min_le_left ..
  have hmax : min (e - e') (max (m.log2 + 1 + e - (m'.log2 + 1 + e') - 53) (-1074)) ≤
    max (m.log2 + 1 + e - (m'.log2 + 1 + e') - 53) (-1074) := min_le_right ..
  generalize min (e - e') (max (m.log2 + 1 + e - (m'.log2 + 1 + e') - 53) (-1074)) =
    t at hcore hmin hmax
  generalize hn : (e - e' - t).toNat = n at hcore
  have hquotient : (m : ℚ) * 2 ^ e / (m' * 2 ^ e') = (m <<< n : Nat) / m' * 2 ^ t := by
    have hm' : (m' : ℚ) ≠ 0 := by exact_mod_cast h'.ne'
    have he : e = t + n + e' := by omega
    rw [Nat.shiftLeft_eq, he, zpow_add₀ two_ne_zero, zpow_add₀ two_ne_zero, zpow_natCast]
    push_cast
    field_simp
  rw [hquotient, hcore]
  apply rounded_of_describes (describes_fraction _ h')
  by_cases ht : t ≤ -1074
  · exact .inl ht
  · right
    rw [Nat.le_div_iff_mul_le h', Nat.shiftLeft_eq]
    calc 2 ^ 52 * m' ≤ 2 ^ 52 * 2 ^ (m'.log2 + 1) := Nat.mul_le_mul_left _ Nat.lt_log2_self.le
      _ = 2 ^ (52 + (m'.log2 + 1)) := (pow_add ..).symm
      _ ≤ 2 ^ (m.log2 + n) := Nat.pow_le_pow_right two_pos (by omega)
      _ = 2 ^ m.log2 * 2 ^ n := pow_add ..
      _ ≤ m * 2 ^ n := Nat.mul_le_mul_right _ (Nat.log2_self_le h.ne')

theorem rounded_div (hu : Held u) (hv : Held v) (h0 : worth v ≠ 0) :
    Rounded (worth u / worth v) (UnpackedFloat.div Format.binary64 u v) := by
  cases v with
  | infinity t => exact hv.elim
  | notANumber => exact hv.elim
  | zero t => exact absurd rfl h0
  | finite t m' e' h' =>
    cases u with
    | infinity s => exact hu.elim
    | notANumber => exact hu.elim
    | zero s =>
      rw [worth_zero, zero_div]
      exact rounded_zero _
    | finite s m e h =>
      rw [worth_finite, worth_finite, signed_div_signed]
      exact rounded_divCore h h' e e' (s / t)

/-- The whole part of a root and the bits behind it; the root is bounded by a natural
number whose square bounds the radicand. -/
theorem exists_root (a : Nat) :
    ∃ r : ℚ, (∀ n : Nat, a ≤ n * n → r ≤ n) ∧
      Describes (.ofMantissaAndAccuracy (Nat.sqrt a) (if a - Nat.sqrt a * Nat.sqrt a = 0 then .exact
        else .inexact (if a - Nat.sqrt a * Nat.sqrt a ≤ Nat.sqrt a then .lt else .gt))) r := by
  have hle : Nat.sqrt a * Nat.sqrt a ≤ a := Nat.sqrt_le a
  have hsqrt : ∀ n, a ≤ n * n → Nat.sqrt a ≤ n :=
    fun n h => Nat.mul_self_le_mul_self_iff.mp (hle.trans h)
  generalize Nat.sqrt a = s at hle hsqrt ⊢
  split_ifs with hexact hlow
  · exact ⟨s, fun n h => by exact_mod_cast hsqrt n h, describes_exact s⟩
  all_goals
    have hsucc : ∀ n, a ≤ n * n → (s : ℚ) + 1 ≤ n := by
      intro n h
      have hne : s ≠ n := by
        rintro rfl
        omega
      exact_mod_cast lt_of_le_of_ne (hsqrt n h) hne
  · refine ⟨s + 1 / 4, fun n h => by linarith [hsucc n h], ?_⟩
    simp only [Describes, ExtendedMantissa.ofMantissaAndAccuracy]
    constructor <;> linarith
  · refine ⟨s + 3 / 4, fun n h => by linarith [hsucc n h], ?_⟩
    simp only [Describes, ExtendedMantissa.ofMantissaAndAccuracy]
    constructor <;> linarith

theorem exists_sqrtCore (h : 0 < m) (e : Int) :
    ∃ q : ℚ, (∀ k : ℤ, (m : ℚ) * 2 ^ e ≤ 2 ^ (2 * k) → q ≤ 2 ^ k) ∧ 0 ≤ q ∧
      Rounded q (roundWithAccuracy Format.binary64 .positive (sqrtCore Format.binary64 m e).1
        (sqrtCore Format.binary64 m e).2.1 (sqrtCore Format.binary64 m e).2.2) := by
  have hcore : sqrtCore Format.binary64 m e =
      let t := min (e / 2) (max ((m.log2 + 1 + e + 1) / 2 - 53) (-1074))
      let a := m <<< (e - 2 * t).toNat
      (Nat.sqrt a, t, if a - Nat.sqrt a * Nat.sqrt a = 0 then .exact
        else .inexact (if a - Nat.sqrt a * Nat.sqrt a ≤ Nat.sqrt a then .lt else .gt)) := rfl
  dsimp only at hcore
  have hmin : min (e / 2) (max ((m.log2 + 1 + e + 1) / 2 - 53) (-1074)) ≤ e / 2 := min_le_left ..
  have hmax : min (e / 2) (max ((m.log2 + 1 + e + 1) / 2 - 53) (-1074)) ≤
    max ((m.log2 + 1 + e + 1) / 2 - 53) (-1074) := min_le_right ..
  generalize min (e / 2) (max ((m.log2 + 1 + e + 1) / 2 - 53) (-1074)) = t at hcore hmin hmax
  generalize hn : (e - 2 * t).toNat = n at hcore
  have hradicand : (m : ℚ) * 2 ^ e = (m <<< n : Nat) * (2 ^ t * 2 ^ t) := by
    have he : e = n + (t + t) := by omega
    rw [Nat.shiftLeft_eq, he, zpow_add₀ two_ne_zero, zpow_add₀ two_ne_zero, zpow_natCast]
    push_cast
    ring
  have hbits : t ≤ -1074 ∨ 2 ^ 52 ≤ Nat.sqrt (m <<< n) := by
    by_cases ht : t ≤ -1074
    · exact .inl ht
    · right
      rw [Nat.le_sqrt, Nat.shiftLeft_eq, ← pow_add]
      calc 2 ^ (52 + 52) ≤ 2 ^ (m.log2 + n) := Nat.pow_le_pow_right two_pos (by omega)
        _ = 2 ^ m.log2 * 2 ^ n := pow_add ..
        _ ≤ m * 2 ^ n := Nat.mul_le_mul_right _ (Nat.log2_self_le h.ne')
  have hpos : 0 < m <<< n := by
    rw [Nat.shiftLeft_eq]
    positivity
  obtain ⟨r, hr, hdescribed⟩ := exists_root (m <<< n)
  have hr0 : 0 ≤ r := (Nat.cast_nonneg _).trans hdescribed.mantissa_le
  refine ⟨r * 2 ^ t, ?_, by positivity, ?_⟩
  · intro k hk
    rw [hradicand, two_mul, zpow_add₀ two_ne_zero] at hk
    by_cases htk : t ≤ k
    · rw [← natCast_two_zpow htk] at hk ⊢
      gcongr
      apply hr
      have hscale : (0 : ℚ) < 2 ^ t * 2 ^ t := by positivity
      have : ((m <<< n : Nat) : ℚ) * (2 ^ t * 2 ^ t) ≤
          ((2 ^ (k - t).toNat * 2 ^ (k - t).toNat : Nat) : ℚ) * (2 ^ t * 2 ^ t) := by
        rw [Nat.cast_mul]
        calc _ ≤ _ := hk
          _ = _ := by ring
      exact_mod_cast le_of_mul_le_mul_right this hscale
    · -- the radicand is at least the square of the unit
      exfalso
      have hone : (1 : ℚ) ≤ (m <<< n : Nat) := by exact_mod_cast hpos
      have hlt : (2 : ℚ) ^ k < 2 ^ t := zpow_lt_zpow_right₀ one_lt_two (by omega)
      have hk0 : (0 : ℚ) < 2 ^ k := by positivity
      nlinarith
  · rw [hcore]
    exact rounded_of_describes hdescribed hbits .positive

theorem exists_sqrt (hu : Held u) (h0 : 0 ≤ worth u) :
    ∃ q : ℚ, (∀ k : ℤ, worth u ≤ 2 ^ (2 * k) → q ≤ 2 ^ k) ∧ 0 ≤ q ∧
      Rounded q (UnpackedFloat.sqrt Format.binary64 u) := by
  cases u with
  | infinity s => exact hu.elim
  | notANumber => exact hu.elim
  | zero s => exact ⟨0, fun k _ => by positivity, le_rfl, rounded_zero s⟩
  | finite s m e h =>
    cases s with
    | positive => exact exists_sqrtCore h e
    | negative =>
      have : 0 < (m : ℚ) * 2 ^ e := by positivity
      exact absurd h0 (not_le.mpr (neg_lt_zero.mpr this))

end Toolpath.Number
