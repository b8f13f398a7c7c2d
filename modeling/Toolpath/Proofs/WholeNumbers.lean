import Toolpath.Profile.Parse
import Toolpath.Proofs.BoundedDoubles
import Toolpath.Proofs.Numerals

/-!
# Whole numbers in profiles

A whole number of a document is a double, and the integer that a profile has for it is the one
that the shortest digits of the double spell. Both are whole and at most half a unit in the last
place of the double apart, so they are equal as long as that unit is no more than one.
-/

namespace Toolpath

variable {x : Float} {i : Int}

namespace Number

theorem Decimal.whole?_eq {d : Decimal} {n : Nat} (h : d.whole? = some n) :
    d.value = n ∧ d.positional = Text.ofNat n := by
  unfold Decimal.whole? at h
  split at h
  next he =>
    obtain rfl := Option.some.inj h
    rw [Decimal.positional, if_pos he, Decimal.value]
    refine ⟨?_, rfl⟩
    have hpow : ((Nat.pow 10 d.exponent.toNat : Nat) : ℚ) = 10 ^ d.exponent := by
      change ((10 ^ d.exponent.toNat : Nat) : ℚ) = _
      rw [Nat.cast_pow, ← zpow_natCast, Int.toNat_of_nonneg he]
      norm_num
    rw [Nat.cast_mul, hpow]
  next => cases h

theorem exists_natAbs {v : Dyadic} (hx : magnitude x = .finite v)
    (h : Schema.isWhole x = true) : ∃ k : Nat, (v.mantissa : ℚ) * 2 ^ v.exponent = k := by
  have hratio := ratio_value v.mantissa v.exponent
  have hden := ratio_den_ne_zero v.mantissa v.exponent
  unfold Schema.isWhole at h
  rw [hx] at h
  obtain ⟨k, hk⟩ : (ratio v.mantissa v.exponent).den ∣ (ratio v.mantissa v.exponent).num :=
    Nat.dvd_of_mod_eq_zero (by simpa [ratio] using h)
  refine ⟨k, ?_⟩
  rw [← hratio, Ratio.value, hk, Nat.cast_mul, mul_div_cancel_left₀]
  exact_mod_cast hden

theorem RoundsTo.eq_of_lt {m n k : Nat} {e : Int} (hm : Normalized m e) (h : RoundsTo n m e)
    (hk : (m : ℚ) * 2 ^ e = k) (hlt : (k : ℚ) < 2 ^ 53) : n = k := by
  have hunit : (2 : ℚ) ^ e ≤ 1 := by
    apply zpow_le_one_of_nonpos₀ one_le_two
    by_contra hpos
    have hfull : (2 ^ 52 : ℚ) ≤ m := by exact_mod_cast hm.normal (by omega)
    have htwo : (2 : ℚ) ≤ 2 ^ e := by
      calc (2 : ℚ) = 2 ^ (1 : ℤ) := by norm_num
        _ ≤ 2 ^ e := zpow_le_zpow_right₀ one_le_two (by omega)
    nlinarith
  have hlow := (lowEnd_ge m e).trans h.low
  have hhigh := h.high
  rw [highEnd] at hhigh
  -- the two are less than one apart
  have habove : (n : ℚ) < k + 1 := by linarith
  have hbelow : (k : ℚ) < n + 1 := by linarith
  have : n < k + 1 := by exact_mod_cast habove
  have : k < n + 1 := by exact_mod_cast hbelow
  omega

end Number

namespace Profile

/-- The integer that stands for a number: its sign is that of the number and its digits are the
shortest that read back as the number. Below `2 ^ 53` it is the number itself. -/
structure Spells (x : Float) (i : Int) : Prop where
  digits : ∃ n : Nat, i = (if Number.signBit x then -(n : Int) else n) ∧
    Number.shortest x = Number.minus (Number.signBit x) (Text.ofNat n)
  exact : |Number.value x| < 2 ^ 53 → (i : ℚ) = Number.value x

theorem whole?_parts {m n k : Nat} {e : Int} {negative : Bool}
    (hparts : m = 0 ∨ Number.Normalized m e)
    (hn : (Number.shortestDecimal ⟨negative, m, e⟩).whole? = some n) (hk : (m : ℚ) * 2 ^ e = k) :
    ((k : ℚ) < 2 ^ 53 → n = k) ∧ (n = 0 ↔ k = 0) := by
  obtain ⟨hvalue, -⟩ := Number.Decimal.whole?_eq hn
  obtain rfl | hnormal := hparts
  · obtain rfl : k = 0 := by simpa using hk.symm
    obtain rfl : n = 0 := by
      rw [Number.shortestDecimal, if_pos rfl] at hvalue
      simpa [Number.Decimal.value] using hvalue.symm
    simp
  · obtain ⟨hrounds, hdigits⟩ := Number.shortestDecimal_spec negative hnormal
    have hpos := hnormal.pos
    have hn0 : n ≠ 0 := by
      rintro rfl
      rw [Number.Decimal.value] at hvalue
      have hten : (10 : ℚ) ^ (Number.shortestDecimal ⟨negative, m, e⟩).exponent ≠ 0 := by positivity
      exact hdigits (by simpa [hten] using hvalue)
    have hk0 : k ≠ 0 := by
      have : (0 : ℚ) < m * 2 ^ e := by positivity
      rintro rfl
      exact this.ne' (by simpa using hk)
    exact ⟨(hvalue ▸ hrounds).eq_of_lt hnormal hk, by simp [hn0, hk0]⟩

/-- The integer and the number have one sign, and are told by natural numbers that are equal
below `2 ^ 53` and zero together. -/
theorem integer?_parts (hwhole : Schema.isWhole x = true) (h : integer? x = some i) :
    ∃ n k : Nat, Number.isFinite x = true ∧ i = (if Number.signBit x then -(n : Int) else n) ∧
      Number.value x = (if Number.signBit x then -(k : ℚ) else k) ∧
      Number.shortest x = Number.minus (Number.signBit x) (Text.ofNat n) ∧
      ((k : ℚ) < 2 ^ 53 → n = k) ∧ (n = 0 ↔ k = 0) := by
  unfold integer? at h
  split at h
  next v hv =>
    split at h
    next n hn =>
      rw [Option.ite_none_right_eq_some] at h
      have hfinite := Number.isFinite_of_magnitude hv
      obtain ⟨m, e, hx, hparts, -⟩ := Number.exists_parts hfinite
      obtain rfl : v = ⟨Number.signBit x, m, e⟩ := Magnitude.finite.inj (hv.symm.trans hx)
      obtain ⟨k, hk⟩ := Number.exists_natAbs hv hwhole
      refine ⟨n, k, hfinite, (Option.some.inj h.2).symm, ?_, ?_, whole?_parts hparts hn hk⟩
      · rw [Number.value_eq hv, hk]
        cases Number.signBit x <;> rfl
      · rw [Number.shortest, hv]
        change Number.minus _ (Number.shortestDecimal _).positional = _
        rw [(Number.Decimal.whole?_eq hn).2]
    next => cases h
  next => cases h

theorem spells_of_integer? (hwhole : Schema.isWhole x = true)
    (h : integer? x = some i) : Spells x i := by
  obtain ⟨n, k, -, rfl, hvalue, hdigits, heq, -⟩ := integer?_parts hwhole h
  refine ⟨⟨n, rfl, hdigits⟩, fun hlt => ?_⟩
  rw [hvalue] at hlt ⊢
  obtain rfl : n = k := by
    apply heq
    cases hsign : Number.signBit x <;> simpa [hsign] using hlt
  cases Number.signBit x <;> simp

theorem isWhole_of_wholeFault {least : Nat} {d : Document}
    (h : Schema.wholeFault least x d = none) :
    Schema.isWhole x = true ∧ ¬x < Number.ofNat false least := by
  unfold Schema.wholeFault at h
  split at h
  next => cases h
  next hwhole =>
    split at h
    next => cases h
    next hlt => exact ⟨by simpa using hwhole, hlt⟩

theorem least_le {least : Nat} (hleast : least ≤ 1)
    (hwhole : Schema.isWhole x = true) (hlt : ¬x < Number.ofNat false least)
    (h : integer? x = some i) : (least : Int) ≤ i := by
  obtain ⟨n, k, hfinite, rfl, hvalue, -, -, hzero⟩ := integer?_parts hwhole h
  obtain ⟨hone, hleast⟩ := Number.value_ofNat (hleast.trans_lt (by norm_num))
  rw [Number.lt_iff_value hfinite hone, not_lt, hleast, hvalue] at hlt
  cases hsign : Number.signBit x with
  | false =>
    rw [hsign, if_neg Bool.false_ne_true] at hlt
    have : least ≤ k := by exact_mod_cast hlt
    rw [if_neg Bool.false_ne_true]
    omega
  | true =>
    rw [hsign, if_pos rfl] at hlt
    have : (least : ℤ) ≤ -(k : ℤ) := by exact_mod_cast hlt
    rw [if_pos rfl]
    omega

end Profile
end Toolpath
