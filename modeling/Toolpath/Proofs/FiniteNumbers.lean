import Mathlib.Algebra.Order.Field.Basic
import Mathlib.Algebra.Order.Field.Power
import Mathlib.Tactic.Positivity
import Mathlib.Tactic.Ring
import Toolpath.Proofs.Packing

/-!
# Numbers that are read are finite

Rounding a quotient to a double leaves a mantissa below `2 ^ 53` and an exponent of at most 971;
what would need a larger one is out of range. So a decimal number is read as a finite double or not
at all.
-/

namespace Toolpath.Number

open Float.Model Float.Model.UnpackedFloat

theorem divideToEven_le {n d k : Nat} (h : n < k * d) : divideToEven n d ≤ k := by
  have hq : n / d < k :=
    (Nat.div_lt_iff_lt_mul (Nat.pos_of_ne_zero (by rintro rfl; simp at h))).mpr h
  unfold divideToEven
  dsimp only
  split_ifs <;> omega

variable {e : Int} {n d m : Nat} {b : UInt64} {negative : Bool} {x : Float}

theorem zpow_toNat (he : 0 ≤ e) : ((2 ^ e.toNat : Nat) : ℚ) = 2 ^ e := by
  rw [Nat.cast_pow, ← zpow_natCast, Int.toNat_of_nonneg he]
  rfl

theorem lt_binaryOrder (hd : d ≠ 0) : (n : ℚ) < d * 2 ^ (binaryOrder n d + 1) := by
  have hlog : (n : ℚ) < d * 2 ^ ((n.log2 : Int) - d.log2 + 1) := by
    have hn : (n : ℚ) < 2 ^ ((n.log2 : Int) + 1) := by
      have := Nat.lt_log2_self (n := n)
      exact_mod_cast this
    have hle : (2 : ℚ) ^ (d.log2 : Int) ≤ d := by
      have := Nat.log2_self_le hd
      exact_mod_cast this
    calc (n : ℚ) < 2 ^ ((n.log2 : Int) + 1) := hn
      _ = 2 ^ (d.log2 : Int) * 2 ^ ((n.log2 : Int) - d.log2 + 1) := by
        rw [← zpow_add₀ two_ne_zero]
        congr 1
        omega
      _ ≤ d * 2 ^ ((n.log2 : Int) - d.log2 + 1) := by gcongr
  unfold binaryOrder
  generalize (n.log2 : Int) - d.log2 = e at hlog ⊢
  dsimp only
  split_ifs with he hfits hfits
  · exact hlog
  · rw [sub_add_cancel, ← zpow_toNat he]
    exact_mod_cast Nat.lt_of_not_le hfits
  · exact hlog
  · have hscaled : (n : ℚ) * 2 ^ (-e) < d := by
      rw [← zpow_toNat (by omega)]
      exact_mod_cast Nat.lt_of_not_le hfits
    rw [zpow_neg, ← div_eq_mul_inv, div_lt_iff₀ (by positivity)] at hscaled
    rwa [sub_add_cancel]

theorem rounded_le (hd : d ≠ 0) (he : binaryOrder n d - 52 ≤ e) :
    (if 0 ≤ e then divideToEven n (d * Nat.pow 2 e.toNat)
      else divideToEven (n * Nat.pow 2 (-e).toNat) d) ≤ 2 ^ 53 := by
  have hlt : (n : ℚ) < d * (2 ^ e * 2 ^ 53) := by
    calc (n : ℚ) < d * 2 ^ (binaryOrder n d + 1) := lt_binaryOrder hd
      _ ≤ d * 2 ^ (e + 53) := by
        apply mul_le_mul_of_nonneg_left _ (by positivity)
        apply zpow_le_zpow_right₀ one_le_two
        omega
      _ = d * (2 ^ e * 2 ^ 53) := by
        rw [zpow_add₀ two_ne_zero]
        norm_cast
  split_ifs with hsign
  · rw [← zpow_toNat hsign] at hlt
    apply divideToEven_le
    have hnat : n < d * (2 ^ e.toNat * 2 ^ 53) := by exact_mod_cast hlt
    calc n < d * (2 ^ e.toNat * 2 ^ 53) := hnat
      _ = 2 ^ 53 * (d * 2 ^ e.toNat) := by ring
  · have hscaled : (n : ℚ) * 2 ^ (-e) < 2 ^ 53 * d := by
      rw [zpow_neg, ← div_eq_mul_inv, div_lt_iff₀ (by positivity)]
      calc (n : ℚ) < d * (2 ^ e * 2 ^ 53) := hlt
        _ = 2 ^ 53 * d * 2 ^ e := by ring
    rw [← zpow_toNat (by omega)] at hscaled
    apply divideToEven_le
    exact_mod_cast hscaled

theorem round?_bounds (hd : d ≠ 0) (h : double.round? n d = some (m, e)) :
    m < 2 ^ 53 ∧ -1074 ≤ e ∧ e ≤ 971 := by
  unfold BinaryFormat.round? at h
  split_ifs at h with hn
  · obtain ⟨rfl, rfl⟩ := Prod.mk.inj (Option.some.inj h)
    exact ⟨by norm_num, by decide, by decide⟩
  · have hprecision : ((double.precision - 1 : Nat) : Int) = 52 := rfl
    have hpower : Nat.pow 2 double.precision = 2 ^ 53 := rfl
    have hleast : double.least = -1074 := rfl
    have hgreatest : double.greatest = 971 := rfl
    dsimp only at h
    rw [hprecision, hpower, hleast, hgreatest] at h
    have hm := rounded_le hd (le_max_right (-1074) (binaryOrder n d - 52))
    have he : -1074 ≤ max (-1074) (binaryOrder n d - 52) := le_max_left ..
    generalize max (-1074) (binaryOrder n d - 52) = e' at h hm he
    generalize (if 0 ≤ e' then _ else _) = m' at h hm
    split_ifs at h with htop hrange hrange
    · obtain ⟨rfl, rfl⟩ := Prod.mk.inj (Option.some.inj h)
      omega
    · obtain ⟨rfl, rfl⟩ := Prod.mk.inj (Option.some.inj h)
      omega

theorem toBits_ofBits (h : b.toNat / 2 ^ 52 % 2 ^ 11 ≠ 2047) : (Float.ofBits b).toBits = b := by
  have hfield : unpackExponent (show BitVec Format.binary64.numBits from b.toBitVec) ≠ -1#_ := by
    intro htop
    apply h
    have := congrArg BitVec.toNat htop
    rwa [toNat_unpackExponent] at this
  exact congrArg UInt64.ofBitVec (pack_unpack ⟨fun htop => absurd htop hfield⟩)

theorem isFinite_ofBits (h : b.toNat / 2 ^ 52 % 2 ^ 11 ≠ 2047) :
    isFinite (Float.ofBits b) = true := by
  rw [isFinite, toBits_ofBits h]
  exact bne_iff_ne.mpr h

theorem isFinite_withSign (hb : b.toNat / 2 ^ 52 < 2047) :
    isFinite (withSign negative b) = true := by
  apply isFinite_ofBits
  cases negative with
  | false =>
    rw [if_neg (by simp)]
    omega
  | true =>
    have hor : b.toNat ||| 2 ^ 63 = b.toNat + 2 ^ 63 := by
      rw [Nat.or_comm, Nat.add_comm]
      exact (Nat.two_pow_add_eq_or_of_lt (i := 63) (by omega) 1).symm
    rw [if_pos rfl, UInt64.toNat_or]
    change (b.toNat ||| 2 ^ 63) / 2 ^ 52 % 2 ^ 11 ≠ 2047
    rw [hor]
    omega

theorem pack_toNat (hm : m < 2 ^ 53) (hlow : -1074 ≤ e) (hhigh : e ≤ 971) :
    (pack m e).toNat =
      if m < 2 ^ 52 then m else (e + 1075).toNat * 2 ^ 52 + (m - 2 ^ 52) := by
  have htoNat : ∀ k : Nat, k < 2 ^ 64 → k.toUInt64.toNat = k := fun k hk => Nat.mod_eq_of_lt hk
  unfold pack
  change (if m < 2 ^ 52 then m.toUInt64
    else ((e + 1075).toNat * 2 ^ 52 + (m - 2 ^ 52)).toUInt64).toNat = _
  split_ifs with h
  · exact htoNat m (by omega)
  · exact htoNat _ (by omega)

theorem pack_field (hm : m < 2 ^ 53) (hlow : -1074 ≤ e) (hhigh : e ≤ 971) :
    (pack m e).toNat / 2 ^ 52 < 2047 := by
  rw [pack_toNat hm hlow hhigh]
  split_ifs <;> omega

theorem isFinite_nearest? (hd : d ≠ 0)
    (h : nearest? negative n d = some x) : isFinite x = true := by
  obtain ⟨⟨m, e⟩, hround, rfl⟩ := Option.map_eq_some_iff.mp h
  obtain ⟨hm, hlow, hhigh⟩ := round?_bounds hd hround
  exact isFinite_withSign (pack_field hm hlow hhigh)

theorem Decimal.ratio_den_ne_zero (d : Decimal) : d.ratio.den ≠ 0 := by
  unfold Decimal.ratio
  split_ifs
  · exact Nat.one_ne_zero
  · exact pow_ne_zero _ (by norm_num)

theorem Decimal.isFinite_nearest? {d : Decimal}
    (h : d.nearest? negative = some x) : isFinite x = true := by
  unfold Decimal.nearest? at h
  split_ifs at h
  · obtain rfl := Option.some.inj h
    exact isFinite_withSign (by decide)
  · exact Number.isFinite_nearest? d.ratio_den_ne_zero h

theorem isFinite_read {t : Text} (h : read t = .ok x) : isFinite x = true := by
  unfold read at h
  dsimp only at h
  split at h
  next => cases h
  next d hd =>
    split at h
    next y hy =>
      obtain rfl := Except.ok.inj h
      exact Decimal.isFinite_nearest? hy
    next => cases h

end Toolpath.Number
