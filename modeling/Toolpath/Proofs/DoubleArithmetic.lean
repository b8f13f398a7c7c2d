import Toolpath.Proofs.NearestDoubles
import Toolpath.Proofs.Rounding

/-!
# Sums, products and quotients of doubles

A finite double stands for a number, and doubles are ordered as their numbers
are. An operation on finite doubles gives a finite double when its exact result
is at most `2 ^ 1023`; that double then lies on the same side of zero and of the
powers of two as the exact result.
-/

namespace Toolpath.Number

open Float.Model Float.Model.UnpackedFloat

/-- The number a finite double stands for. -/
def value (x : Float) : ℚ := worth x.toModel.unpack

variable {x y : Float} {s : Sign} {m : Nat} {u : UnpackedFloat}

theorem unpack_cases (hx : isFinite x = true) : (∃ s, x.toModel.unpack = .zero s) ∨
    ∃ s m e h, x.toModel.unpack = .finite s m e h ∧ Normalized m e := by
  obtain ⟨m, e, hmagnitude, hparts, -⟩ := exists_parts hx
  rw [magnitude_eq_unpack] at hmagnitude
  generalize x.toModel.unpack = u at hmagnitude ⊢
  cases u with
  | infinity s => cases hmagnitude
  | notANumber => cases hmagnitude
  | zero s => exact .inl ⟨s, rfl⟩
  | finite s m' e' h =>
    obtain ⟨-, rfl, rfl⟩ := Dyadic.mk.inj (Magnitude.finite.inj hmagnitude)
    exact .inr ⟨s, m', e', h, rfl, hparts.resolve_left h.ne'⟩

theorem held_unpack (hx : isFinite x = true) : Held x.toModel.unpack := by
  obtain ⟨s, hu⟩ | ⟨s, m, e, h, hu, hnormal⟩ := unpack_cases hx
  · rw [hu]
    trivial
  · rw [hu]
    exact ⟨hnormal.lt, hnormal.least, hnormal.normal⟩

theorem isFinite_of_magnitude {v : Dyadic} (h : magnitude x = .finite v) : isFinite x = true := by
  by_contra hx
  have hfield : x.toBits.toNat / Nat.pow 2 52 % Nat.pow 2 11 = 2047 := by
    by_contra hne
    exact hx (bne_iff_ne.mpr hne)
  rw [magnitude, if_pos hfield] at h
  split at h <;> cases h

theorem isFinite_of_held (h : Held x.toModel.unpack) : isFinite x = true := by
  have hmagnitude := magnitude_eq_unpack x
  generalize x.toModel.unpack = u at h hmagnitude
  cases u with
  | infinity s => exact h.elim
  | notANumber => exact h.elim
  | zero s => exact isFinite_of_magnitude hmagnitude
  | finite s m e hm => exact isFinite_of_magnitude hmagnitude

theorem ofBitVec_toBitVec (s : Sign) : Sign.ofBitVec s.toBitVec = s := by
  cases s <;> rfl

theorem finite_eq {s s' : Sign} {m m' : Nat} {e e' : Int} (hs : s = s') (hm : m = m') (he : e = e')
    (h : 0 < m) (h' : 0 < m') : UnpackedFloat.finite s m e h = .finite s' m' e' h' := by
  subst hs hm he
  rfl

theorem unpack_packComponents {e : BitVec Format.binary64.exponentBits} (htop : e ≠ -1#_)
    (h0 : e ≠ 0#_) {m : BitVec Format.binary64.mantissaBitsWithoutImplicit}
    (hpos : 0 < (1#1 ++ m).toNat) (s : Sign) :
    UnpackedFloat.unpack Format.binary64 (packComponents Format.binary64 s e m) =
      .finite s (1#1 ++ m).toNat
        (e.toNat - ((Format.binary64.exponentBias : Nat) + (52 : Nat))) hpos := by
  delta UnpackedFloat.unpack
  dsimp only
  rw [unpackExponent_packComponents, if_neg htop, if_neg h0]
  refine finite_eq ?_ ?_ rfl _ _
  · rw [unpackSign_packComponents, ofBitVec_toBitVec]
  · rw [unpackMantissa_packComponents]

theorem unpack_packComponents_zero {m : BitVec Format.binary64.mantissaBitsWithoutImplicit}
    (hm : m ≠ 0#_) (hpos : 0 < m.toNat) (s : Sign) :
    UnpackedFloat.unpack Format.binary64 (packComponents Format.binary64 s 0#_ m) =
      .finite s m.toNat (-1074) hpos := by
  have htop : ¬(0#_ : BitVec Format.binary64.exponentBits) = -1#_ := by decide
  delta UnpackedFloat.unpack
  dsimp only
  rw [unpackExponent_packComponents, if_neg htop, if_pos rfl,
    dif_neg ((unpackMantissa_packComponents ..).trans_ne hm)]
  refine finite_eq ?_ ?_ rfl _ _
  · rw [unpackSign_packComponents, ofBitVec_toBitVec]
  · rw [unpackMantissa_packComponents]

theorem unpack_pack_normal {e : Int} (hm : 0 < m) (hfull : 2 ^ 52 ≤ m)
    (hlt : m < 2 ^ 53) (hleast : -1074 ≤ e) (hgreatest : e ≤ 971) :
    UnpackedFloat.unpack Format.binary64 (UnpackedFloat.pack Format.binary64 (.finite s m e hm)) =
      .finite s m e hm := by
  have hlog : m.log2 = 52 := (Nat.log2_eq_iff hm.ne').mpr ⟨hfull, hlt⟩
  have hbits : Format.binary64.mantissaBits = 53 := rfl
  have hbias : (e + (Format.binary64.exponentBias : Nat) + (52 : Nat)).toNat =
      (e + 1075).toNat := by
    congr 1
    change e + (1023 : Nat) + (52 : Nat) = _
    omega
  have hfield : (BitVec.ofNat Format.binary64.exponentBits (e + 1075).toNat).toNat =
      (e + 1075).toNat :=
    Nat.mod_eq_of_lt (show (e + 1075).toNat < 2 ^ 11 by omega)
  have hlead : (1#1 ++ BitVec.ofNat Format.binary64.mantissaBitsWithoutImplicit m).toNat = m := by
    have hmod : (BitVec.ofNat Format.binary64.mantissaBitsWithoutImplicit m).toNat = m % 2 ^ 52 :=
      rfl
    rw [toNat_one_append, hmod]
    change m % 2 ^ 52 + 2 ^ 52 = m
    omega
  have hpack : UnpackedFloat.pack Format.binary64 (.finite s m e hm) =
      packComponents Format.binary64 s (BitVec.ofNat _ (e + 1075).toNat) (BitVec.ofNat _ m) := by
    delta UnpackedFloat.pack
    dsimp only
    rw [hbias, if_neg (show ¬2 ^ 11 ≤ (e + 1075).toNat + 1 by omega), if_pos (by omega)]
  rw [hpack, unpack_packComponents _ _ (hlead.symm ▸ hm)]
  · have hback : ((BitVec.ofNat Format.binary64.exponentBits (e + 1075).toNat).toNat : Int) -
        ((Format.binary64.exponentBias : Nat) + (52 : Nat)) = e := by
      rw [hfield]
      change ((e + 1075).toNat : Int) - ((1023 : Nat) + (52 : Nat)) = e
      omega
    exact finite_eq rfl hlead hback _ _
  · intro htop
    have : (e + 1075).toNat = 2047 := hfield.symm.trans (congrArg BitVec.toNat htop)
    omega
  · intro h0
    have : (e + 1075).toNat = 0 := hfield.symm.trans (congrArg BitVec.toNat h0)
    omega

theorem unpack_pack_subnormal (hm : 0 < m) (hlt : m < 2 ^ 52) :
    UnpackedFloat.unpack Format.binary64
      (UnpackedFloat.pack Format.binary64 (.finite s m (-1074) hm)) = .finite s m (-1074) hm := by
  have hlog : m.log2 < 52 := (Nat.log2_lt hm.ne').mpr hlt
  have hbits : Format.binary64.mantissaBits = 53 := rfl
  have hmantissa : (BitVec.ofNat Format.binary64.mantissaBitsWithoutImplicit m).toNat = m :=
    Nat.mod_eq_of_lt hlt
  have hpack : UnpackedFloat.pack Format.binary64 (.finite s m (-1074) hm) =
      packComponents Format.binary64 s 0#_ (BitVec.ofNat _ m) := by
    delta UnpackedFloat.pack
    dsimp only
    rw [if_neg (by decide), if_neg (by omega)]
  rw [hpack, unpack_packComponents_zero _ (by omega)]
  · exact finite_eq rfl hmantissa rfl _ _
  · intro h0
    have : m = 0 := hmantissa.symm.trans (congrArg BitVec.toNat h0)
    omega

theorem exponent_lt {e k : Int} {hm : 0 < m} (h : Held (.finite s m e hm))
    (hk : -1022 < k) (hu : |worth (.finite s m e hm)| < 2 ^ k) : e + 52 < k := by
  obtain ⟨-, hleast, hfull⟩ := h
  by_cases he : -1074 < e
  · rw [worth_finite, abs_signed, abs_of_nonneg (by positivity)] at hu
    have hpow : (2 : ℚ) ^ (52 + e) < 2 ^ k := by
      rw [zpow_add₀ two_ne_zero]
      refine lt_of_le_of_lt ?_ hu
      gcongr
      exact_mod_cast hfull he
    have := (zpow_lt_zpow_iff_right₀ one_lt_two).mp hpow
    omega
  · omega

theorem unpack_pack_cases (h : Held u) : (Float.Model.pack u).unpack = u ∨
    2 ^ (1024 : ℤ) ≤ |worth u| ∧ ∃ s, (Float.Model.pack u).unpack = .infinity s := by
  change UnpackedFloat.unpack Format.binary64 (UnpackedFloat.pack Format.binary64 u) = u ∨
    _ ∧ ∃ s, UnpackedFloat.unpack Format.binary64 (UnpackedFloat.pack Format.binary64 u) =
        .infinity s
  cases u with
  | infinity s => exact h.elim
  | notANumber => exact h.elim
  | zero s =>
    left
    cases s <;> rfl
  | finite s m e hm =>
    have hgreatest := exponent_lt h (show -1022 < 1024 by norm_num)
    obtain ⟨hlt, hleast, hfull⟩ := h
    obtain hnormal | hsub := le_or_gt (2 ^ 52) m
    · obtain hin | hout := le_or_gt e 971
      · exact .inl (unpack_pack_normal hm hnormal hlt hleast hin)
      · right
        have hbias : (e + (Format.binary64.exponentBias : Nat) + (52 : Nat)).toNat =
            (e + 1075).toNat := by
          congr 1
          change e + (1023 : Nat) + (52 : Nat) = _
          omega
        have hpack : UnpackedFloat.pack Format.binary64 (.finite s m e hm) =
            packedInfinity Format.binary64 s := by
          delta UnpackedFloat.pack
          dsimp only
          rw [hbias, if_pos (show 2 ^ 11 ≤ (e + 1075).toNat + 1 by omega)]
        refine ⟨not_lt.mp fun hu => ?_, s, ?_⟩
        · have := hgreatest hu
          omega
        · rw [hpack]
          cases s <;> rfl
    · left
      obtain rfl : e = -1074 := by omega
      exact unpack_pack_subnormal hm hsub

theorem unpack_pack (h : Held u) (hu : |worth u| < 2 ^ (1024 : ℤ)) :
    (Float.Model.pack u).unpack = u :=
  (unpack_pack_cases h).resolve_right fun hout => hu.not_ge hout.1

/-- The double is `q` rounded. -/
structure Near (q : ℚ) (x : Float) : Prop where
  finite : isFinite x = true
  le : ∀ k : ℤ, -1074 ≤ k → |q| ≤ 2 ^ k → |value x| ≤ 2 ^ k
  ge : ∀ k : ℤ, -1074 ≤ k → 2 ^ k ≤ |q| → 2 ^ k ≤ |value x|
  nonneg : 0 ≤ q → 0 ≤ value x
  close : |q - value x| ≤ |value x| * 2 ^ (-52 : ℤ) + 2 ^ (-1074 : ℤ)

theorem near_of_rounded {q : ℚ} (h : Rounded q u)
    (hx : x.toModel = Float.Model.pack u) (hq : |q| ≤ 2 ^ (1023 : ℤ)) : Near q x := by
  have hunpack : x.toModel.unpack = u := by
    rw [hx]
    apply unpack_pack h.held
    exact (h.le 1023 (by norm_num) hq).trans_lt (zpow_lt_zpow_right₀ one_lt_two (by norm_num))
  refine ⟨isFinite_of_held (by rw [hunpack]; exact h.held), ?_, ?_, ?_, ?_⟩
  all_goals rw [value, hunpack]
  exacts [h.le, h.ge, h.nonneg, h.close]

theorem Near.distance {q : ℚ} {k : ℤ} (h : Near q x) (hk : -1022 ≤ k)
    (hq : |q| ≤ 2 ^ k) : |q - value x| ≤ 2 ^ (k - 51) := by
  have hleast : (2 : ℚ) ^ (-1074 : ℤ) ≤ 2 ^ (k - 52) := zpow_le_zpow_right₀ one_le_two (by omega)
  have hunit : (2 : ℚ) ^ (k - 51) = 2 ^ (k - 52) + 2 ^ (k - 52) := by
    rw [← two_mul, ← zpow_one_add₀ two_ne_zero]
    congr 1
    omega
  have hsize : |value x| * 2 ^ (-52 : ℤ) ≤ 2 ^ (k - 52) := by
    rw [sub_eq_add_neg, zpow_add₀ two_ne_zero]
    gcongr
    exact h.le k (by omega) hq
  linarith [h.close]

theorem add_near (hx : isFinite x = true) (hy : isFinite y = true)
    (h : |value x + value y| ≤ 2 ^ (1023 : ℤ)) : Near (value x + value y) (x + y) :=
  near_of_rounded (rounded_add (held_unpack hx) (held_unpack hy)) rfl h

theorem sub_near (hx : isFinite x = true) (hy : isFinite y = true)
    (h : |value x - value y| ≤ 2 ^ (1023 : ℤ)) : Near (value x - value y) (x - y) :=
  near_of_rounded (rounded_sub (held_unpack hx) (held_unpack hy)) rfl h

theorem mul_near (hx : isFinite x = true) (hy : isFinite y = true)
    (h : |value x * value y| ≤ 2 ^ (1023 : ℤ)) : Near (value x * value y) (x * y) :=
  near_of_rounded (rounded_mul (held_unpack hx) (held_unpack hy)) rfl h

theorem div_near (hx : isFinite x = true) (hy : isFinite y = true) (h0 : value y ≠ 0)
    (h : |value x / value y| ≤ 2 ^ (1023 : ℤ)) : Near (value x / value y) (x / y) :=
  near_of_rounded (rounded_div (held_unpack hx) (held_unpack hy) h0) rfl h

theorem exists_sqrt_near (hx : isFinite x = true) (h0 : 0 ≤ value x)
    {k : ℤ} (hk : k ≤ 1023) (h : value x ≤ 2 ^ (2 * k)) :
    ∃ q, |q| ≤ 2 ^ k ∧ Near q x.sqrt := by
  obtain ⟨q, hle, hpos, hrounded⟩ := exists_sqrt (held_unpack hx) h0
  have hq : |q| ≤ 2 ^ k := (abs_of_nonneg hpos).trans_le (hle k h)
  refine ⟨q, hq, near_of_rounded hrounded rfl ?_⟩
  exact hq.trans (zpow_le_zpow_right₀ one_le_two hk)

theorem abs_value_lt (hx : isFinite x = true) : |value x| < 2 ^ (1024 : ℤ) := by
  obtain ⟨s, hu⟩ | ⟨s, m, e, h, hu, hnormal⟩ := unpack_cases hx
  · rw [value, hu, worth_zero, abs_zero]
    positivity
  · rw [value, hu, worth_finite, abs_signed, abs_of_nonneg (by positivity)]
    have hlt : (m : ℚ) < 2 ^ (53 : ℤ) := by exact_mod_cast hnormal.lt
    calc (m : ℚ) * 2 ^ e < 2 ^ (53 : ℤ) * 2 ^ e := by gcongr
      _ = 2 ^ (53 + e) := (zpow_add₀ two_ne_zero _ _).symm
      _ ≤ 2 ^ (1024 : ℤ) := zpow_le_zpow_right₀ one_le_two (by have := hnormal.greatest; omega)

theorem unpack_neg (hx : isFinite x = true) : (-x).toModel.unpack = x.toModel.unpack.neg := by
  apply unpack_pack (held_unpack hx).neg
  rw [worth_neg, abs_neg]
  exact abs_value_lt hx

theorem isFinite_neg (hx : isFinite x = true) : isFinite (-x) = true := by
  apply isFinite_of_held
  rw [unpack_neg hx]
  exact (held_unpack hx).neg

theorem value_neg (hx : isFinite x = true) : value (-x) = -value x := by
  rw [value, unpack_neg hx, worth_neg, value]

theorem compare_parts {m m' : Nat} {e e' : Int} {s s' : Sign} {hm : 0 < m} {hm' : 0 < m'}
    (h : Held (.finite s m e hm)) (h' : Held (.finite s' m' e' hm')) :
    (compare e e').then (compare m m') = compare ((m : ℚ) * 2 ^ e) (m' * 2 ^ e') := by
  -- below a full mantissa at a higher exponent there is no room for one at a lower exponent
  have hlow : ∀ {n n' : Nat} {d d' : Int}, n < 2 ^ 53 → -1074 ≤ d → (-1074 < d' → 2 ^ 52 ≤ n') →
      d < d' → (n : ℚ) * 2 ^ d < n' * 2 ^ d' := by
    intro n n' d d' hn hd hn' hlt
    have hn1 : (n : ℚ) < 2 ^ (53 : ℤ) := by exact_mod_cast hn
    have hn2 : (2 : ℚ) ^ (52 : ℤ) ≤ n' := by exact_mod_cast hn' (by omega)
    calc (n : ℚ) * 2 ^ d < 2 ^ (53 : ℤ) * 2 ^ d := by gcongr
      _ = 2 ^ (52 : ℤ) * 2 ^ (d + 1) := by
        rw [← zpow_add₀ two_ne_zero, ← zpow_add₀ two_ne_zero]
        congr 1
        omega
      _ ≤ 2 ^ (52 : ℤ) * 2 ^ d' := by
        gcongr
        · norm_num
        · omega
      _ ≤ n' * 2 ^ d' := by gcongr
  obtain ⟨hlt, hleast, hfull⟩ := h
  obtain ⟨hlt', hleast', hfull'⟩ := h'
  obtain he | rfl | he := lt_trichotomy e e'
  · rw [compare_lt_iff_lt.mpr he, compare_lt_iff_lt.mpr (hlow hlt hleast hfull' he)]
    rfl
  · have hpos : (0 : ℚ) < 2 ^ e := by positivity
    rw [compare_eq_iff_eq.mpr rfl]
    obtain hm | rfl | hm := lt_trichotomy m m'
    · rw [compare_lt_iff_lt.mpr hm, compare_lt_iff_lt.mpr (by gcongr)]
      rfl
    · rw [compare_eq_iff_eq.mpr rfl, compare_eq_iff_eq.mpr rfl]
      rfl
    · rw [compare_gt_iff_gt.mpr hm, compare_gt_iff_gt.mpr (by gcongr)]
      rfl
  · rw [compare_gt_iff_gt.mpr he, compare_gt_iff_gt.mpr (hlow hlt' hleast' hfull he)]
    rfl

theorem compare_neg_neg (a b : ℚ) : compare (-a) (-b) = (compare a b).swap := by
  obtain h | rfl | h := lt_trichotomy a b
  · rw [compare_lt_iff_lt.mpr h, compare_gt_iff_gt.mpr (neg_lt_neg h)]
    rfl
  · rw [compare_eq_iff_eq.mpr rfl, compare_eq_iff_eq.mpr rfl]
    rfl
  · rw [compare_gt_iff_gt.mpr h, compare_lt_iff_lt.mpr (neg_lt_neg h)]
    rfl

theorem compare_held {u v : UnpackedFloat} (hu : Held u) (hv : Held v) :
    u.compare v = some (compare (worth u) (worth v)) := by
  cases u with
  | infinity s => exact hu.elim
  | notANumber => exact hu.elim
  | zero s =>
    cases v with
    | infinity t => exact hv.elim
    | notANumber => exact hv.elim
    | zero t => rfl
    | finite t m' e' h' =>
      have hpos : 0 < (m' : ℚ) * 2 ^ e' := by positivity
      cases t with
      | negative => exact congrArg some (compare_gt_iff_gt.mpr (neg_lt_zero.mpr hpos)).symm
      | positive => exact congrArg some (compare_lt_iff_lt.mpr hpos).symm
  | finite s m e h =>
    have hpos : 0 < (m : ℚ) * 2 ^ e := by positivity
    cases v with
    | infinity t => exact hv.elim
    | notANumber => exact hv.elim
    | zero t =>
      cases s with
      | negative => exact congrArg some (compare_lt_iff_lt.mpr (neg_lt_zero.mpr hpos)).symm
      | positive => exact congrArg some (compare_gt_iff_gt.mpr hpos).symm
    | finite t m' e' h' =>
      have hpos' : 0 < (m' : ℚ) * 2 ^ e' := by positivity
      have hparts := compare_parts hu hv
      cases s with
      | negative =>
        cases t with
        | negative =>
          refine congrArg some ?_
          rw [hparts]
          exact (compare_neg_neg _ _).symm
        | positive =>
          exact congrArg some (compare_lt_iff_lt.mpr ((neg_lt_zero.mpr hpos).trans hpos')).symm
      | positive =>
        cases t with
        | negative =>
          exact congrArg some (compare_gt_iff_gt.mpr ((neg_lt_zero.mpr hpos').trans hpos)).symm
        | positive => exact congrArg some hparts

theorem le_iff_value (hx : isFinite x = true) (hy : isFinite y = true) :
    x ≤ y ↔ value x ≤ value y := by
  have hle : x ≤ y ↔ x.toModel.unpack.le y.toModel.unpack = true := decide_eq_true_iff
  rw [hle, UnpackedFloat.le, compare_held (held_unpack hx) (held_unpack hy), Option.any_some,
    ← Ordering.ne_gt_iff_isLE]
  exact compare_le_iff_le

theorem lt_iff_value (hx : isFinite x = true) (hy : isFinite y = true) :
    x < y ↔ value x < value y := by
  have hlt : x < y ↔ x.toModel.unpack.lt y.toModel.unpack = true := decide_eq_true_iff
  rw [hlt, UnpackedFloat.lt, compare_held (held_unpack hx) (held_unpack hy), beq_iff_eq,
    Option.some_inj]
  exact compare_lt_iff_lt

theorem beq_iff_value (hx : isFinite x = true) (hy : isFinite y = true) :
    (x == y) = true ↔ value x = value y := by
  have hbeq : (x == y) = (x.toModel.unpack.compare y.toModel.unpack == some .eq) := rfl
  rw [hbeq, compare_held (held_unpack hx) (held_unpack hy), beq_iff_eq, Option.some_inj]
  exact compare_eq_iff_eq

end Toolpath.Number
