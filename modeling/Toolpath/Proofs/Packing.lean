import Toolpath.Proofs.Doubles

/-!
# Doubles from their bits

A double is the number that its bits spell: unpacking the bits into sign,
exponent and mantissa and packing these again changes nothing, since only one
NaN is ever stored. What a narrower format says of a word depends on the bits
of its own width alone.
-/

namespace Toolpath.Number

open Float.Model Float.Model.UnpackedFloat

theorem eq_of_fields {a b : BitVec Format.binary64.numBits} (hs : unpackSign a = unpackSign b)
    (he : unpackExponent a = unpackExponent b) (hm : unpackMantissa a = unpackMantissa b) :
    a = b := by
  have hs' := congrArg BitVec.toNat hs
  have he' := congrArg BitVec.toNat he
  have hm' := congrArg BitVec.toNat hm
  rw [toNat_unpackSign, toNat_unpackSign] at hs'
  rw [toNat_unpackExponent, toNat_unpackExponent] at he'
  rw [toNat_unpackMantissa, toNat_unpackMantissa] at hm'
  have ha : a.toNat < 2 ^ 64 := a.isLt
  have hb : b.toNat < 2 ^ 64 := b.isLt
  apply BitVec.eq_of_toNat_eq
  omega

theorem toBitVec_ofBitVec (v : BitVec 1) : (Sign.ofBitVec v).toBitVec = v := by
  revert v
  decide

theorem unpackSign_packComponents (s : Sign) (e : BitVec Format.binary64.exponentBits)
    (m : BitVec Format.binary64.mantissaBitsWithoutImplicit) :
    unpackSign (packComponents Format.binary64 s e m) = s.toBitVec := by
  apply BitVec.eq_of_toNat_eq
  rw [toNat_unpackSign, packComponents, BitVec.toNat_append, BitVec.toNat_append,
    ← Nat.shiftLeft_add_eq_or_of_lt e.isLt, ← Nat.shiftLeft_add_eq_or_of_lt m.isLt]
  simp only [Nat.shiftLeft_eq]
  have hs : s.toBitVec.toNat < 2 := s.toBitVec.isLt
  have he : e.toNat < 2 ^ 11 := e.isLt
  have hm : m.toNat < 2 ^ 52 := m.isLt
  omega

variable {b : BitVec Format.binary64.numBits}

theorem packComponents_eq {s : Sign} {e : BitVec Format.binary64.exponentBits}
    {m : BitVec Format.binary64.mantissaBitsWithoutImplicit} (hs : s.toBitVec = unpackSign b)
    (he : e = unpackExponent b) (hm : m = unpackMantissa b) :
    packComponents Format.binary64 s e m = b := by
  apply eq_of_fields
  · rw [unpackSign_packComponents, hs]
  · rw [unpackExponent_packComponents, he]
  · rw [unpackMantissa_packComponents, hm]

theorem biased (field : Nat) :
    ((field : Int) - ((Format.binary64.exponentBias : Nat) + (52 : Nat)) +
      (Format.binary64.exponentBias : Nat) + (52 : Nat)).toNat = field := by
  omega

theorem pack_subnormal (he : unpackExponent b = 0#_) (h : 0 < (unpackMantissa b).toNat) :
    UnpackedFloat.pack Format.binary64
      (.finite (Sign.ofBitVec (unpackSign b)) (unpackMantissa b).toNat
      (((unpackExponent b).toNat : Int) -
        ((Format.binary64.exponentBias : Nat) + (52 : Nat)) + 1) h) = b := by
  have hm : (unpackMantissa b).toNat < 2 ^ 52 := (unpackMantissa b).isLt
  have hlog : (unpackMantissa b).toNat.log2 < 52 := (Nat.log2_lt (by omega)).mpr hm
  have hfield : (((unpackExponent b).toNat : Int) -
      ((Format.binary64.exponentBias : Nat) + (52 : Nat)) + 1 +
      (Format.binary64.exponentBias : Nat) + (52 : Nat)).toNat = 1 := by
    rw [he]
    rfl
  have hbits : Format.binary64.mantissaBits = 53 := rfl
  delta UnpackedFloat.pack
  dsimp only
  rw [hfield, if_neg (by decide), if_neg (by omega)]
  exact packComponents_eq (toBitVec_ofBitVec _) he.symm (by simp)

theorem pack_normal (he : unpackExponent b ≠ -1#_) (h : 0 < (1#1 ++ unpackMantissa b).toNat) :
    UnpackedFloat.pack Format.binary64
      (.finite (Sign.ofBitVec (unpackSign b)) (1#1 ++ unpackMantissa b).toNat
      (((unpackExponent b).toNat : Int) -
        ((Format.binary64.exponentBias : Nat) + (52 : Nat))) h) = b := by
  have hm : (unpackMantissa b).toNat < 2 ^ 52 := (unpackMantissa b).isLt
  have hlead : (1#1 ++ unpackMantissa b).toNat = (unpackMantissa b).toNat + 2 ^ 52 :=
    toNat_one_append _
  have hlog : (1#1 ++ unpackMantissa b).toNat.log2 = 52 := by
    rw [Nat.log2_eq_iff (by omega)]
    omega
  have htop : (unpackExponent b).toNat ≠ 2047 := fun h' => he (BitVec.eq_of_toNat_eq h')
  have hfield : (unpackExponent b).toNat < 2048 := (unpackExponent b).isLt
  have hbits : Format.binary64.mantissaBits = 53 := rfl
  delta UnpackedFloat.pack
  dsimp only
  rw [biased, if_neg (by simp only [Format.binary64]; omega), if_pos (by omega)]
  refine packComponents_eq (toBitVec_ofBitVec _) (by simp) (BitVec.eq_of_toNat_eq ?_)
  rw [BitVec.toNat_ofNat, hlead]
  simp only [Format.binary64]
  omega

theorem pack_unpack (hb : Format.binary64.Valid b) :
    UnpackedFloat.pack Format.binary64 (UnpackedFloat.unpack Format.binary64 b) = b := by
  delta UnpackedFloat.unpack
  dsimp only
  by_cases htop : unpackExponent b = -1#_
  · rw [if_pos htop]
    by_cases hm : unpackMantissa b = 0#_
    · rw [if_pos hm]
      exact packComponents_eq (toBitVec_ofBitVec _) htop.symm hm.symm
    · rw [if_neg hm]
      exact (hb.eq_packedNaN htop hm).symm
  · rw [if_neg htop]
    by_cases he : unpackExponent b = 0#_
    · rw [if_pos he]
      by_cases hm : unpackMantissa b = 0#_
      · rw [dif_pos hm]
        exact packComponents_eq (toBitVec_ofBitVec _) he.symm hm.symm
      · rw [dif_neg hm]
        exact pack_subnormal he _
    · rw [if_neg he]
      exact pack_normal htop _

theorem eq_of_toBits {x y : Float} (h : x.toBits = y.toBits) : x = y := by
  obtain ⟨⟨a, ha⟩⟩ := x
  obtain ⟨⟨b, hb⟩⟩ := y
  obtain rfl : a = b := h
  rfl

theorem ofBits_toBits (x : Float) : Float.ofBits x.toBits = x := by
  apply eq_of_toBits
  exact congrArg UInt64.ofBitVec (pack_unpack x.toModel.valid)

theorem eq_nan {x : Float} (h : isNan x = true) : x = nan := by
  have hu : magnitude x = .undefined := by simpa [isNan] using h
  rw [magnitude_eq_unpack] at hu
  have hnan : x.toModel.unpack = .notANumber := by
    generalize x.toModel.unpack = u at hu
    cases u with
    | notANumber => rfl
    | _ => cases hu
  have hpack := pack_unpack x.toModel.valid
  apply eq_of_toBits
  have : x.toBits = UInt64.ofBitVec (UnpackedFloat.pack Format.binary64 x.toModel.unpack) :=
    congrArg UInt64.ofBitVec hpack.symm
  rw [this, hnan]
  rfl

theorem unpack_mod (f : BinaryFormat) (n : Nat) : f.unpack (n % (f.signUnit * 2)) = f.unpack n := by
  have hsign : n % (f.signUnit * 2) / f.signUnit % 2 = n / f.signUnit % 2 := by
    rw [Nat.mod_mul_right_div_self, Nat.mod_mod]
  have hfield : n % (f.signUnit * 2) / f.exponentUnit % (f.topField + 1) =
      n / f.exponentUnit % (f.topField + 1) := by
    rw [BinaryFormat.signUnit, Nat.mul_comm (f.topField + 1), Nat.mul_assoc,
      Nat.mod_mul_right_div_self, Nat.mod_mul_right_mod]
  have hfraction : n % (f.signUnit * 2) % f.exponentUnit = n % f.exponentUnit := by
    rw [BinaryFormat.signUnit, Nat.mul_comm (f.topField + 1), Nat.mul_assoc,
      Nat.mod_mul_right_mod]
  simp only [BinaryFormat.unpack, hsign, hfield, hfraction]

end Toolpath.Number
