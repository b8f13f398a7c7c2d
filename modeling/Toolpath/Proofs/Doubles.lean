import Mathlib.Algebra.Group.Nat.Defs
import Toolpath.Word.Format

/-!
# Doubles and their bits

The fields that a magnitude is read off are those of the unpacked number, so
doubles that compare as equal have one magnitude, or are both zero. A number
format writes such doubles alike, and never writes nothing.
-/

namespace Toolpath.Number

open Float.Model Float.Model.UnpackedFloat

theorem toNat_unpackMantissa (b : BitVec Format.binary64.numBits) :
    (unpackMantissa b).toNat = b.toNat % 2 ^ 52 := by
  simp [unpackMantissa]

theorem toNat_unpackExponent (b : BitVec Format.binary64.numBits) :
    (unpackExponent b).toNat = b.toNat / 2 ^ 52 % 2 ^ 11 := by
  simp [unpackExponent, Nat.shiftRight_eq_div_pow]

theorem toNat_unpackSign (b : BitVec Format.binary64.numBits) :
    (unpackSign b).toNat = b.toNat / 2 ^ 63 % 2 := by
  change (b.extractLsb 63 63).toNat = _
  simp [Nat.shiftRight_eq_div_pow]

theorem toNat_one_append {w : Nat} (v : BitVec w) : (1#1 ++ v).toNat = v.toNat + 2 ^ w := by
  rw [BitVec.toNat_append, ← Nat.shiftLeft_add_eq_or_of_lt v.isLt]
  simp [Nat.shiftLeft_eq, Nat.add_comm]

def packed (x : Float) : BitVec Format.binary64.numBits := x.toBits.toBitVec

theorem toNat_packed (x : Float) : (packed x).toNat = x.toBits.toNat := rfl

theorem toBits_lt (x : Float) : x.toBits.toNat < 2 ^ 64 := x.toBits.toNat_lt

def ofUnpacked : UnpackedFloat → Magnitude
  | .infinity s => .infinite (s matches .negative)
  | .notANumber => .undefined
  | .zero s => .finite ⟨s matches .negative, 0, -1074⟩
  | .finite s m e _ => .finite ⟨s matches .negative, m, e⟩

theorem sign_packed (x : Float) :
    (Sign.ofBitVec (unpackSign (packed x)) matches .negative) = signBit x := by
  have hs := toNat_unpackSign (packed x)
  have hlt := toBits_lt x
  rw [toNat_packed] at hs
  by_cases h : 2 ^ 63 ≤ x.toBits.toNat
  · have h1 : x.toBits.toNat / 2 ^ 63 % 2 = 1 := by omega
    have hne : unpackSign (packed x) ≠ 0#1 := by
      intro h0
      rw [h0, h1] at hs
      cases hs
    have hsign : signBit x = true := decide_eq_true h
    simp [Sign.ofBitVec, hne, hsign]
  · have h0 : x.toBits.toNat / 2 ^ 63 % 2 = 0 := by omega
    have he : unpackSign (packed x) = 0#1 := BitVec.eq_of_toNat_eq (hs.trans h0)
    have hsign : signBit x = false := decide_eq_false h
    simp [Sign.ofBitVec, he, hsign]

theorem magnitude_eq_unpack (x : Float) : magnitude x = ofUnpacked x.toModel.unpack := by
  have hm := toNat_unpackMantissa (packed x)
  have he := toNat_unpackExponent (packed x)
  have hs := sign_packed x
  rw [toNat_packed] at hm he
  change _ = ofUnpacked (unpack Format.binary64 (packed x))
  have htop : unpackExponent (packed x) = -1#_ ↔ x.toBits.toNat / 2 ^ 52 % 2 ^ 11 = 2047 := by
    rw [← he, ← BitVec.toNat_inj]
    rfl
  have hbottom : unpackExponent (packed x) = 0#_ ↔ x.toBits.toNat / 2 ^ 52 % 2 ^ 11 = 0 := by
    rw [← he, ← BitVec.toNat_inj]
    rfl
  have hempty : unpackMantissa (packed x) = 0#_ ↔ x.toBits.toNat % 2 ^ 52 = 0 := by
    rw [← hm, ← BitVec.toNat_inj]
    rfl
  simp only [magnitude, Nat.pow_eq, ← hs]
  delta UnpackedFloat.unpack
  dsimp only
  by_cases h₁ : x.toBits.toNat / 2 ^ 52 % 2 ^ 11 = 2047
  · rw [if_pos h₁, if_pos (htop.mpr h₁)]
    by_cases h₂ : x.toBits.toNat % 2 ^ 52 = 0
    · rw [if_pos h₂, if_pos (hempty.mpr h₂)]
      rfl
    · rw [if_neg h₂, if_neg (mt hempty.mp h₂)]
      rfl
  · rw [if_neg h₁, if_neg (mt htop.mp h₁)]
    by_cases h₃ : x.toBits.toNat / 2 ^ 52 % 2 ^ 11 = 0
    · rw [if_pos h₃, if_pos (hbottom.mpr h₃)]
      by_cases h₂ : x.toBits.toNat % 2 ^ 52 = 0
      · rw [dif_pos (hempty.mpr h₂), h₂]
        rfl
      · rw [dif_neg (mt hempty.mp h₂)]
        dsimp only [ofUnpacked]
        rw [hm, he, h₃]
        rfl
    · rw [if_neg h₃, if_neg (mt hbottom.mp h₃)]
      have hlead : (1#1 ++ unpackMantissa (packed x)).toNat = x.toBits.toNat % 2 ^ 52 + 2 ^ 52 := by
        rw [toNat_one_append, hm]
      have hbias : ((Format.binary64.exponentBias : Nat) : Int) + (52 : Nat) = 1075 := rfl
      dsimp only [ofUnpacked]
      rw [hlead, he, hbias]
      rfl

def IsZero (v : Magnitude) : Prop := ∃ negative, v = .finite ⟨negative, 0, -1074⟩

theorem compare_eq {u v : UnpackedFloat} (h : u.compare v = some .eq) :
    ofUnpacked u = ofUnpacked v ∨ IsZero (ofUnpacked u) ∧ IsZero (ofUnpacked v) := by
  cases u with
  | notANumber => cases v <;> cases h
  | infinity s =>
    cases v with
    | infinity t =>
      cases s <;> cases t <;> first | exact .inl rfl | cases h
    | _ => cases s <;> cases h
  | zero s =>
    cases v with
    | zero t => exact .inr ⟨⟨_, rfl⟩, ⟨_, rfl⟩⟩
    | notANumber => cases h
    | infinity t => cases t <;> cases h
    | finite t n f _ => cases t <;> cases h
  | finite s m e hm =>
    cases v with
    | notANumber => cases s <;> cases h
    | infinity t => cases s <;> cases t <;> cases h
    | zero t => cases s <;> cases h
    | finite t n f hn =>
      cases s <;> cases t <;> dsimp only [UnpackedFloat.compare] at h <;>
        simp [Ordering.then_eq_eq] at h
      all_goals
        obtain ⟨rfl, rfl⟩ := h
        exact .inl rfl

theorem magnitude_of_beq {x y : Float} (h : (x == y) = true) :
    magnitude x = magnitude y ∨ IsZero (magnitude x) ∧ IsZero (magnitude y) := by
  have h' : x.toModel.unpack.compare y.toModel.unpack = some .eq := by
    have hb : (x.toModel.unpack.compare y.toModel.unpack == some .eq) = true := h
    exact eq_of_beq hb
  rw [magnitude_eq_unpack, magnitude_eq_unpack]
  exact compare_eq h'

theorem divideToEven_zero (d : Nat) : divideToEven 0 d = 0 := by simp [divideToEven]

theorem scaledDigits_zero (places : Nat) (negative : Bool) (e : Int) :
    scaledDigits places ⟨negative, 0, e⟩ = 0 := by
  have hscale : (scale 0 e).1 = 0 := by
    unfold scale
    split <;> simp
  change divideToEven ((scale 0 e).1 * Nat.pow 10 places) (scale 0 e).2 = 0
  rw [hscale, Nat.zero_mul, divideToEven_zero]

theorem special_ne_nil (v : Magnitude) : special v ≠ [] := by
  cases v with
  | finite d => exact (by decide : Text.ofString "NaN" ≠ [])
  | infinite negative => cases negative <;> decide
  | undefined => decide

end Toolpath.Number

namespace Toolpath

theorem Text.ofNat_ne_nil (n : Nat) : Text.ofNat n ≠ [] := by
  simp [Text.ofNat, Nat.toDigits_ne_nil]

namespace NumberFormat

variable (f : NumberFormat)

theorem format_of_beq {x y : Float} (h : (x == y) = true) : f.format x = f.format y := by
  rcases Number.magnitude_of_beq h with h | ⟨⟨s, hx⟩, ⟨t, hy⟩⟩
  · rw [format, format, h]
  · simp [format, hx, hy, Number.scaledDigits_zero, write]

theorem wholeDigits_ne_nil (n : Nat) : f.wholeDigits n ≠ [] := by
  unfold wholeDigits
  split <;> split <;> simp [Text.ofNat_ne_nil]

theorem format_ne_nil (x : Float) : f.format x ≠ [] := by
  unfold format
  cases Number.magnitude x with
  | finite v => simp [write, wholeDigits_ne_nil]
  | infinite negative => simp [Number.special_ne_nil]
  | undefined => simp [Number.special_ne_nil]

end NumberFormat
end Toolpath
