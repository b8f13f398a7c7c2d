import Mathlib.Tactic.FieldSimp
import Mathlib.Tactic.Linarith
import Toolpath.Proofs.FiniteNumbers

/-!
# The numbers that round to a double

A quotient is rounded to the double nearest to it. So the numbers that round to a given double lie
between the middles to its two neighbours, and belong to it with these ends when its mantissa is
even. Below the least mantissa the neighbour is only half as far away.
-/

namespace Toolpath.Number

theorem divideToEven_bounds (a : Nat) {b : Nat} (hb : 0 < b) :
    2 * (divideToEven a b * b) ≤ 2 * a + b ∧ 2 * a ≤ 2 * (divideToEven a b * b) + b ∧
      (2 * (divideToEven a b * b) = 2 * a + b ∨ 2 * a = 2 * (divideToEven a b * b) + b →
        divideToEven a b % 2 = 0) := by
  have hdiv : b * (a / b) + a % b = a := Nat.div_add_mod a b
  have hmod : a % b < b := Nat.mod_lt a hb
  unfold divideToEven
  dsimp only
  generalize a / b = q at *
  generalize a % b = r at *
  rw [Nat.mul_comm b q] at hdiv
  split_ifs <;> (try rw [Nat.add_mul]) <;> omega

theorem divideToEven_near (a : Nat) {b : Nat} (hb : 0 < b) :
    |(divideToEven a b : ℚ) - a / b| ≤ 1 / 2 ∧
      (|(divideToEven a b : ℚ) - a / b| = 1 / 2 → Even (divideToEven a b)) := by
  obtain ⟨hlow, hhigh, htie⟩ := divideToEven_bounds a hb
  generalize divideToEven a b = k at *
  have hpos : (0 : ℚ) < b := by exact_mod_cast hb
  have hdifference : (k : ℚ) - a / b = (2 * (k * b) - 2 * a) / b / 2 := by field_simp
  have hhalf : |(k : ℚ) - a / b| = |(2 * (k * b) - 2 * a : ℚ)| / b / 2 := by
    rw [hdifference, abs_div, abs_div, abs_of_pos hpos, abs_two]
  rw [hhalf]
  constructor
  · have hle : |(2 * (k * b) - 2 * a : ℚ)| ≤ b := by
      rw [abs_le]
      have h : (2 * (k * b) : ℚ) ≤ 2 * a + b := by exact_mod_cast hlow
      have h' : (2 * a : ℚ) ≤ 2 * (k * b) + b := by exact_mod_cast hhigh
      constructor <;> linarith
    have := (div_le_one hpos).mpr hle
    linarith
  · intro h
    have heq : |(2 * (k * b) - 2 * a : ℚ)| = b := by
      rw [div_left_inj' two_ne_zero, div_eq_one_iff_eq hpos.ne'] at h
      exact h
    apply Nat.even_iff.mpr
    apply htie
    obtain h | h := (abs_eq hpos.le).mp heq
    · left
      have : (2 * (k * b) : ℚ) = 2 * a + b := by linarith
      exact_mod_cast this
    · right
      have : (2 * a : ℚ) = 2 * (k * b) + b := by linarith
      exact_mod_cast this

/-- `n / d` in units of `2 ^ e`, rounded to a natural number. -/
def roundedAt (n d : Nat) (e : Int) : Nat :=
  if 0 ≤ e then divideToEven n (d * Nat.pow 2 e.toNat)
  else divideToEven (n * Nat.pow 2 (-e).toNat) d

variable {d n m : Nat} {e : Int}

theorem roundedAt_quotient (n : Nat) (hd : d ≠ 0) (e : Int) :
    ∃ a b, b ≠ 0 ∧ roundedAt n d e = divideToEven a b ∧ (a / b : ℚ) = n / d / 2 ^ e := by
  have hd' : (d : ℚ) ≠ 0 := by exact_mod_cast hd
  have hpos : (0 : ℚ) < 2 ^ e := by positivity
  unfold roundedAt
  split_ifs with he
  · refine ⟨n, d * 2 ^ e.toNat, by positivity, rfl, ?_⟩
    rw [Nat.cast_mul, zpow_toNat he, div_div]
  · refine ⟨n * 2 ^ (-e).toNat, d, hd, rfl, ?_⟩
    rw [Nat.cast_mul, zpow_toNat (by omega), zpow_neg]
    field_simp

theorem divideToEven_of_near {a b k : Nat} (hb : b ≠ 0) (hlow : (k - 1 / 2 : ℚ) ≤ a / b)
    (hhigh : (a / b : ℚ) ≤ k + 1 / 2)
    (htie : (a / b : ℚ) = k - 1 / 2 ∨ (a / b : ℚ) = k + 1 / 2 → k % 2 = 0) :
    divideToEven a b = k := by
  obtain ⟨hnear, heven⟩ := divideToEven_near a (Nat.pos_of_ne_zero hb)
  generalize divideToEven a b = j at *
  obtain ⟨hj, hj'⟩ := abs_le.mp hnear
  -- of two neighbours that are as near only one is even
  rcases lt_trichotomy j k with hlt | rfl | hgt
  · have hnext : (j + 1 : ℚ) ≤ k := by exact_mod_cast hlt
    have hhalf : (j : ℚ) - a / b = -(1 / 2) := by linarith
    have hsum : (k : ℚ) = (j + 1 : Nat) := by
      push_cast
      linarith
    have hk := htie (.inl (by linarith))
    have hj := Nat.even_iff.mp (heven (by rw [hhalf, abs_neg, abs_of_pos one_half_pos]))
    have := Nat.cast_inj.mp hsum
    omega
  · rfl
  · have hnext : (k + 1 : ℚ) ≤ j := by exact_mod_cast hgt
    have hhalf : (j : ℚ) - a / b = 1 / 2 := by linarith
    have hsum : (j : ℚ) = (k + 1 : Nat) := by
      push_cast
      linarith
    have hk := htie (.inr (by linarith))
    have hj := Nat.even_iff.mp (heven (by rw [hhalf, abs_of_pos one_half_pos]))
    have := Nat.cast_inj.mp hsum
    omega

theorem roundedAt_eq {n d k : Nat} (hd : d ≠ 0)
    (hlow : (k - 1 / 2 : ℚ) * 2 ^ e ≤ n / d) (hhigh : (n / d : ℚ) ≤ (k + 1 / 2) * 2 ^ e)
    (htie : (n / d : ℚ) = (k - 1 / 2) * 2 ^ e ∨ (n / d : ℚ) = (k + 1 / 2) * 2 ^ e → k % 2 = 0) :
    roundedAt n d e = k := by
  have hpos : (0 : ℚ) < 2 ^ e := by positivity
  obtain ⟨a, b, hb, hrounded, hquotient⟩ := roundedAt_quotient n hd e
  rw [hrounded]
  apply divideToEven_of_near hb
  · rwa [hquotient, le_div_iff₀ hpos]
  · rwa [hquotient, div_le_iff₀ hpos]
  · rwa [hquotient, div_eq_iff hpos.ne', div_eq_iff hpos.ne']

theorem binaryOrder_le (hn : n ≠ 0) : (d : ℚ) * 2 ^ binaryOrder n d ≤ n := by
  have hlog : (d : ℚ) * 2 ^ ((n.log2 : Int) - d.log2 - 1) ≤ n := by
    have hle : (2 : ℚ) ^ (n.log2 : Int) ≤ n := by
      have := Nat.log2_self_le hn
      exact_mod_cast this
    have hlt : (d : ℚ) < 2 ^ ((d.log2 : Int) + 1) := by
      have := Nat.lt_log2_self (n := d)
      exact_mod_cast this
    calc (d : ℚ) * 2 ^ ((n.log2 : Int) - d.log2 - 1)
        ≤ 2 ^ ((d.log2 : Int) + 1) * 2 ^ ((n.log2 : Int) - d.log2 - 1) := by gcongr
      _ = 2 ^ (n.log2 : Int) := by
        rw [← zpow_add₀ two_ne_zero]
        congr 1
        omega
      _ ≤ n := hle
  unfold binaryOrder
  generalize (n.log2 : Int) - d.log2 = e at hlog ⊢
  dsimp only
  split_ifs with he hfits hfits
  · rw [← zpow_toNat he]
    exact_mod_cast hfits
  · exact hlog
  · have hscaled : (d : ℚ) ≤ n * 2 ^ (-e) := by
      rw [← zpow_toNat (by omega)]
      exact_mod_cast hfits
    rwa [zpow_neg, ← div_eq_mul_inv, le_div_iff₀ (by positivity)] at hscaled
  · exact hlog

theorem binaryOrder_lt (hn : n ≠ 0) (hd : d ≠ 0) {k : Int}
    (h : (n / d : ℚ) < 2 ^ k) : binaryOrder n d < k := by
  have hd' : (0 : ℚ) < d := by exact_mod_cast Nat.pos_of_ne_zero hd
  rw [← zpow_lt_zpow_iff_right₀ (one_lt_two (α := ℚ))]
  apply lt_of_le_of_lt _ h
  rw [le_div_iff₀ hd', mul_comm]
  exact binaryOrder_le hn

theorem le_binaryOrder (hd : d ≠ 0) {k : Int} (h : (2 : ℚ) ^ k ≤ n / d) : k ≤ binaryOrder n d := by
  have hd' : (0 : ℚ) < d := by exact_mod_cast Nat.pos_of_ne_zero hd
  rw [← Int.lt_add_one_iff, ← zpow_lt_zpow_iff_right₀ (one_lt_two (α := ℚ))]
  apply lt_of_le_of_lt h
  rw [div_lt_iff₀ hd', mul_comm]
  exact lt_binaryOrder hd

structure Normalized (m : Nat) (e : Int) : Prop where
  pos : 0 < m
  lt : m < 2 ^ 53
  least : -1074 ≤ e
  greatest : e ≤ 971
  normal : -1074 < e → 2 ^ 52 ≤ m

def lowEnd (m : Nat) (e : Int) : ℚ :=
  if m = 2 ^ 52 ∧ -1074 < e then (m - 1 / 4) * 2 ^ e else (m - 1 / 2) * 2 ^ e

def highEnd (m : Nat) (e : Int) : ℚ := (m + 1 / 2) * 2 ^ e

/-- The number lies between the two middles, and is one of them only if the mantissa is even. -/
structure RoundsTo (q : ℚ) (m : Nat) (e : Int) : Prop where
  low : lowEnd m e ≤ q
  high : q ≤ highEnd m e
  tie : q = lowEnd m e ∨ q = highEnd m e → m % 2 = 0

theorem lowEnd_ge (m : Nat) (e : Int) : (m - 1 / 2 : ℚ) * 2 ^ e ≤ lowEnd m e := by
  have hpos : (0 : ℚ) < 2 ^ e := by positivity
  unfold lowEnd
  split_ifs
  · gcongr
    norm_num
  · exact le_rfl

theorem RoundsTo.of_between {q : ℚ} (hlow : lowEnd m e < q)
    (hhigh : q < highEnd m e) : RoundsTo q m e := by
  refine ⟨hlow.le, hhigh.le, ?_⟩
  rintro (heq | heq)
  · exact absurd heq hlow.ne'
  · exact absurd heq hhigh.ne

theorem RoundsTo.tie_half {q : ℚ} (hq : RoundsTo q m e)
    (h : q = (m - 1 / 2) * 2 ^ e ∨ q = (m + 1 / 2) * 2 ^ e) : m % 2 = 0 := by
  apply hq.tie
  obtain h | h := h
  · exact .inl (le_antisymm (h ▸ lowEnd_ge m e) hq.low)
  · exact .inr h

def roundingExponent (n d : Nat) : Int := max (-1074) (binaryOrder n d - 52)

theorem round?_eq (hn : n ≠ 0) :
    double.round? n d =
      if roundedAt n d (roundingExponent n d) = 2 ^ 53 then
        if 971 < roundingExponent n d + 1 then none else some (2 ^ 52, roundingExponent n d + 1)
      else if 971 < roundingExponent n d then none
      else some (roundedAt n d (roundingExponent n d), roundingExponent n d) := by
  unfold BinaryFormat.round?
  rw [if_neg hn]
  let carried : Nat × Int :=
    if roundedAt n d (roundingExponent n d) = 2 ^ 53 then
      (roundedAt n d (roundingExponent n d) / 2, roundingExponent n d + 1)
    else (roundedAt n d (roundingExponent n d), roundingExponent n d)
  change (if 971 < carried.2 then none else some carried) = _
  by_cases hcarry : roundedAt n d (roundingExponent n d) = 2 ^ 53
  · have hhalf : 2 ^ 53 / 2 = 2 ^ 52 := by norm_num
    have hcarried : carried = (2 ^ 52, roundingExponent n d + 1) := by
      rw [← hhalf, ← hcarry]
      exact if_pos hcarry
    rw [if_pos hcarry, hcarried]
  · have hcarried : carried = (roundedAt n d (roundingExponent n d), roundingExponent n d) :=
      if_neg hcarry
    rw [if_neg hcarry, hcarried]

theorem round?_of_roundsTo (hn : n ≠ 0) (hd : d ≠ 0) (h : Normalized m e)
    (hq : RoundsTo (n / d) m e) : double.round? n d = some (m, e) := by
  have hpos : (0 : ℚ) < 2 ^ e := by positivity
  have hhalf := (lowEnd_ge m e).trans hq.low
  have horder : binaryOrder n d < e + 53 := by
    apply binaryOrder_lt hn hd
    have hm : (m : ℚ) + 1 ≤ 2 ^ 53 := by exact_mod_cast h.lt
    calc (n / d : ℚ) ≤ (m + 1 / 2) * 2 ^ e := hq.high
      _ < 2 ^ 53 * 2 ^ e := by
        gcongr
        linarith
      _ = 2 ^ (e + 53) := by
        rw [zpow_add₀ two_ne_zero, mul_comm]
        norm_cast
  by_cases hsame : roundingExponent n d = e
  · have hlt := h.lt
    have hgreatest := h.greatest
    rw [round?_eq hn, hsame, roundedAt_eq hd hhalf hq.high hq.tie_half, if_neg (by omega),
      if_neg (by omega)]
  · -- the quotient is below the least mantissa at this exponent
    unfold roundingExponent at hsame
    have hleast : -1074 < e := by
      have := h.least
      omega
    have hbelow : (n / d : ℚ) < 2 ^ (e + 52) := by
      by_contra hge
      have := le_binaryOrder hd (not_lt.mp hge)
      omega
    have hsplit : (2 : ℚ) ^ (e + 52) = 2 ^ 52 * 2 ^ e := by
      rw [zpow_add₀ two_ne_zero, mul_comm]
      norm_cast
    obtain rfl : m = 2 ^ 52 := by
      apply le_antisymm _ (h.normal hleast)
      by_contra hgt
      have hm : (2 : ℚ) ^ 52 + 1 ≤ m := by exact_mod_cast Nat.succ_le_of_lt (not_le.mp hgt)
      have : (2 : ℚ) ^ 52 * 2 ^ e ≤ (m - 1 / 2) * 2 ^ e := by
        gcongr
        linarith
      linarith
    have hlow : ((2 ^ 53 : Nat) - 1 / 2 : ℚ) * 2 ^ (e - 1) ≤ n / d := by
      have := hq.low
      rw [lowEnd, if_pos ⟨rfl, hleast⟩] at this
      calc ((2 ^ 53 : Nat) - 1 / 2 : ℚ) * 2 ^ (e - 1) = ((2 ^ 52 : Nat) - 1 / 4) * 2 ^ e := by
            rw [zpow_sub_one₀ two_ne_zero]
            push_cast
            ring
        _ ≤ n / d := this
    have hcarry : roundedAt n d (e - 1) = 2 ^ 53 := by
      apply roundedAt_eq hd hlow _ fun _ => by norm_num
      calc (n / d : ℚ) ≤ 2 ^ 52 * 2 ^ e := by linarith
        _ = (2 ^ 53 : Nat) * 2 ^ (e - 1) := by
          rw [zpow_sub_one₀ two_ne_zero]
          push_cast
          ring
        _ ≤ ((2 ^ 53 : Nat) + 1 / 2) * 2 ^ (e - 1) := by
          gcongr
          norm_num
    have hexponent : roundingExponent n d = e - 1 := by
      have hlower := le_binaryOrder (k := e + 51) hd (by
        calc (2 : ℚ) ^ (e + 51) = 2 ^ 52 * 2 ^ (e - 1) := by
              rw [zpow_add₀ two_ne_zero, zpow_sub_one₀ two_ne_zero]
              norm_num
              ring
          _ ≤ ((2 ^ 53 : Nat) - 1 / 2) * 2 ^ (e - 1) := by
            gcongr
            norm_num
          _ ≤ n / d := hlow)
      have hupper := binaryOrder_lt hn hd hbelow
      unfold roundingExponent
      omega
    have hgreatest := h.greatest
    rw [round?_eq hn, hexponent, if_pos hcarry, sub_add_cancel, if_neg (by omega)]

theorem withSign_toNat {negative : Bool} {b : UInt64} (hb : b.toNat < 2 ^ 63) :
    (if negative then b ||| 0x8000000000000000 else b).toNat =
      (if negative then 2 ^ 63 else 0) + b.toNat := by
  cases negative with
  | false => simp
  | true =>
    rw [if_pos rfl, if_pos rfl, UInt64.toNat_or]
    change b.toNat ||| 2 ^ 63 = _
    rw [Nat.or_comm]
    exact (Nat.two_pow_add_eq_or_of_lt (i := 63) hb 1).symm

theorem exists_parts {x : Float} (hx : isFinite x = true) :
    ∃ m e, magnitude x = .finite ⟨signBit x, m, e⟩ ∧ (m = 0 ∨ Normalized m e) ∧
      withSign (signBit x) (pack m e) = x := by
  have hfield : x.toBits.toNat / 2 ^ 52 % 2 ^ 11 ≠ 2047 := bne_iff_ne.mp hx
  have hbits : x.toBits.toNat < 2 ^ 64 := x.toBits.toNat_lt
  have hparts : ∀ m e, m < 2 ^ 53 → -1074 ≤ e → e ≤ 971 →
      (if m < 2 ^ 52 then m else (e + 1075).toNat * 2 ^ 52 + (m - 2 ^ 52)) =
        x.toBits.toNat % 2 ^ 63 → withSign (signBit x) (pack m e) = x := by
    intro m e hm hlow hhigh heq
    rw [withSign]
    conv_rhs => rw [← ofBits_toBits x]
    congr 1
    apply UInt64.toNat_inj.mp
    have hpack := (pack_toNat hm hlow hhigh).trans heq
    rw [withSign_toNat (by omega), hpack, signBit]
    change (if decide (2 ^ 63 ≤ x.toBits.toNat) then 2 ^ 63 else 0) + _ = _
    by_cases hsign : 2 ^ 63 ≤ x.toBits.toNat
    · rw [if_pos (by simpa using hsign)]
      omega
    · rw [if_neg (by simpa using hsign)]
      omega
  unfold magnitude
  change ∃ m e, (if x.toBits.toNat / 2 ^ 52 % 2 ^ 11 = 2047 then _
    else if x.toBits.toNat / 2 ^ 52 % 2 ^ 11 = 0 then
      Magnitude.finite ⟨signBit x, x.toBits.toNat % 2 ^ 52, -1074⟩
    else Magnitude.finite ⟨signBit x, x.toBits.toNat % 2 ^ 52 + 2 ^ 52,
      Int.ofNat (x.toBits.toNat / 2 ^ 52 % 2 ^ 11) - 1075⟩) = _ ∧ _
  rw [if_neg hfield]
  split_ifs with hzero
  · refine ⟨_, _, rfl, ?_, hparts _ _ (by omega) (by omega) (by omega) ?_⟩
    · rcases Nat.eq_zero_or_pos (x.toBits.toNat % 2 ^ 52) with hm | hm
      · exact .inl hm
      · exact .inr ⟨hm, by omega, by omega, by omega, by omega⟩
    · rw [if_pos (by omega)]
      omega
  · generalize hf : x.toBits.toNat / 2 ^ 52 % 2 ^ 11 = field at hfield hzero
    have hlt : field < 2 ^ 11 := by omega
    refine ⟨_, _, rfl, .inr ⟨by omega, by omega, ?_, ?_, by omega⟩,
      hparts _ _ (by omega) ?_ ?_ ?_⟩
    all_goals simp only [Int.ofNat_eq_natCast]
    · omega
    · omega
    · omega
    · omega
    · rw [if_neg (by omega)]
      omega

end Toolpath.Number
