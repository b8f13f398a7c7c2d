import Toolpath.Proofs.BoundedDoubles
import Toolpath.Proofs.Numerals

/-!
# The value of a formatted number

A word shows a double rounded to the places of its format. Zeros are put in front of the
digits and taken from their end, and the point may be left out or implied, but the number
that the digits spell stays the rounded one.
-/

namespace Toolpath

variable {t : Text}

namespace Text

/-- The part of one that digits right behind a point spell. -/
def decimals (t : Text) : ℚ := natValue t / 10 ^ t.length

theorem decimals_append_zeros (t : Text) (k : Nat) :
    decimals (t ++ List.replicate k zero) = decimals t := by
  have hzeros : natValue (List.replicate k zero) = 0 := by
    have h := natValue_zeros k []
    rwa [List.append_nil] at h
  rw [decimals, natValue_append, hzeros, List.length_append, List.length_replicate,
    pow_add, decimals, Nat.add_zero]
  push_cast
  field_simp

theorem decimals_eq_zero_iff (t : Text) : decimals t = 0 ↔ natValue t = 0 := by
  rw [decimals, div_eq_zero_iff, Nat.cast_eq_zero]
  simp

theorem natValue_eq_zero_iff (h : ∀ b ∈ t, isDigit b = true) :
    natValue t = 0 ↔ ∀ b ∈ t, b = zero := by
  induction t with
  | nil => simp [natValue]
  | cons b t ih =>
    have hb : digitValue b = 0 ↔ b = zero := by
      have := Number.isDigit_iff.mp (h b List.mem_cons_self)
      rw [← UInt8.toNat_inj]
      change b.toNat - 48 = 0 ↔ b.toNat = 48
      omega
    have hsplit : natValue (b :: t) = 10 ^ t.length * digitValue b + natValue t := by
      rw [← List.singleton_append, natValue_append]
      simp [natValue]
    rw [hsplit, Nat.add_eq_zero_iff, ih fun c hc => h c (List.mem_cons_of_mem _ hc)]
    simp [hb]

end Text

structure Numeral where
  whole : Text
  behind : Option Text
  begun : whole ≠ []
  digits : ∀ b ∈ whole ++ behind.getD [], Text.isDigit b = true

namespace Numeral

variable (d : Numeral)

def fraction : Text := d.behind.getD []

def text : Text := d.whole ++ d.behind.elim [] (Text.point :: ·)

def value : ℚ := d.whole.natValue + d.fraction.decimals

/-- The numeral has exactly `places` digits behind the point and is as near to `q` as such a
numeral can be; of two that are as near, it is the one with an even digit at the end. -/
structure Rounds (places : Nat) (q : ℚ) : Prop where
  length : d.fraction.length = places
  near : |d.value - q| ≤ 1 / 2 / 10 ^ places
  even : |d.value - q| = 1 / 2 / 10 ^ places → Even (d.whole ++ d.fraction).natValue

end Numeral

namespace NumberFormat

theorem fraction_eq {places : Nat} (h : 0 < places) (n : Nat) :
    fraction places n = Number.fractionDigits places n := by
  rw [fraction, if_neg h.ne']
  rfl

@[simp] theorem length_fraction (places n : Nat) : (fraction places n).length = places := by
  obtain rfl | h := Nat.eq_zero_or_pos places
  · rfl
  · rw [fraction_eq h, Number.length_fractionDigits h]

theorem isDigit_fraction (places n : Nat) : ∀ b ∈ fraction places n, Text.isDigit b = true := by
  obtain rfl | h := Nat.eq_zero_or_pos places
  · simp [fraction]
  · rw [fraction_eq h]
    exact Number.isDigit_fractionDigits places n

@[simp] theorem natValue_fraction (places n : Nat) :
    (fraction places n).natValue = n % 10 ^ places := by
  obtain rfl | h := Nat.eq_zero_or_pos places
  · simp [fraction, Text.natValue, Nat.mod_one]
  · rw [fraction_eq h, Number.fractionDigits, Text.natValue_zeros, Text.natValue_ofNat]

theorem exists_stripZeros (t : Text) : ∃ k, t = stripZeros t ++ List.replicate k Text.zero := by
  refine ⟨(t.reverse.takeWhile (· = Text.zero)).length, ?_⟩
  have hzeros : t.reverse.takeWhile (· = Text.zero) =
      List.replicate (t.reverse.takeWhile (· = Text.zero)).length Text.zero := by
    rw [List.eq_replicate_iff]
    exact ⟨rfl, fun b hb => by simpa using List.mem_takeWhile_imp hb⟩
  rw [stripZeros, Text.dropWhileBack, ← List.reverse_inj, List.reverse_append, List.reverse_reverse,
    List.reverse_replicate, ← hzeros, List.takeWhile_append_dropWhile]

theorem decimals_stripZeros (t : Text) : (stripZeros t).decimals = t.decimals := by
  obtain ⟨k, hk⟩ := exists_stripZeros t
  rw [← Text.decimals_append_zeros (stripZeros t) k, ← hk]

theorem mem_of_mem_stripZeros {b : UInt8} (h : b ∈ stripZeros t) : b ∈ t := by
  obtain ⟨k, hk⟩ := exists_stripZeros t
  rw [hk]
  exact List.mem_append_left _ h

theorem stripZeros_eq_nil_iff (h : ∀ b ∈ t, Text.isDigit b = true) :
    stripZeros t = [] ↔ t.natValue = 0 := by
  rw [Text.natValue_eq_zero_iff h, stripZeros, Text.dropWhileBack, List.reverse_eq_nil_iff,
    List.dropWhile_eq_nil_iff]
  simp

variable (f : NumberFormat)

theorem decimals_trimFraction (h : ∀ b ∈ t, Text.isDigit b = true) :
    (f.trimFraction t).decimals = t.decimals := by
  unfold trimFraction
  split
  · exact decimals_stripZeros t
  · split_ifs with hzero
    · -- one zero is as good as many
      have hnil : stripZeros t = [] := by simp_all
      have hvalue : t.natValue = 0 := (stripZeros_eq_nil_iff h).mp hnil
      rw [(Text.decimals_eq_zero_iff t).mpr hvalue, Text.decimals_eq_zero_iff]
      rfl
    · exact decimals_stripZeros t
  · rfl

theorem isDigit_trimFraction (h : ∀ b ∈ t, Text.isDigit b = true) :
    ∀ b ∈ f.trimFraction t, Text.isDigit b = true := by
  have hstrip : ∀ b ∈ stripZeros t, Text.isDigit b = true :=
    fun b hb => h b (mem_of_mem_stripZeros hb)
  unfold trimFraction
  split
  · exact hstrip
  · split_ifs
    · rintro b hb
      rw [List.mem_singleton.mp hb]
      decide
    · exact hstrip
  · exact h

theorem trimFraction_eq_nil_iff (h : ∀ b ∈ t, Text.isDigit b = true) :
    f.trimFraction t = [] ↔ t = [] ∨ f.trailing = .strip ∧ t.natValue = 0 := by
  have hnil : t = [] → t.natValue = 0 := by
    rintro rfl
    rfl
  unfold trimFraction
  split
  · rename_i hstrip
    simp only [stripZeros_eq_nil_iff h, hstrip, true_and]
    tauto
  · rename_i hkeep
    simp only [hkeep, Bool.and_eq_true, decide_eq_true_eq, stripZeros_eq_nil_iff h]
    split_ifs with hzero
    · simpa using hzero.2
    · rw [stripZeros_eq_nil_iff h]
      simp
      tauto
  · rename_i hstrip _
    simp only [show f.trailing ≠ .strip from hstrip, false_and, or_false]

def behindPoint (n : Nat) : Option Text :=
  let frac := f.trimFraction (fraction f.places n)
  match f.point with
  | .never => none
  | .always => some frac
  | .optional => if n % 10 ^ f.places = 0 then none else some frac
  | .unlisted _ => if frac = [] then none else some frac

theorem all_zero_trimFraction (n : Nat) :
    ((f.trimFraction (fraction f.places n)).all (· = Text.zero)) = true ↔
      n % 10 ^ f.places = 0 := by
  have hdigits := isDigit_fraction f.places n
  rw [← natValue_fraction, ← Text.decimals_eq_zero_iff, ← decimals_trimFraction f hdigits,
    Text.decimals_eq_zero_iff, Text.natValue_eq_zero_iff (isDigit_trimFraction f hdigits)]
  simp

theorem pointDigits_eq (n : Nat) :
    f.pointDigits n = (f.behindPoint n).elim [] (Text.point :: ·) := by
  have hzero := all_zero_trimFraction f n
  unfold pointDigits behindPoint
  cases f.point with
  | never => rfl
  | always => rfl
  | optional => simp only [hzero]; split_ifs <;> rfl
  | unlisted code => dsimp only; split_ifs <;> rfl

theorem mem_behindPoint {n : Nat} (h : f.behindPoint n = some t) :
    t = f.trimFraction (fraction f.places n) := by
  unfold behindPoint at h
  cases hpoint : f.point <;> simp_all

theorem behindPoint_isSome_iff (n : Nat) :
    (f.behindPoint n).isSome = true ↔ f.point = .always ∨
      f.point = .optional ∧ n % 10 ^ f.places ≠ 0 ∨
      (∃ code, f.point = .unlisted code) ∧ 0 < f.places ∧
        (f.trailing = .strip → n % 10 ^ f.places ≠ 0) := by
  have hempty := trimFraction_eq_nil_iff f (isDigit_fraction f.places n)
  rw [← List.length_eq_zero_iff (l := fraction f.places n), length_fraction,
    natValue_fraction] at hempty
  unfold behindPoint
  cases hpoint : f.point with
  | never => simp
  | always => simp
  | optional => simp
  | unlisted code => simp [hempty, Nat.pos_iff_ne_zero]

theorem behindPoint_eq_none {n : Nat} (hpoint : f.point ≠ .never) (h : f.behindPoint n = none) :
    n % 10 ^ f.places = 0 := by
  have hsome := (behindPoint_isSome_iff f n).not.mp (by simp [h])
  cases hcase : f.point <;> grind

theorem isDigit_wholeDigits (n : Nat) : ∀ b ∈ f.wholeDigits n, Text.isDigit b = true := by
  have hpadded : ∀ k m, ∀ b ∈ List.replicate k Text.zero ++ Text.ofNat m,
      Text.isDigit b = true := by
    intro k m b hb
    obtain hb | hb := List.mem_append.mp hb
    · rw [List.eq_of_mem_replicate hb]
      decide
    · exact Text.isDigit_ofNat m b hb
  unfold wholeDigits
  dsimp only
  split_ifs <;> first | exact hpadded _ _ | exact Text.isDigit_ofNat _

theorem natValue_wholeDigits (n : Nat) :
    (f.wholeDigits n).natValue = if f.point = .never then n else n / 10 ^ f.places := by
  unfold wholeDigits
  split_ifs <;> simp [Text.natValue_zeros, Text.natValue_ofNat]

theorem le_width (h : f.before + (if f.point = .never then f.places else 0 : Nat) < 2 ^ 63) :
    f.before + (if f.point = .never then f.places else 0 : Nat) ≤ max 0 f.width := by
  unfold width
  split_ifs at h ⊢
  · rcases lt_or_ge (f.before + f.places) (-2 ^ 63) with hlow | hlow
    · omega
    · rw [Nat.pow_eq, Int.bmod_eq_of_le (by omega) (by omega)]
      exact le_max_right ..
  · simp

theorem le_length_wholeDigits (h : f.leadingZeros = true) (n : Nat) :
    f.width ≤ (f.wholeDigits n).length := by
  unfold wholeDigits
  dsimp only
  rw [if_pos h, List.length_append, List.length_replicate]
  omega

def body (n : Nat) : Numeral where
  whole := f.wholeDigits n
  behind := f.behindPoint n
  begun := f.wholeDigits_ne_nil n
  digits := by
    intro b hb
    obtain hb | hb := List.mem_append.mp hb
    · exact isDigit_wholeDigits f n b hb
    · cases hbehind : f.behindPoint n with
      | none => simp [hbehind] at hb
      | some t =>
        rw [hbehind, Option.getD_some, mem_behindPoint f hbehind] at hb
        exact isDigit_trimFraction f (isDigit_fraction f.places n) b hb

theorem write_eq (negative : Bool) (n : Nat) :
    f.write negative n = f.address ++ f.signText (negative && n != 0) ++ (f.body n).text := by
  simp [write, Numeral.text, body, pointDigits_eq]

theorem whole_add_part (n places : Nat) :
    ((n / 10 ^ places : Nat) : ℚ) + ((n % 10 ^ places : Nat) : ℚ) / 10 ^ places = n /
      10 ^ places := by
  have h : (n : ℚ) = 10 ^ places * (n / 10 ^ places : Nat) + (n % 10 ^ places : Nat) := by
    exact_mod_cast (Nat.div_add_mod n (10 ^ places)).symm
  rw [h]
  field_simp

theorem decimals_fraction (places n : Nat) :
    (fraction places n).decimals = ((n % 10 ^ places : Nat) : ℚ) / 10 ^ places := by
  rw [Text.decimals, natValue_fraction, length_fraction]

theorem value_body (n : Nat) :
    (f.body n).value / (if f.point = .never then 10 ^ f.places else 1) = n / 10 ^ f.places := by
  rw [Numeral.value]
  change ((f.wholeDigits n).natValue + ((f.behindPoint n).getD []).decimals) / _ = _
  rw [natValue_wholeDigits]
  split_ifs with hpoint
  · have hnone : f.behindPoint n = none := by rw [behindPoint, hpoint]
    simp [hnone, Text.decimals, Text.natValue]
  · rw [div_one, ← whole_add_part, ← decimals_fraction]
    congr 1
    cases hbehind : f.behindPoint n with
    | none =>
      rw [decimals_fraction, behindPoint_eq_none f hpoint hbehind]
      simp [Text.decimals, Text.natValue]
    | some t =>
      rw [Option.getD_some, mem_behindPoint f hbehind, decimals_trimFraction]
      exact isDigit_fraction f.places n

def rounded (places n : Nat) : Numeral where
  whole := Text.ofNat (n / 10 ^ places)
  behind := if places = 0 then none else some (fraction places n)
  begun := Text.ofNat_ne_nil _
  digits := by
    intro b hb
    obtain hb | hb := List.mem_append.mp hb
    · exact Text.isDigit_ofNat _ b hb
    · split_ifs at hb
      · simp at hb
      · exact isDigit_fraction places n b hb

variable (places n : Nat)

@[simp] theorem fraction_rounded : (rounded places n).fraction = fraction places n := by
  unfold rounded Numeral.fraction
  split_ifs with h
  · simp [fraction, h]
  · rfl

theorem text_rounded : (rounded places n).text = Number.pointed places n := by
  obtain rfl | h := Nat.eq_zero_or_pos places
  · simp [rounded, Numeral.text, Number.pointed]
  · rw [Number.pointed_eq h, ← fraction_eq h]
    simp [rounded, Numeral.text, h.ne']

@[simp] theorem value_rounded : (rounded places n).value = n / 10 ^ places := by
  have hwhole : (rounded places n).whole.natValue = n / 10 ^ places := Text.natValue_ofNat _
  rw [Numeral.value, hwhole, fraction_rounded, decimals_fraction, whole_add_part]

theorem natValue_rounded :
    ((rounded places n).whole ++ (rounded places n).fraction).natValue = n := by
  rw [Text.natValue_append, fraction_rounded, length_fraction, natValue_fraction]
  change 10 ^ places * (Text.ofNat (n / 10 ^ places)).natValue + _ = n
  rw [Text.natValue_ofNat, Nat.div_add_mod]

end NumberFormat

/-! ## Rounding -/

namespace Number

theorem rounds_scaledDigits {x : Float} {v : Dyadic} (h : magnitude x = .finite v) (places : Nat) :
    (NumberFormat.rounded places (scaledDigits places v)).Rounds places |value x| := by
  obtain ⟨hnear, heven⟩ := divideToEven_near ((ratio v.mantissa v.exponent).num * 10 ^ places)
    (Nat.pos_of_ne_zero (ratio_den_ne_zero v.mantissa v.exponent))
  have hquotient : (((ratio v.mantissa v.exponent).num * 10 ^ places : Nat) : ℚ) /
      (ratio v.mantissa v.exponent).den = |value x| * 10 ^ places := by
    rw [abs_value h, ← ratio_value, Ratio.value]
    push_cast
    ring
  change |(scaledDigits places v : ℚ) - _| ≤ _ at hnear
  change |(scaledDigits places v : ℚ) - _| = _ → Even (scaledDigits places v) at heven
  rw [hquotient] at hnear heven
  generalize |value x| = q at hnear heven ⊢
  -- the difference in units of the last place
  have hunit : |(scaledDigits places v / 10 ^ places - q : ℚ)| =
      |(scaledDigits places v - q * 10 ^ places : ℚ)| / 10 ^ places := by
    rw [div_sub' (by positivity), abs_div, abs_of_pos (by positivity : (0 : ℚ) < 10 ^ places),
      mul_comm q]
  constructor
  · rw [NumberFormat.fraction_rounded, NumberFormat.length_fraction]
  · rw [NumberFormat.value_rounded, hunit]
    gcongr
  · rw [NumberFormat.value_rounded, NumberFormat.natValue_rounded, hunit,
      div_left_inj' (by positivity)]
    exact heven

theorem negative_iff_lt {x : Float} {v : Dyadic} (h : magnitude x = .finite v) {places : Nat}
    (hdigits : scaledDigits places v ≠ 0) : v.negative = true ↔ x < 0 := by
  have hmantissa : (0 : ℚ) < v.mantissa := by
    have : v.mantissa ≠ 0 := by
      intro hzero
      obtain ⟨negative, mantissa, exponent⟩ := v
      obtain rfl : mantissa = 0 := hzero
      exact hdigits (scaledDigits_zero places negative exponent)
    exact_mod_cast Nat.pos_of_ne_zero this
  have hpos : (0 : ℚ) < v.mantissa * 2 ^ v.exponent := by positivity
  rw [lt_iff_value (isFinite_of_magnitude h) (by decide), value_zero, value_eq h]
  cases v.negative with
  | false => simpa [signed] using hpos.le
  | true => simpa [signed] using hpos

end Number

namespace NumberFormat

theorem signText_cases (f : NumberFormat) (negative : Bool) :
    (f.signText negative = [] ∨ f.signText negative = "-" ∨ f.signText negative = "+") ∧
      (f.signText negative = "-" ↔ negative = true ∧ f.sign ≠ .none) ∧
      (f.signText negative = "+" ↔ f.sign = .plusMinus ∧ f.signText negative ≠ "-") := by
  have hminus : Text.ofString "-" ≠ [] := by decide
  have hplus : Text.ofString "+" ≠ [] := by decide
  have hother : Text.ofString "-" ≠ "+" := by decide
  unfold signText
  generalize Text.ofString "-" = minus at *
  generalize Text.ofString "+" = plus at *
  split_ifs <;> grind

/-- The word for a finite double is the address, at most one sign and digits that spell the
absolute value as it is rounded to the places of the format. -/
theorem format_keeps_value (f : NumberFormat) {x : Float} (hx : Number.isFinite x = true) :
    ∃ (d : Numeral) (sign : Text) (body : Numeral),
      Number.fixed f.places (Number.abs x) = d.text ∧ d.Rounds f.places |Number.value x| ∧
      f.formatFinite x = .ok (f.address ++ sign ++ body.text) ∧
      body.value / (if f.point = .never then 10 ^ f.places else 1) = d.value ∧
      (sign = [] ∨ sign = "-" ∨ sign = "+") ∧
      (sign = "-" ↔ x < 0 ∧ d.value ≠ 0 ∧ f.sign ≠ .none) ∧
      (sign = "+" ↔ f.sign = .plusMinus ∧ sign ≠ "-") ∧
      (f.leadingZeros = true →
        f.before + (if f.point = .never then f.places else 0 : Nat) < 2 ^ 63 →
        f.before + (if f.point = .never then f.places else 0 : Nat) ≤ body.whole.length) ∧
      (body.behind.isSome = true ↔ f.point = .always ∨
        f.point = .optional ∧ d.fraction.natValue ≠ 0 ∨
        (∃ code, f.point = .unlisted code) ∧ 0 < f.places ∧
          (f.trailing = .strip → d.fraction.natValue ≠ 0)) := by
  obtain ⟨v, hmagnitude⟩ : ∃ v, Number.magnitude x = .finite v :=
    let ⟨_, _, h, _⟩ := Number.exists_parts hx
    ⟨_, h⟩
  have hfixed : Number.fixed f.places (Number.abs x) =
      (rounded f.places (Number.scaledDigits f.places v)).text := by
    rw [text_rounded, Number.fixed, Number.magnitude_abs hmagnitude]
    rfl
  have htoken : f.formatFinite x = .ok (f.write v.negative (Number.scaledDigits f.places v)) := by
    rw [formatFinite, requireFinite, hx, format, hmagnitude]
    rfl
  have hrounds := Number.rounds_scaledDigits hmagnitude f.places
  have hnegative (h : Number.scaledDigits f.places v ≠ 0) := Number.negative_iff_lt hmagnitude h
  generalize Number.scaledDigits f.places v = n at *
  obtain ⟨hsign, hminus, hplus⟩ := signText_cases f (v.negative && n != 0)
  refine ⟨rounded f.places n, f.signText (v.negative && n != 0), f.body n, hfixed, hrounds, ?_, ?_,
    hsign, ?_, hplus, fun hzeros hfits => ?_, ?_⟩
  · rw [htoken, write_eq]
  · rw [value_body, value_rounded]
  · have hzero : ((n : ℚ) / 10 ^ f.places ≠ 0) ↔ n ≠ 0 := by simp
    rw [hminus, value_rounded, hzero, Bool.and_eq_true, bne_iff_ne]
    constructor
    · rintro ⟨⟨hminus, hn⟩, hmode⟩
      exact ⟨(hnegative hn).mp hminus, hn, hmode⟩
    · rintro ⟨hbelow, hn, hmode⟩
      exact ⟨⟨(hnegative hn).mpr hbelow, hn⟩, hmode⟩
  · have hlength := max_le (Int.natCast_nonneg _) (le_length_wholeDigits f hzeros n)
    exact (le_width f hfits).trans hlength
  · rw [fraction_rounded, natValue_fraction]
    exact behindPoint_isSome_iff f n

/-- A number that is rounded up to one more digit, with an implied point. -/
theorem format_keeps_value_carried :
    let f : NumberFormat :=
      { address := "X", sign := .minusOnly, before := 2, after := 3, leadingZeros := true }
    Number.isFinite (-0.9996) = true ∧ f.formatFinite (-0.9996) = .ok (Text.ofString "X-01000") ∧
      ∃ (d : Numeral) (sign : Text) (body : Numeral), d.text = "1.000" ∧
        Text.ofString "X-01000" = "X" ++ sign ++ body.text ∧
        body.value / 10 ^ 3 = d.value ∧ 5 ≤ body.whole.length ∧ body.behind = none := by
  intro f
  have hfinite : Number.isFinite (-0.9996) = true := by decide +kernel
  have hwritten : f.formatFinite (-0.9996) = .ok (Text.ofString "X-01000") := by decide +kernel
  obtain ⟨d, sign, body, hfixed, -, htoken, hvalue, -, -, -, hwidth, hpoint⟩ :=
    format_keeps_value f hfinite
  refine ⟨hfinite, hwritten, d, sign, body, ?_, ?_, hvalue, ?_, ?_⟩
  · rw [← hfixed]
    decide +kernel
  · exact Except.ok.inj (hwritten.symm.trans htoken)
  · have hlength : (5 : Int) ≤ body.whole.length := hwidth rfl (by decide)
    exact_mod_cast hlength
  · rw [← Option.not_isSome_iff_eq_none, hpoint]
    simp [f]

/-- A point mode that is not listed shows a point in front of zeros, and a width beyond 64 bits
asks for no zeros. -/
theorem point_and_width_escape :
    (¬ ∀ (f : NumberFormat) (x : Float) (d : Numeral) (sign : Text) (body : Numeral),
      0 ≤ f.before → 0 ≤ f.after → Number.isFinite x = true →
      Number.fixed f.places (Number.abs x) = d.text →
      f.formatFinite x = .ok (f.address ++ sign ++ body.text) →
      sign = [] ∨ sign = "-" ∨ sign = "+" →
      (body.behind.isSome = true ↔ f.point = .always ∨
        f.point = .optional ∧ d.fraction.natValue ≠ 0)) ∧
    ¬ ∀ (f : NumberFormat) (x : Float) (sign : Text) (body : Numeral),
      0 ≤ f.before → 0 ≤ f.after → Number.isFinite x = true →
      f.formatFinite x = .ok (f.address ++ sign ++ body.text) →
      sign = [] ∨ sign = "-" ∨ sign = "+" → f.leadingZeros = true →
      f.before + (if f.point = .never then f.places else 0 : Nat) ≤ body.whole.length := by
  constructor <;> intro h
  · let f : NumberFormat :=
      { address := "X", point := .unlisted 3, before := 1, after := 1, trailing := .keepAll }
    have hpoint := h f 1 (rounded 1 10) [] (rounded 1 10) (by decide) (by decide) (by decide)
      (by decide +kernel) (by decide +kernel) (.inl rfl)
    exact absurd (hpoint.mp rfl) (by simp [f])
  · let f : NumberFormat :=
      { address := "X", before := 2 ^ 63 - 1, after := 1, leadingZeros := true }
    have hwidth := h f 1 [] (f.body 10) (by decide) (by decide) (by decide) (by decide +kernel)
      (.inl rfl) rfl
    exact absurd hwidth (by decide +kernel)

end NumberFormat
end Toolpath
