import Mathlib.Data.List.TakeWhile
import Toolpath.Proofs.ShortestDecimals
import Toolpath.Statement.Parse

/-!
# Numerals

The digits of a natural number spell it, and so do the digits before and behind
the point of a decimal together. A decimal without an exponent is read as a
decimal of the same value, and the shortest text of a finite double as that
double, its sign included.
-/

namespace Toolpath

namespace Text

theorem natValue_foldl (t : Text) (n : Nat) :
    t.foldl (fun n b => 10 * n + digitValue b) n = 10 ^ t.length * n + natValue t := by
  induction t generalizing n with
  | nil => simp [natValue]
  | cons b t ih =>
    rw [natValue, List.foldl_cons, List.foldl_cons, ih, ih (10 * 0 + digitValue b),
      List.length_cons]
    ring

theorem natValue_append (s t : Text) :
    natValue (s ++ t) = 10 ^ t.length * natValue s + natValue t := by
  rw [natValue, List.foldl_append]
  exact natValue_foldl t _

theorem natValue_zeros (k : Nat) (t : Text) :
    natValue (List.replicate k zero ++ t) = natValue t := by
  induction k with
  | zero => rfl
  | succ k ih =>
    rw [List.replicate_succ, List.cons_append, natValue, List.foldl_cons]
    exact ih

theorem digit_octet {c : Char} (h : c.isDigit = true) :
    isDigit c.toUInt8 = true ∧ digitValue c.toUInt8 = c.toNat - '0'.toNat := by
  have hbounds : 48 ≤ c.toNat ∧ c.toNat ≤ 57 := by
    simp only [Char.isDigit, Bool.and_eq_true, decide_eq_true_eq, UInt32.le_iff_toNat_le] at h
    exact h
  have htoNat : c.toUInt8.toNat = c.toNat := Nat.mod_eq_of_lt (by omega : c.toNat < 256)
  constructor
  · simp only [isDigit, Bool.and_eq_true, decide_eq_true_eq, UInt8.le_iff_toNat_le, htoNat]
    exact hbounds
  · rw [digitValue, htoNat]
    rfl

theorem isDigit_ofNat (n : Nat) : ∀ b ∈ ofNat n, isDigit b = true := by
  intro b hb
  obtain ⟨c, hc, rfl⟩ := List.mem_map.mp hb
  exact (digit_octet (Nat.isDigit_of_mem_toDigits (by norm_num) (by norm_num) hc)).1

theorem natValue_ofNat (n : Nat) : natValue (ofNat n) = n := by
  have hfold : ∀ (cs : List Char) (k : Nat), (∀ c ∈ cs, c.isDigit = true) →
      (cs.map Char.toUInt8).foldl (fun n b => 10 * n + digitValue b) k =
        Nat.ofDigitChars 10 cs k := by
    intro cs
    induction cs with
    | nil => intro k _; rfl
    | cons c cs ih =>
      intro k hcs
      rw [List.map_cons, List.foldl_cons, Nat.ofDigitChars_cons,
        (digit_octet (hcs c (List.mem_cons_self ..))).2]
      exact ih _ fun d hd => hcs d (List.mem_cons_of_mem _ hd)
  rw [natValue, ofNat, hfold _ _ fun c hc =>
    Nat.isDigit_of_mem_toDigits (by norm_num) (by norm_num) hc, Nat.ofDigitChars_ten_toDigits]

theorem length_ofNat_le {n k : Nat} (hk : 0 < k) (h : n < 10 ^ k) : (ofNat n).length ≤ k := by
  rw [ofNat, List.length_map]
  exact (Nat.length_toDigits_le_iff (by norm_num) hk).mpr h

end Text

variable {t : Text} {b : UInt8} {x : Float}

namespace Number

open Text (natValue isDigit isUpper asciiLower)

theorem takeWhile_digits {s : Text} (hs : ∀ b ∈ s, isDigit b = true)
    (ht : ∀ b, t.head? = some b → isDigit b = false) :
    (s ++ t).takeWhile isDigit = s ∧ (s ++ t).dropWhile isDigit = t := by
  rw [List.takeWhile_append_of_pos hs, List.dropWhile_append_of_pos hs]
  cases t with
  | nil => simp
  | cons b t => simp [ht b rfl]

theorem readMantissa_whole {s : Text} (hs : ∀ b ∈ s, isDigit b = true) :
    readMantissa isDigit s = ⟨s, 0, []⟩ := by
  have h := takeWhile_digits hs (t := []) (by simp)
  rw [List.append_nil] at h
  rw [readMantissa, h.1, h.2]

theorem readMantissa_pointed {s f : Text} (hs : ∀ b ∈ s, isDigit b = true)
    (hf : ∀ b ∈ f, isDigit b = true) :
    readMantissa isDigit (s ++ Text.point :: f) = ⟨s ++ f, f.length, []⟩ := by
  have h := takeWhile_digits hs (t := Text.point :: f) (by rintro b ⟨⟩; decide)
  have h' := takeWhile_digits hf (t := []) (by simp)
  rw [List.append_nil] at h'
  rw [readMantissa, h.1, h.2]
  change Mantissa.mk (s ++ f.takeWhile isDigit) (f.takeWhile isDigit).length (f.dropWhile isDigit) =
    _
  rw [h'.1, h'.2]

def fractionDigits (places n : Nat) : Text :=
  List.replicate (places - (Text.ofNat (n % 10 ^ places)).length) Text.zero ++
    Text.ofNat (n % 10 ^ places)

theorem isDigit_fractionDigits (places n : Nat) :
    ∀ b ∈ fractionDigits places n, isDigit b = true := by
  intro b hb
  obtain hb | hb := List.mem_append.mp hb
  · rw [(List.mem_replicate.mp hb).2]
    decide
  · exact Text.isDigit_ofNat _ b hb

theorem length_fractionDigits {places : Nat} (h : 0 < places) (n : Nat) :
    (fractionDigits places n).length = places := by
  have := Text.length_ofNat_le h (Nat.mod_lt n (Nat.pow_pos (n := places) (by norm_num : 0 < 10)))
  rw [fractionDigits, List.length_append, List.length_replicate]
  omega

theorem pointed_eq {places : Nat} (h : 0 < places) (n : Nat) :
    pointed places n = Text.ofNat (n / 10 ^ places) ++ Text.point :: fractionDigits places n := by
  rw [pointed, if_neg h.ne']
  rfl

theorem readDecimal?_positional (d : Decimal) :
    ∃ d', readDecimal? d.positional = some d' ∧ d'.ratio = d.ratio ∧
      (d'.digits = 0 ↔ d.digits = 0) := by
  unfold Decimal.positional
  split_ifs with he
  · refine ⟨⟨d.digits * 10 ^ d.exponent.toNat, 0⟩, ?_, ?_, ?_⟩
    · rw [readDecimal?, readMantissa_whole (Text.isDigit_ofNat _)]
      simp [Text.ofNat_ne_nil, Text.natValue_ofNat]
    · simp [Decimal.ratio, he]
    · simp
  · refine ⟨d, ?_, rfl, Iff.rfl⟩
    have hplaces : 0 < (-d.exponent).toNat := by omega
    have hexponent : -((-d.exponent).toNat : Int) = d.exponent := by omega
    rw [pointed_eq hplaces, readDecimal?, readMantissa_pointed (Text.isDigit_ofNat _)
      (isDigit_fractionDigits _ _)]
    simp only [List.append_eq_nil_iff, Text.ofNat_ne_nil, false_and, if_false]
    rw [Text.natValue_append, length_fractionDigits hplaces, Text.natValue_ofNat, fractionDigits,
      Text.natValue_zeros, Text.natValue_ofNat, Nat.div_add_mod, hexponent]

theorem readSign_digit (hb : isDigit b = true) (ht : t.head? = some b) :
    readSign t = (false, t) := by
  unfold readSign
  split
  next =>
    cases ht
    exact absurd hb (by decide)
  next =>
    cases ht
    exact absurd hb (by decide)
  next => rfl

theorem head?_ofNat (n : Nat) (t : Text) :
    ∃ b, (Text.ofNat n ++ t).head? = some b ∧ isDigit b = true := by
  obtain ⟨b, s, hs⟩ := List.exists_cons_of_ne_nil (Text.ofNat_ne_nil n)
  exact ⟨b, by rw [hs]; rfl, Text.isDigit_ofNat n b (by simp [hs])⟩

theorem head?_positional (d : Decimal) : ∃ b, d.positional.head? = some b ∧ isDigit b = true := by
  unfold Decimal.positional
  split_ifs with he
  · have h := head?_ofNat (d.digits * 10 ^ d.exponent.toNat) []
    rwa [List.append_nil] at h
  · rw [pointed_eq (by omega)]
    exact head?_ofNat _ _

theorem readSign_minus (negative : Bool) (d : Decimal) :
    readSign (minus negative d.positional) = (negative, d.positional) := by
  cases negative with
  | true => rfl
  | false =>
    obtain ⟨b, hb, hdigit⟩ := head?_positional d
    exact readSign_digit hdigit hb

theorem read_shortest (hx : isFinite x = true) : read (shortest x) = .ok x := by
  obtain ⟨m, e, hmagnitude, hparts, hpack⟩ := exists_parts hx
  set d := shortestDecimal ⟨signBit x, m, e⟩ with hd
  obtain ⟨d', hread, hratio, hzero⟩ := readDecimal?_positional d
  have hnearest : d'.nearest? (signBit x) = some x := by
    obtain rfl | hnormal := hparts
    · have hdigits : d'.digits = 0 := hzero.mpr (by rw [hd]; rfl)
      rw [Decimal.nearest?, if_pos (.inl hdigits)]
      exact congrArg some hpack
    · obtain ⟨hrounds, hdigits⟩ := shortestDecimal_spec (signBit x) hnormal
      have hvalue : d'.value = d.value := by rw [← d'.ratio_value, hratio, d.ratio_value]
      exact Decimal.nearest?_eq hnormal (mt hzero.mp hdigits) (hvalue ▸ hrounds) hpack
  rw [shortest, hmagnitude]
  dsimp only
  rw [read, readSign_minus]
  simp only [← hd, hread, hnearest]

theorem isNumberMark_of_isDigit (h : isDigit b = true) : Parameter.isNumberMark b = true := by
  simp [Parameter.isNumberMark, h]

theorem isNumberMark_positional (d : Decimal) :
    ∀ b ∈ d.positional, Parameter.isNumberMark b = true := by
  unfold Decimal.positional
  split_ifs with he
  · exact fun b hb => isNumberMark_of_isDigit (Text.isDigit_ofNat _ b hb)
  · rw [pointed_eq (by omega)]
    intro b hb
    obtain hb | rfl | hb : b ∈ Text.ofNat _ ∨ b = Text.point ∨ b ∈ fractionDigits _ _ := by
      simpa using hb
    · exact isNumberMark_of_isDigit (Text.isDigit_ofNat _ b hb)
    · decide
    · exact isNumberMark_of_isDigit (isDigit_fractionDigits _ _ b hb)

theorem shortest_marks (hx : isFinite x = true) :
    (∀ b ∈ shortest x, Parameter.isNumberMark b = true) ∧ ∃ b ∈ shortest x, isDigit b = true := by
  obtain ⟨m, e, hmagnitude, -⟩ := exists_parts hx
  rw [shortest, hmagnitude]
  dsimp only
  have hmarks := isNumberMark_positional (shortestDecimal ⟨signBit x, m, e⟩)
  obtain ⟨b, hb, hdigit⟩ := head?_positional (shortestDecimal ⟨signBit x, m, e⟩)
  have hmem := List.mem_of_mem_head? hb
  cases signBit x with
  | false => exact ⟨hmarks, b, hmem, hdigit⟩
  | true =>
    refine ⟨?_, b, List.mem_cons_of_mem _ hmem, hdigit⟩
    rintro c (_ | ⟨_, hc⟩)
    · decide
    · exact hmarks c hc

/-! ## Letter case

The letter before an exponent may be of either case.
-/

theorem isDigit_iff : isDigit b = true ↔ 48 ≤ b.toNat ∧ b.toNat ≤ 57 := by
  simp [isDigit, UInt8.le_iff_toNat_le]

theorem toNat_asciiLower (b : UInt8) :
    (asciiLower b).toNat = if 65 ≤ b.toNat ∧ b.toNat ≤ 90 then b.toNat + 32 else b.toNat := by
  have hupper : isUpper b = true ↔ 65 ≤ b.toNat ∧ b.toNat ≤ 90 := by
    simp [isUpper, UInt8.le_iff_toNat_le]
  unfold asciiLower
  simp only [hupper]
  split_ifs with h
  · rw [UInt8.toNat_add, Nat.mod_eq_of_lt]
    · rfl
    · change b.toNat + 32 < 256
      omega
  · rfl

theorem isDigit_asciiLower (b : UInt8) : isDigit (asciiLower b) = isDigit b := by
  rw [Bool.eq_iff_iff, isDigit_iff, isDigit_iff, toNat_asciiLower]
  split_ifs <;> omega

theorem asciiLower_of_isDigit (h : isDigit b = true) : asciiLower b = b := by
  rw [isDigit_iff] at h
  rw [← UInt8.toNat_inj, toNat_asciiLower, if_neg (by omega)]

theorem asciiLower_eq_iff {b c : UInt8} (hc : c.toNat < 65) : asciiLower b = c ↔ b = c := by
  rw [← UInt8.toNat_inj, ← UInt8.toNat_inj, toNat_asciiLower]
  split_ifs <;> omega

theorem takeWhile_asciiLower (t : Text) :
    (t.map asciiLower).takeWhile isDigit = t.takeWhile isDigit := by
  have hdigits : isDigit ∘ asciiLower = isDigit := funext isDigit_asciiLower
  rw [List.takeWhile_map, hdigits, List.map_congr_left (g := id), List.map_id]
  intro b hb
  exact asciiLower_of_isDigit (List.mem_takeWhile_imp hb)

theorem dropWhile_asciiLower (t : Text) :
    (t.map asciiLower).dropWhile isDigit = (t.dropWhile isDigit).map asciiLower := by
  have hdigits : isDigit ∘ asciiLower = isDigit := funext isDigit_asciiLower
  rw [List.dropWhile_map, hdigits]

theorem readSign_cons (b : UInt8) (t : Text) :
    readSign (b :: t) = if b = 45 then (true, t) else if b = 43 then (false, t)
      else (false, b :: t) := by
  split_ifs with hminus hplus
  · rw [hminus]
    rfl
  · rw [hplus]
    rfl
  · unfold readSign
    split
    next heq => exact absurd (List.cons.inj heq).1 hminus
    next heq => exact absurd (List.cons.inj heq).1 hplus
    next => rfl

theorem readSign_asciiLower (t : Text) :
    readSign (t.map asciiLower) = ((readSign t).1, (readSign t).2.map asciiLower) := by
  cases t with
  | nil => rfl
  | cons b t =>
    rw [List.map_cons, readSign_cons, readSign_cons]
    simp only [asciiLower_eq_iff (c := 45) (by decide), asciiLower_eq_iff (c := 43) (by decide)]
    split_ifs <;> rfl

theorem readMantissa_eq (t : Text) :
    readMantissa isDigit t =
      if (t.dropWhile isDigit).head? = some Text.point then
        ⟨t.takeWhile isDigit ++ (t.dropWhile isDigit).tail.takeWhile isDigit,
          ((t.dropWhile isDigit).tail.takeWhile isDigit).length,
          (t.dropWhile isDigit).tail.dropWhile isDigit⟩
      else ⟨t.takeWhile isDigit, 0, t.dropWhile isDigit⟩ := by
  unfold readMantissa
  split
  next rest hrest => simp [hrest, Text.point]
  next hrest =>
    rw [if_neg]
    intro hpoint
    obtain ⟨rest, heq⟩ := List.head?_eq_some_iff.mp hpoint
    exact hrest rest heq

theorem readMantissa_asciiLower (t : Text) :
    readMantissa isDigit (t.map asciiLower) =
      { readMantissa isDigit t with rest := (readMantissa isDigit t).rest.map asciiLower } := by
  have hpoint : ((t.dropWhile isDigit).map asciiLower).head? = some Text.point ↔
      (t.dropWhile isDigit).head? = some Text.point := by
    rw [List.head?_map]
    cases (t.dropWhile isDigit).head? with
    | none => rfl
    | some b => simp [asciiLower_eq_iff (c := Text.point) (by decide)]
  rw [readMantissa_eq, readMantissa_eq]
  simp only [takeWhile_asciiLower, dropWhile_asciiLower, ← List.map_tail, hpoint]
  split_ifs <;> rfl

theorem all_isDigit_asciiLower (t : Text) : (t.map asciiLower).all isDigit = t.all isDigit := by
  rw [List.all_map]
  exact congrArg _ (funext isDigit_asciiLower)

theorem readExponent?_asciiLower (t : Text) :
    readExponent? (t.map asciiLower) = readExponent? t := by
  unfold readExponent?
  rw [readSign_asciiLower]
  simp only [ne_eq, List.map_eq_nil_iff, all_isDigit_asciiLower]
  split
  next h =>
    have hsame : (readSign t).2.map asciiLower = (readSign t).2 := by
      rw [List.map_congr_left (g := id), List.map_id]
      intro b hb
      exact asciiLower_of_isDigit (List.all_eq_true.mp h.2 b hb)
    rw [hsame]
  next => rfl

theorem readDecimal?_asciiLower (t : Text) : readDecimal? (t.map asciiLower) = readDecimal? t := by
  unfold readDecimal?
  rw [readMantissa_asciiLower]
  dsimp only
  split_ifs with hdigits
  · rfl
  · cases (readMantissa isDigit t).rest with
    | nil => rfl
    | cons e rest =>
      have hmark : asciiLower e = 101 ∨ asciiLower e = 69 ↔ e = 101 ∨ e = 69 := by
        simp only [← UInt8.toNat_inj, toNat_asciiLower]
        change _ = 101 ∨ _ = 69 ↔ _ = 101 ∨ _ = 69
        split_ifs <;> omega
      simp only [List.map_cons, hmark, readExponent?_asciiLower]

theorem read_asciiLower (t : Text) : read (t.map asciiLower) = read t := by
  rw [read, read, readSign_asciiLower]
  simp only [readDecimal?_asciiLower]

end Number

namespace Parameter

theorem number?_of_not_mem (h : Text.comma ∉ t) : number? t = plainNumber? t := by
  rw [number?, List.map_congr_left (g := id), List.map_id]
  intro b hb
  rw [if_neg, id]
  rintro rfl
  exact h hb

theorem number?_shortest (hx : Number.isFinite x = true) :
    number? (Number.shortest x) = some x := by
  obtain ⟨hmarks, hdigit⟩ := Number.shortest_marks hx
  have hcomma : Text.comma ∉ Number.shortest x := fun h => absurd (hmarks _ h) (by decide)
  rw [number?_of_not_mem hcomma, plainNumber?, if_pos, Number.read_shortest hx]
  · rfl
  · rw [Bool.and_eq_true, List.all_eq_true, List.any_eq_true]
    exact ⟨hmarks, hdigit⟩

def numberMarks : List Nat := [43, 45, 46, 48, 49, 50, 51, 52, 53, 54, 55, 56, 57, 69, 101]

theorem mem_numberMarks (h : isNumberMark b = true) : b.toNat ∈ numberMarks := by
  simp only [isNumberMark, Bool.or_eq_true, decide_eq_true_eq, Number.isDigit_iff] at h
  obtain ((((h | rfl) | rfl) | rfl) | rfl) | rfl := h
  · simp only [numberMarks, List.mem_cons, List.not_mem_nil]
    omega
  all_goals decide

theorem isNumberMark_of_plainNumber? (h : plainNumber? t = some x) :
    ∀ b ∈ t, isNumberMark b = true := by
  unfold plainNumber? at h
  split_ifs at h with hmarks
  rw [Bool.and_eq_true, List.all_eq_true] at hmarks
  exact hmarks.1

theorem isNumberMark_asciiLower (h : isNumberMark b = true) :
    isNumberMark (Text.asciiLower b) = true := by
  simp only [isNumberMark, Number.isDigit_asciiLower, Bool.or_eq_true, decide_eq_true_eq] at h ⊢
  obtain ((((h | rfl) | rfl) | rfl) | rfl) | rfl := h
  · simp [h]
  all_goals decide

theorem plainNumber?_asciiLower (h : plainNumber? t = some x) :
    plainNumber? (t.map Text.asciiLower) = some x := by
  unfold plainNumber? at h ⊢
  split_ifs at h with hmarks
  rw [Bool.and_eq_true, List.all_eq_true, List.any_eq_true] at hmarks
  obtain ⟨hall, b, hb, hdigit⟩ := hmarks
  rw [if_pos, Number.read_asciiLower, h]
  rw [Bool.and_eq_true, List.all_eq_true, List.any_eq_true]
  constructor
  · intro c hc
    obtain ⟨a, ha, rfl⟩ := List.mem_map.mp hc
    exact isNumberMark_asciiLower (hall a ha)
  · exact ⟨_, List.mem_map_of_mem hb, by rw [Number.isDigit_asciiLower, hdigit]⟩

end Parameter

end Toolpath
