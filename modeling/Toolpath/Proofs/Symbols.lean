import Mathlib.Data.List.DropRight
import Toolpath.Proofs.Utf8Texts
import Toolpath.Text.Letter

/-!
# Symbols of a text

The octets of the symbols of a text are the text, and the symbols of two texts in a row are those
of the first and then those of the second, unless the second begins with an octet that could
complete a character of the first. Blanks are whole characters.
-/

namespace Toolpath.Text

theorem encodeChar_ofNat {n : Nat} (h : n.isValidChar) :
    String.utf8EncodeChar (Char.ofNat n) =
      if n ≤ 127 then [UInt8.ofNat n]
      else if n ≤ 2047 then [UInt8.ofNat (n / 64 % 32 + 192), UInt8.ofNat (n % 64 + 128)]
      else if n ≤ 65535 then
        [UInt8.ofNat (n / 4096 % 16 + 224), UInt8.ofNat (n / 64 % 64 + 128),
          UInt8.ofNat (n % 64 + 128)]
      else [UInt8.ofNat (n / 262144 % 8 + 240), UInt8.ofNat (n / 4096 % 64 + 128),
        UInt8.ofNat (n / 64 % 64 + 128), UInt8.ofNat (n % 64 + 128)] := by
  have hn : (Char.ofNat n).val.toNat = n := by
    rw [Char.ofNat, dif_pos h]
    rfl
  rw [String.utf8EncodeChar, hn]

variable {b a : UInt8} {u t s w : Text}

theorem octet_eq {n : Nat} (h : n = b.toNat) : UInt8.ofNat n = b := by
  rw [h, UInt8.ofNat_toNat]

theorem Spelled.symbol (h : Spelled a u) :
    ∃ c : Char, String.utf8EncodeChar c = a :: u ∧ ∀ t, firstSymbol a (u ++ t) = .scalar c := by
  have hvalid : ∀ {n : Nat}, n < 0xD800 ∨ 0xDFFF < n ∧ n < 0x110000 → n.isValidChar := id
  cases h with
  | one ha =>
    have hlow := announced_one.mp ha
    refine ⟨Char.ofNat a.toNat, ?_, fun t => by unfold firstSymbol; simp only [ha]⟩
    rw [encodeChar_ofNat (hvalid (by omega)), if_pos (by omega), octet_eq rfl]
  | @two b ha hb =>
    have hlead := announced_two.mp ha
    have hsecond := (isSecond_iff _ _).mp hb
    refine ⟨Char.ofNat (a.toNat % 32 * 64 + trailBits b), ?_, fun t => ?_⟩
    · unfold trailBits
      rw [encodeChar_ofNat (hvalid (by omega)), if_neg (by omega), if_pos (by omega),
        octet_eq (b := a) (by omega), octet_eq (b := b) (by omega)]
    · unfold firstSymbol
      simp only [ha, List.cons_append, List.nil_append]
      rw [if_pos hb]
  | @three b c ha hb hc =>
    have hlead := announced_three.mp ha
    have hsecond := (isSecond_iff _ _).mp hb
    have hthird := (isTrail_iff _).mp hc
    refine ⟨Char.ofNat (a.toNat % 16 * 4096 + trailBits b * 64 + trailBits c), ?_, fun t => ?_⟩
    · unfold trailBits
      rw [encodeChar_ofNat (hvalid (by omega)), if_neg (by omega), if_neg (by omega),
        if_pos (by omega), octet_eq (b := a) (by omega), octet_eq (b := b) (by omega),
        octet_eq (b := c) (by omega)]
    · unfold firstSymbol
      simp only [ha, List.cons_append, List.nil_append]
      rw [if_pos (by simp [hb, hc])]
  | @four b c d ha hb hc hd =>
    have hlead := announced_four.mp ha
    have hsecond := (isSecond_iff _ _).mp hb
    have hthird := (isTrail_iff _).mp hc
    have hfourth := (isTrail_iff _).mp hd
    refine ⟨Char.ofNat (a.toNat % 8 * 262144 + trailBits b * 4096 + trailBits c * 64 + trailBits d),
      ?_, fun t => ?_⟩
    · unfold trailBits
      rw [encodeChar_ofNat (hvalid (by omega)), if_neg (by omega), if_neg (by omega),
        if_neg (by omega), octet_eq (b := a) (by omega), octet_eq (b := b) (by omega),
        octet_eq (b := c) (by omega), octet_eq (b := d) (by omega)]
    · unfold firstSymbol
      simp only [ha, List.cons_append, List.nil_append]
      rw [if_pos (by simp [hb, hc, hd])]

@[simp] theorem symbols_nil : symbols [] = [] := rfl

theorem symbols_spelled (h : Spelled a u) :
    ∃ c : Char, String.utf8EncodeChar c = a :: u ∧
      ∀ t, symbols (a :: (u ++ t)) = .scalar c :: symbols t := by
  obtain ⟨c, hc, hfirst⟩ := h.symbol
  refine ⟨c, hc, fun t => ?_⟩
  rw [symbols_cons, (firstSymbol_of_spelled h t).2, hfirst]
  simp

theorem symbols_low (ha : a.toNat < 128) (t : Text) :
    symbols (a :: t) = .scalar (Char.ofNat a.toNat) :: symbols t := by
  have h1 : announced a = 1 := announced_one.mpr ha
  have hfirst : firstSymbol a t = .scalar (Char.ofNat a.toNat) := by
    unfold firstSymbol
    simp only [h1]
  have hwidth := (firstSymbol_of_spelled (.one h1) t).2
  rw [List.nil_append] at hwidth
  rw [symbols_cons, hwidth, hfirst]
  rfl

theorem encodeChar_injective {c d : Char} (h : String.utf8EncodeChar c = String.utf8EncodeChar d) :
    c = d := by
  have hc := ByteArray.utf8DecodeChar?_utf8EncodeChar_append (b := .empty) (c := c)
  rw [h, ByteArray.utf8DecodeChar?_utf8EncodeChar_append] at hc
  exact (Option.some.inj hc).symm

theorem symbols_encodeChar (c : Char) (t : Text) :
    symbols (String.utf8EncodeChar c ++ t) = .scalar c :: symbols t := by
  obtain ⟨a, u, hc, hu⟩ := spelled_encodeChar c
  obtain ⟨d, hd, hsymbols⟩ := symbols_spelled hu
  rw [hc, List.cons_append, hsymbols, encodeChar_injective (hc.trans hd.symm)]

theorem firstSymbol_stray (h : (firstSymbol a t).isStray = true) : firstSymbol a t = .stray a := by
  unfold firstSymbol at h ⊢
  split at h <;> first | rfl | (split at h <;> simp_all [Symbol.isStray]) | cases h

theorem ofSymbols_cons (r : Symbol) (rs : List Symbol) :
    ofSymbols (r :: rs) = r.bytes ++ ofSymbols rs := List.flatMap_cons

theorem ofSymbols_append (rs qs : List Symbol) :
    ofSymbols (rs ++ qs) = ofSymbols rs ++ ofSymbols qs := List.flatMap_append

theorem symbols_cases (a : UInt8) (t : Text) :
    (∃ u r, t = u ++ r ∧ Spelled a u) ∨
      firstSymbol a t = .stray a ∧ symbols (a :: t) = .stray a :: symbols t := by
  cases h : (firstSymbol a t).isStray with
  | false => exact .inl (spelled_of_firstSymbol h)
  | true =>
    have hstray := firstSymbol_stray h
    refine .inr ⟨hstray, ?_⟩
    rw [symbols_cons, hstray]
    rfl

theorem ofSymbols_symbols (t : Text) : ofSymbols (symbols t) = t := by
  induction hn : t.length using Nat.strongRecOn generalizing t with
  | ind n ih =>
    cases t with
    | nil => rfl
    | cons a t =>
      rw [List.length_cons] at hn
      obtain ⟨u, r, rfl, hu⟩ | ⟨-, hstray⟩ := symbols_cases a t
      · obtain ⟨c, hc, hsymbols⟩ := symbols_spelled hu
        rw [List.length_append] at hn
        rw [hsymbols, ofSymbols_cons, ih r.length (by omega) r rfl, Symbol.bytes, hc]
        rfl
      · rw [hstray, ofSymbols_cons, ih t.length (by omega) t rfl]
        rfl

theorem symbols_injective (h : symbols s = symbols t) : s = t := by
  rw [← ofSymbols_symbols s, h, ofSymbols_symbols]

theorem symbols_eq_nil : symbols t = [] ↔ t = [] :=
  ⟨fun h => symbols_injective h, fun h => h ▸ rfl⟩

def Begins (t : Text) : Prop := ∀ b, t.head? = some b → isTrail b = false

theorem begins_nil : Begins [] := fun _ h => by cases h

theorem begins_low (hb : b.toNat < 128) (t : Text) : Begins (b :: t) := by
  rintro _ ⟨⟩
  rw [Bool.eq_false_iff, Ne, isTrail_iff]
  omega

theorem Utf8.begins (h : Utf8 t) : Begins t := by
  cases h with
  | nil => exact begins_nil
  | @cons a u r hu _ =>
    rintro _ ⟨⟩
    have hlead : announced a ≠ 0 := by rw [hu.length]; omega
    rw [Bool.eq_false_iff, Ne, isTrail_iff]
    rintro ⟨h₁, h₂⟩
    apply hlead
    grind [announced, UInt8.lt_iff_toNat_lt]

theorem Spelled.trail (h : Spelled a u) : ∀ b ∈ u, isTrail b = true := by
  have hsecond : ∀ {b}, isSecond a b = true → isTrail b = true := fun hb =>
    (isTrail_iff _).mpr ⟨((isSecond_iff _ _).mp hb).1, ((isSecond_iff _ _).mp hb).2.1⟩
  cases h with
  | one => simp
  | two _ hb => simp [hsecond hb]
  | three _ hb hc => simp [hsecond hb, hc]
  | four _ hb hc hd => simp [hsecond hb, hc, hd]

theorem symbols_append_utf8 (hs : Utf8 s) (t : Text) :
    symbols (s ++ t) = symbols s ++ symbols t := by
  induction hs with
  | nil => rfl
  | @cons a u r hu _ ih =>
    obtain ⟨c, -, hsymbols⟩ := symbols_spelled hu
    rw [List.cons_append, List.append_assoc, hsymbols, hsymbols, ih, List.cons_append]

theorem symbols_append (ht : Begins t) (s : Text) : symbols (s ++ t) = symbols s ++ symbols t := by
  induction hn : s.length using Nat.strongRecOn generalizing s with
  | ind n ih =>
    cases s with
    | nil => rfl
    | cons a s =>
      rw [List.length_cons] at hn
      rw [List.cons_append]
      obtain ⟨u, r, rfl, hu⟩ | ⟨hstray, hsymbols⟩ := symbols_cases a s
      · obtain ⟨c, -, hspelled⟩ := symbols_spelled hu
        rw [List.length_append] at hn
        rw [List.append_assoc, hspelled, hspelled, ih r.length (by omega) r rfl, List.cons_append]
      · obtain ⟨u, r, hcut, hu⟩ | ⟨-, hsymbols'⟩ := symbols_cases a (s ++ t)
        · -- the character would end in `s`, where it is not read, or reach into `t`
          obtain ⟨v, rfl, hv⟩ | ⟨v, rfl, hv⟩ := List.append_eq_append_iff.mp hcut
          · cases v with
            | nil =>
              rw [List.append_nil] at hu
              have := (firstSymbol_of_spelled hu []).1
              rw [List.append_nil, hstray] at this
              cases this
            | cons b v =>
              have hb := hu.trail b (by simp)
              rw [ht b (by rw [hv]; rfl)] at hb
              cases hb
          · have := (firstSymbol_of_spelled hu v).1
            rw [hstray] at this
            cases this
        · rw [hsymbols', hsymbols, ih s.length (by omega) s rfl, List.cons_append]

theorem stray_not_blank (b : UInt8) : symbolIsBlank (.stray b) = false := by
  change isBlank Symbol.replacement = false
  decide

theorem mem_blank (hw : w.isAllBlank = true) : ∀ r ∈ symbols w, symbolIsBlank r = true :=
  List.all_eq_true.mp hw

theorem utf8_of_blank (hw : w.isAllBlank = true) : Utf8 w := by
  rw [← isUtf8_iff, isUtf8, List.all_eq_true]
  intro r hr
  cases r with
  | scalar => rfl
  | stray b => rw [← mem_blank hw _ hr, stray_not_blank]; rfl

theorem isAllBlank_append {v w : Text} (hv : v.isAllBlank = true) (hw : w.isAllBlank = true) :
    (v ++ w).isAllBlank = true := by
  rw [isAllBlank, symbols_append_utf8 (utf8_of_blank hv), List.all_append]
  exact Bool.and_eq_true_iff.mpr ⟨hv, hw⟩

theorem scalar_mem_symbols (hb : b.toNat < 128) (hmem : b ∈ t) :
    .scalar (Char.ofNat b.toNat) ∈ symbols t := by
  obtain ⟨s, u, rfl⟩ := List.append_of_mem hmem
  rw [symbols_append (begins_low hb u), symbols_low hb]
  simp

theorem isBlank_of_mem (hw : w.isAllBlank = true) (hb : b.toNat < 128)
    (hmem : b ∈ w) : isBlank (Char.ofNat b.toNat) = true :=
  mem_blank hw (.scalar (Char.ofNat b.toNat)) (scalar_mem_symbols hb hmem)

theorem not_mem_blank (hw : w.isAllBlank = true) (hb : b.toNat < 128)
    (h : isBlank (Char.ofNat b.toNat) = false) : b ∉ w := fun hmem => by
  rw [isBlank_of_mem hw hb hmem] at h
  cases h

theorem symbols_ofSymbols_blank {rs : List Symbol} (h : ∀ r ∈ rs, symbolIsBlank r = true) :
    symbols (ofSymbols rs) = rs := by
  induction rs with
  | nil => rfl
  | cons r rs ih =>
    cases r with
    | scalar c =>
      rw [ofSymbols_cons, Symbol.bytes, symbols_encodeChar,
        ih fun q hq => h q (List.mem_cons_of_mem _ hq)]
    | stray b =>
      have hb := h _ (List.mem_cons_self ..)
      rw [stray_not_blank] at hb
      cases hb

theorem isAllBlank_ofSymbols {rs : List Symbol} (h : ∀ r ∈ rs, symbolIsBlank r = true) :
    (ofSymbols rs).isAllBlank = true := by
  rw [isAllBlank, symbols_ofSymbols_blank h]
  exact List.all_eq_true.mpr h

theorem symbols_behind_blanks {ws rs : List Symbol} (h : symbols t = ws ++ rs)
    (hws : ∀ r ∈ ws, symbolIsBlank r = true) : symbols (ofSymbols rs) = rs := by
  have ht := h
  rw [← ofSymbols_symbols t, h, ofSymbols_append,
    symbols_append_utf8 (utf8_of_blank (isAllBlank_ofSymbols hws)),
    symbols_ofSymbols_blank hws] at ht
  exact List.append_cancel_left ht

theorem symbols_before_blanks {ws rs : List Symbol} (h : symbols t = rs ++ ws)
    (hws : ∀ r ∈ ws, symbolIsBlank r = true) : symbols (ofSymbols rs) = rs := by
  have ht := h
  rw [← ofSymbols_symbols t, h, ofSymbols_append,
    symbols_append (utf8_of_blank (isAllBlank_ofSymbols hws)).begins,
    symbols_ofSymbols_blank hws] at ht
  exact List.append_cancel_right ht

theorem symbols_trimLeft (t : Text) : symbols t.trimLeft = (symbols t).dropWhile symbolIsBlank :=
  symbols_behind_blanks List.takeWhile_append_dropWhile.symm fun _ hr => List.mem_takeWhile_imp hr

theorem symbols_trimRight (t : Text) : symbols t.trimRight = (symbols t).rdropWhile symbolIsBlank :=
  symbols_before_blanks List.rdropWhile_append_rtakeWhile.symm
    fun _ hr => List.mem_rtakeWhile_imp hr

theorem symbols_trim (t : Text) :
    symbols t.trim = ((symbols t).rdropWhile symbolIsBlank).dropWhile symbolIsBlank := by
  rw [trim, symbols_trimLeft, symbols_trimRight]

theorem trimRight_append (t : Text) (hw : w.isAllBlank = true) :
    (t ++ w).trimRight = t.trimRight := by
  have hdrop : (symbols w).reverse.dropWhile symbolIsBlank = [] :=
    List.dropWhile_eq_nil_iff.mpr fun r hr => mem_blank hw r (List.mem_reverse.mp hr)
  apply symbols_injective
  rw [symbols_trimRight, symbols_trimRight, symbols_append (utf8_of_blank hw).begins,
    List.rdropWhile, List.reverse_append, List.dropWhile_append, hdrop]
  rfl

theorem trim_append (t : Text) (hw : w.isAllBlank = true) : (t ++ w).trim = t.trim := by
  rw [trim, trimRight_append t hw, trim]

theorem append_trim (hw : w.isAllBlank = true) (t : Text) : (w ++ t).trim = t.trim := by
  have hdrop : ∀ rs, (symbols w ++ rs).dropWhile symbolIsBlank = rs.dropWhile symbolIsBlank := by
    intro rs
    rw [List.dropWhile_append, List.dropWhile_eq_nil_iff.mpr (mem_blank hw)]
    rfl
  apply symbols_injective
  rw [symbols_trim, symbols_trim, symbols_append_utf8 (utf8_of_blank hw), List.rdropWhile,
    List.reverse_append, List.dropWhile_append]
  split
  next h =>
    -- nothing but blanks
    rw [List.rdropWhile, List.isEmpty_iff.mp h]
    apply List.dropWhile_eq_nil_iff.mpr
    intro r hr
    apply mem_blank hw
    exact List.mem_reverse.mp ((List.dropWhile_sublist _).subset (List.mem_reverse.mp hr))
  next => rw [List.reverse_append, List.reverse_reverse, hdrop, List.rdropWhile]

/-- A text behind which symbols are read as at the beginning of a text. -/
def Whole (s : Text) : Prop := ∀ t, symbols (s ++ t) = symbols s ++ symbols t

theorem Utf8.whole (hs : Utf8 s) : Whole s := symbols_append_utf8 hs

theorem whole_concat (hb : b.toNat < 128) (s : Text) : Whole (s ++ [b]) := by
  intro t
  rw [List.append_assoc, List.singleton_append, symbols_append (begins_low hb t), symbols_low hb,
    symbols_append (begins_low hb []), symbols_low hb, List.append_assoc]
  rfl

theorem trimRight_concat (hb : b.toNat < 128)
    (hblank : isBlank (Char.ofNat b.toNat) = false) (s : Text) :
    (s ++ [b]).trimRight = s ++ [b] := by
  apply symbols_injective
  rw [symbols_trimRight, symbols_append (begins_low hb []), symbols_low hb, symbols_nil]
  apply List.rdropWhile_concat_neg
  simp [symbolIsBlank, Symbol.char, hblank]

theorem Whole.trimRight (hs : Whole s) (ht : t.isAllBlank = false) :
    (s ++ t).trimRight = s ++ t.trimRight := by
  have hdrop : ((symbols t).reverse.dropWhile symbolIsBlank).isEmpty = false := by
    rw [Bool.eq_false_iff, Ne, List.isEmpty_iff, List.dropWhile_eq_nil_iff]
    intro hall
    rw [isAllBlank, List.all_eq_true.mpr fun r hr => hall r (List.mem_reverse.mpr hr)] at ht
    cases ht
  apply symbols_injective
  rw [symbols_trimRight, hs, hs, symbols_trimRight, List.rdropWhile, List.reverse_append,
    List.dropWhile_append, hdrop, if_neg (by simp), List.reverse_append, List.reverse_reverse,
    List.rdropWhile]

theorem trimRight_spec (t : Text) : ∃ w, w.isAllBlank = true ∧ t = t.trimRight ++ w := by
  refine ⟨ofSymbols ((symbols t).rtakeWhile symbolIsBlank),
    isAllBlank_ofSymbols fun _ hr => List.mem_rtakeWhile_imp hr, ?_⟩
  conv_lhs => rw [← ofSymbols_symbols t,
    ← List.rdropWhile_append_rtakeWhile (p := symbolIsBlank) (l := symbols t), ofSymbols_append]
  rfl

theorem trimLeft_spec (t : Text) : ∃ w, w.isAllBlank = true ∧ t = w ++ t.trimLeft := by
  refine ⟨ofSymbols ((symbols t).takeWhile symbolIsBlank),
    isAllBlank_ofSymbols fun _ hr => List.mem_takeWhile_imp hr, ?_⟩
  conv_lhs => rw [← ofSymbols_symbols t,
    ← List.takeWhile_append_dropWhile (p := symbolIsBlank) (l := symbols t), ofSymbols_append]
  rfl

theorem trim_trimRight (t : Text) : t.trimRight.trim = t.trim := by
  obtain ⟨w, hw, ht⟩ := trimRight_spec t
  nth_rewrite 2 [ht]
  rw [trim_append _ hw]

theorem trim_trim (t : Text) : t.trim.trim = t.trim := by
  obtain ⟨w, hw, ht⟩ : ∃ w, w.isAllBlank = true ∧ t.trimRight = w ++ t.trim := trimLeft_spec _
  rw [← append_trim hw t.trim, ← ht, trim_trimRight]

theorem trim_eq_nil : t.trim = [] ↔ t.isAllBlank = true := by
  rw [← symbols_eq_nil, symbols_trim, isAllBlank, List.all_eq_true]
  constructor
  · intro h
    have hleft := List.dropWhile_eq_nil_iff.mp h
    by_contra hne
    have hlast := List.rdropWhile_last_not symbolIsBlank (symbols t)
      fun hnil => hne (List.rdropWhile_eq_nil_iff.mp hnil)
    exact hlast (hleft _ (List.getLast_mem _))
  · intro h
    rw [List.rdropWhile_eq_nil_iff.mpr h]
    rfl

theorem head?_trim {r : Symbol} (h : (symbols t).head? = some r)
    (hr : symbolIsBlank r = false) : (symbols t.trim).head? = some r := by
  rw [symbols_trim]
  cases hs : symbols t with
  | nil => simp [hs] at h
  | cons q rs =>
    obtain rfl : q = r := by simpa [hs] using h
    have hkeep : (q :: rs).rdropWhile symbolIsBlank = q :: rs.rdropWhile symbolIsBlank := by
      simp [List.rdropWhile, List.dropWhile_append, hr]
    rw [hkeep, List.dropWhile_cons_of_neg (by simp [hr])]
    rfl

theorem lower_ne_nil (h : t ≠ []) : t.lower ≠ [] := by
  cases hs : symbols t with
  | nil => exact absurd (symbols_eq_nil.mp hs) h
  | cons r rs =>
    obtain ⟨a, u, hc, -⟩ := spelled_encodeChar (lowerChar r.char)
    simp [lower, hs, ofChar, hc]

def blankCodes : List Nat :=
  [9, 10, 11, 12, 13, 0x20, 0x85, 0xA0, 0x1680, 0x2000, 0x2001, 0x2002, 0x2003, 0x2004, 0x2005,
    0x2006, 0x2007, 0x2008, 0x2009, 0x200A, 0x2028, 0x2029, 0x202F, 0x205F, 0x3000]

theorem mem_blankCodes {c : Char} (h : isBlank c = true) : ∃ n ∈ blankCodes, c = Char.ofNat n := by
  refine ⟨c.toNat, ?_, (Char.ofNat_toNat c).symm⟩
  simp only [isBlank, Bool.or_eq_true, Bool.and_eq_true, decide_eq_true_eq, beq_iff_eq] at h
  simp only [blankCodes, List.mem_cons, List.not_mem_nil]
  omega

theorem isLetter_of_isBlank {c : Char} (h : isBlank c = true) : isLetter c = false := by
  obtain ⟨n, hn, rfl⟩ := mem_blankCodes h
  have hcodes : ∀ n ∈ blankCodes, isLetter (Char.ofNat n) = false := by decide +kernel
  exact hcodes n hn

end Toolpath.Text
