import Toolpath.Proofs.Symbols

/-!
# Upper case

The upper case of a letter is a letter, and the other characters that are changed stay far from the
blanks and from the marks of a statement. So a word in upper case begins with a letter if it did
before and has no new blanks at its ends; its upper case is the word itself.
-/

namespace Toolpath

namespace Letter

def cover (ranges : List (Nat × Nat)) (low high : Nat) : Bool :=
  ranges.any fun r => Nat.ble r.1 low && Nat.ble high r.2

def avoid (ranges : List (Nat × Nat)) (low high : Nat) : Bool :=
  ranges.all fun r => Nat.blt r.2 low || Nat.blt high r.1

theorem ranges_valid : (ranges.all fun r =>
    (Nat.blt r.2 0xD800 || Nat.ble 0xE000 r.1 && Nat.blt r.2 0x110000) &&
      (Nat.ble 128 r.1 || Nat.ble 65 r.1 && Nat.ble r.2 90 || Nat.ble 97 r.1 && Nat.ble r.2 122)) =
      true := by
  decide +kernel

end Letter

variable {n : Nat} {c : Char} {s : Case.Span} {b : UInt8} {w t : Text}

theorem toNat_ofNat (h : n < 0xD800 ∨ 0xE000 ≤ n ∧ n < 0x110000) : (Char.ofNat n).toNat = n := by
  have hvalid : n.isValidChar := by
    unfold Nat.isValidChar
    omega
  rw [Char.ofNat, dif_pos hvalid]
  rfl

theorem isAlpha_iff (c : Char) :
    c.isAlpha = true ↔ 65 ≤ c.toNat ∧ c.toNat ≤ 90 ∨ 97 ≤ c.toNat ∧ c.toNat ≤ 122 := by
  delta Char.isAlpha Char.isUpper Char.isLower
  simp only [Bool.or_eq_true, Bool.and_eq_true, decide_eq_true_eq, ge_iff_le,
    UInt32.le_iff_toNat_le]
  rfl

theorem isLetter_of_cover {low n high : Nat} (h : Letter.cover Letter.ranges low high = true)
    (hlow : low ≤ n) (hhigh : n ≤ high) : isLetter (Char.ofNat n) = true := by
  obtain ⟨r, hr, hcover⟩ := List.any_eq_true.mp h
  have hvalid := List.all_eq_true.mp Letter.ranges_valid r hr
  simp only [Bool.and_eq_true, Bool.or_eq_true, Nat.ble_eq, Nat.blt_eq] at hcover hvalid
  have hn : (Char.ofNat n).toNat = n := toNat_ofNat (by omega)
  unfold isLetter
  rw [hn]
  split_ifs with hascii
  · rw [isAlpha_iff, hn]
    omega
  · rw [List.any_eq_true]
    refine ⟨r, hr, ?_⟩
    simp only [Bool.and_eq_true, decide_eq_true_eq]
    omega

theorem isLetter_of_avoid {low high : Nat} (hascii : 128 ≤ c.toNat)
    (h : Letter.avoid Letter.ranges low high = true) (hlow : low ≤ c.toNat)
    (hhigh : c.toNat ≤ high) :
    isLetter c = false := by
  unfold isLetter
  rw [if_neg (by omega), List.any_eq_false]
  intro r hr
  have hapart := List.all_eq_true.mp h r hr
  simp only [Bool.or_eq_true, Nat.blt_eq] at hapart
  simp only [Bool.and_eq_true, decide_eq_true_eq]
  omega

namespace Case

theorem Span.le_of_holds (h : s.holds n = true) : s.first ≤ n ∧ n ≤ s.last := by
  simp only [Span.holds, Bool.and_eq_true, decide_eq_true_eq] at h
  exact h.1

def Span.image (s : Span) (n : Nat) : Nat := (n + s.shift).toNat

def Span.toLetters (s : Span) : Bool :=
  Letter.cover Letter.ranges (s.image s.first) (s.image s.last) ||
    (List.range (s.last - s.first + 1)).all fun k =>
      !s.holds (s.first + k) ||
        Letter.cover Letter.ranges (s.image (s.first + k)) (s.image (s.first + k))

def Span.offLetters (s : Span) : Bool :=
  Letter.avoid Letter.ranges s.first s.last && Nat.ble 128 (s.image s.first) &&
    Nat.blt (s.image s.last) 0xD800 && Nat.ble 128 s.first &&
    Text.blankCodes.all fun n => Nat.blt n (s.image s.first) || Nat.blt (s.image s.last) n

def Span.misses (s t : Span) : Bool :=
  Nat.blt (s.image s.last) t.first || Nat.blt t.last (s.image s.first) ||
    (List.range (s.last - s.first + 1)).all fun k =>
      !s.holds (s.first + k) || !t.holds (s.image (s.first + k))

theorem upperSpans_apart : (upperSpans.all fun s => upperSpans.all s.misses) = true := by
  decide +kernel

theorem Span.holds_image {s t : Span} (h : s.misses t = true) (hn : s.holds n = true) :
    t.holds (s.image n) = false := by
  have hbounds := Span.le_of_holds hn
  simp only [Span.misses, Bool.or_eq_true, Nat.blt_eq] at h
  obtain hapart | h := h
  · rw [Bool.eq_false_iff]
    intro himage
    have hinside := Span.le_of_holds himage
    unfold Span.image at hapart hinside
    omega
  · obtain ⟨k, rfl⟩ := Nat.exists_eq_add_of_le hbounds.1
    have hk := List.all_eq_true.mp h k (List.mem_range.mpr (by omega))
    rwa [hn, Bool.not_true, Bool.false_or, Bool.not_eq_true'] at hk

theorem upperSpans_sorted : (upperSpans.all fun s => s.toLetters || s.offLetters) = true := by
  decide +kernel

theorem Span.isLetter_image (h : s.toLetters = true) (hn : s.holds n = true) :
    isLetter (Char.ofNat (s.image n)) = true := by
  have hbounds := Span.le_of_holds hn
  rw [Span.toLetters, Bool.or_eq_true] at h
  obtain h | h := h
  · apply isLetter_of_cover h <;> unfold Span.image <;> omega
  · obtain ⟨k, rfl⟩ := Nat.exists_eq_add_of_le hbounds.1
    have hk := List.all_eq_true.mp h k (List.mem_range.mpr (by omega))
    rw [hn, Bool.not_true, Bool.false_or] at hk
    exact isLetter_of_cover hk le_rfl le_rfl

theorem Span.off_letters (h : s.offLetters = true) (hc : s.holds c.toNat = true) :
    isLetter c = false ∧ isBlank (Char.ofNat (s.image c.toNat)) = false ∧
      128 ≤ (Char.ofNat (s.image c.toNat)).toNat := by
  have hbounds := Span.le_of_holds hc
  simp only [Span.offLetters, Bool.and_eq_true, Nat.ble_eq, Nat.blt_eq] at h
  obtain ⟨⟨⟨⟨havoid, hascii⟩, hvalid⟩, hfirst⟩, hblank⟩ := h
  have hlow : s.image s.first ≤ s.image c.toNat := by unfold Span.image; omega
  have hhigh : s.image c.toNat ≤ s.image s.last := by unfold Span.image; omega
  have himage : (Char.ofNat (s.image c.toNat)).toNat = s.image c.toNat := toNat_ofNat (by omega)
  refine ⟨isLetter_of_avoid (by omega) havoid hbounds.1 hbounds.2, ?_, by omega⟩
  rw [Bool.eq_false_iff]
  intro hb
  obtain ⟨n, hn, heq⟩ := Text.mem_blankCodes hb
  have hcodes : ∀ n ∈ Text.blankCodes, n < 0xD800 := by decide
  have hnat := congrArg Char.toNat heq
  rw [himage, toNat_ofNat (.inl (hcodes n hn))] at hnat
  have hapart := List.all_eq_true.mp hblank n hn
  simp only [Bool.or_eq_true, Nat.blt_eq] at hapart
  omega

end Case

theorem upperChar_cases (c : Char) :
    upperChar c = c ∨ isLetter (upperChar c) = true ∨
      isLetter c = false ∧ isBlank (upperChar c) = false ∧ 128 ≤ (upperChar c).toNat := by
  unfold upperChar
  split_ifs with hascii
  · have hcodes : ∀ n < 128, (Char.ofNat n).toUpper = Char.ofNat n ∨
        isLetter (Char.ofNat n).toUpper = true := by decide
    have hc := hcodes c.toNat hascii
    rw [Char.ofNat_toNat] at hc
    exact hc.imp id .inl
  · unfold Case.shifted
    split
    next s hs =>
      have hholds : s.holds c.toNat = true := by simpa using List.find?_some hs
      have hmem := List.mem_of_find?_eq_some hs
      have hsorted := List.all_eq_true.mp Case.upperSpans_sorted s hmem
      rw [Bool.or_eq_true] at hsorted
      obtain hletters | hoff := hsorted
      · exact .inr (.inl (s.isLetter_image hletters hholds))
      · exact .inr (.inr (s.off_letters hoff hholds))
    next => exact .inl rfl

theorem upperChar_ofNat (h : ∀ s ∈ Case.upperSpans, s.holds n = false) :
    upperChar (Char.ofNat n) = Char.ofNat n := by
  by_cases hvalid : n.isValidChar
  · have hn : (Char.ofNat n).toNat = n := toNat_ofNat (by unfold Nat.isValidChar at hvalid; omega)
    unfold upperChar
    rw [hn]
    split_ifs with hascii
    · have hcodes : ∀ n < 128, (⟨97, 122, 1, -32⟩ : Case.Span).holds n = false →
          (Char.ofNat n).toUpper = Char.ofNat n := by decide
      exact hcodes n hascii (h _ List.mem_cons_self)
    · rw [Case.shifted, hn, List.find?_eq_none.mpr fun s hs => by simp [h s hs]]
  · rw [Char.ofNat, dif_neg hvalid]
    rfl

theorem upperChar_upperChar (c : Char) : upperChar (upperChar c) = upperChar c := by
  by_cases hascii : c.toNat < 128
  · have hcodes : ∀ n < 128, upperChar (upperChar (Char.ofNat n)) = upperChar (Char.ofNat n) := by
      decide
    rw [← Char.ofNat_toNat c]
    exact hcodes c.toNat hascii
  · have hshifted : upperChar c = Case.shifted Case.upperSpans c := if_neg hascii
    unfold Case.shifted at hshifted
    split at hshifted
    next s hs =>
      have hholds : s.holds c.toNat = true := by simpa using List.find?_some hs
      have hmisses := List.all_eq_true.mp Case.upperSpans_apart s (List.mem_of_find?_eq_some hs)
      rw [hshifted]
      exact upperChar_ofNat fun t ht =>
        Case.Span.holds_image (List.all_eq_true.mp hmisses t ht) hholds
    next => rw [hshifted, hshifted]

theorem isLetter_upperChar (h : isLetter c = true) : isLetter (upperChar c) = true := by
  obtain hsame | hletter | ⟨hnot, -⟩ := upperChar_cases c
  · rw [hsame, h]
  · exact hletter
  · rw [h] at hnot
    cases hnot

theorem isBlank_upperChar (h : isBlank c = false) : isBlank (upperChar c) = false := by
  obtain hsame | hletter | ⟨-, hblank, -⟩ := upperChar_cases c
  · rw [hsame, h]
  · rw [Bool.eq_false_iff]
    intro hblank
    rw [Text.isLetter_of_isBlank hblank] at hletter
    cases hletter
  · exact hblank

theorem eq_of_upperChar {c d : Char} (h : upperChar c = d) (hd : d.toNat < 128)
    (hletter : isLetter d = false) : c = d := by
  obtain hsame | hnew | ⟨-, -, hhigh⟩ := upperChar_cases c
  · rw [← hsame, h]
  · rw [h, hletter] at hnew
    cases hnew
  · rw [h] at hhigh
    omega

namespace Text

theorem symbols_upper (w : Text) :
    symbols w.upper = (symbols w).map fun r => .scalar (upperChar r.char) := by
  unfold upper
  induction symbols w with
  | nil => rfl
  | cons r rs ih => rw [List.flatMap_cons, ofChar, symbols_encodeChar, ih, List.map_cons]

theorem upper_upper (w : Text) : w.upper.upper = w.upper := by
  apply symbols_injective
  rw [symbols_upper, symbols_upper, List.map_map]
  apply List.map_congr_left
  intro r _
  exact congrArg Symbol.scalar (upperChar_upperChar r.char)

theorem bytes_low (hb : b.toNat < 128) : Symbol.bytes (.scalar (Char.ofNat b.toNat)) = [b] := by
  have hvalid : b.toNat.isValidChar := .inl (by omega)
  rw [Symbol.bytes, encodeChar_ofNat hvalid, if_pos (by omega), octet_eq rfl]

theorem eq_scalar_of_upperChar (hb : b.toNat < 128)
    (hletter : isLetter (Char.ofNat b.toNat) = false) {r : Symbol}
    (h : upperChar r.char = Char.ofNat b.toNat) : r = .scalar (Char.ofNat b.toNat) := by
  have hnat : (Char.ofNat b.toNat).toNat = b.toNat := toNat_ofNat (.inl (by omega))
  have hchar : r.char = Char.ofNat b.toNat := eq_of_upperChar h (hnat.trans_lt hb) hletter
  cases r with
  | scalar c => exact congrArg Symbol.scalar hchar
  | stray a =>
    have hreplacement : (Symbol.stray a).char.toNat = 0xFFFD := rfl
    rw [hchar, hnat] at hreplacement
    omega

theorem not_mem_upper (hb : b.toNat < 128)
    (hletter : isLetter (Char.ofNat b.toNat) = false) (h : b ∉ w) : b ∉ w.upper := by
  intro hmem
  have hsymbol := scalar_mem_symbols hb hmem
  rw [symbols_upper] at hsymbol
  obtain ⟨r, hr, heq⟩ := List.mem_map.mp hsymbol
  obtain rfl := eq_scalar_of_upperChar hb hletter (Symbol.scalar.inj heq)
  apply h
  rw [← ofSymbols_symbols w]
  exact List.mem_flatMap.mpr ⟨_, hr, by simp [bytes_low hb]⟩

theorem getLast?_of_upper (hb : b.toNat < 128)
    (hletter : isLetter (Char.ofNat b.toNat) = false) (h : w.upper.getLast? = some b) :
    w.getLast? = some b := by
  obtain ⟨s, hs⟩ := List.getLast?_eq_some_iff.mp h
  have hsymbols := symbols_upper w
  rw [hs, symbols_append (begins_low hb []), symbols_low hb, symbols_nil] at hsymbols
  obtain ⟨rs, rs', hrs, -, hlast⟩ := List.map_eq_append_iff.mp hsymbols.symm
  obtain ⟨r, hr, heq⟩ := List.map_eq_singleton_iff.mp hlast
  obtain rfl := eq_scalar_of_upperChar hb hletter (Symbol.scalar.inj heq)
  rw [← ofSymbols_symbols w, hrs, hr, ofSymbols_append]
  simp [ofSymbols, bytes_low hb]

theorem lower_low (h : ∀ b ∈ t, b.toNat < 128) : t.lower = t.map asciiLower := by
  have hcodes : ∀ n < 128, ofChar (lowerChar (Char.ofNat n)) = [asciiLower (UInt8.ofNat n)] := by
    decide +kernel
  unfold lower
  induction t with
  | nil => rfl
  | cons b t ih =>
    have hb := h b (List.mem_cons_self ..)
    rw [symbols_low hb, List.flatMap_cons, ih fun c hc => h c (List.mem_cons_of_mem _ hc),
      Symbol.char, hcodes b.toNat hb, UInt8.ofNat_toNat]
    rfl

theorem upper_ne_nil (h : w ≠ []) : w.upper ≠ [] := by
  intro hnil
  apply h
  rw [← symbols_eq_nil] at hnil ⊢
  rw [symbols_upper] at hnil
  exact List.map_eq_nil_iff.mp hnil

theorem dropWhile_eq_self_iff {rs : List Symbol} {p : Symbol → Bool} :
    rs.dropWhile p = rs ↔ ∀ r, rs.head? = some r → p r = false := by
  cases rs with
  | nil => simp
  | cons r rs => simp [List.dropWhile_eq_self_iff]

theorem trimRight_eq_self_iff :
    t.trimRight = t ↔ ∀ r, (symbols t).getLast? = some r → symbolIsBlank r = false := by
  rw [← List.head?_reverse, ← dropWhile_eq_self_iff, ← List.reverse_eq_iff, ← List.rdropWhile,
    ← symbols_trimRight]
  exact ⟨congrArg symbols, fun h => symbols_injective h⟩

theorem trim_eq_self_iff :
    t.trim = t ↔ (∀ r, (symbols t).head? = some r → symbolIsBlank r = false) ∧
      ∀ r, (symbols t).getLast? = some r → symbolIsBlank r = false := by
  rw [← dropWhile_eq_self_iff, ← trimRight_eq_self_iff]
  constructor
  · intro h
    have hsymbols := congrArg symbols h
    have hprefix := List.rdropWhile_prefix symbolIsBlank (symbols t)
    rw [← symbols_trimRight] at hprefix
    rw [trim, symbols_trimLeft] at hsymbols
    have hlength := congrArg List.length hsymbols
    have hdrop := (List.dropWhile_sublist symbolIsBlank (l := symbols t.trimRight)).length_le
    have hwhole := hprefix.eq_of_length (le_antisymm hprefix.length_le (by omega))
    rw [hwhole] at hsymbols
    exact ⟨hsymbols, symbols_injective hwhole⟩
  · rintro ⟨hleft, hright⟩
    apply symbols_injective
    rw [trim, hright, symbols_trimLeft, hleft]

theorem trimRight_of_trim (h : t.trim = t) : t.trimRight = t :=
  trimRight_eq_self_iff.mpr (trim_eq_self_iff.mp h).2

theorem trim_of_low
    (hhead : ∀ b, t.head? = some b → b.toNat < 128 ∧ isBlank (Char.ofNat b.toNat) = false)
    (hlast : ∀ b, t.getLast? = some b → b.toNat < 128 ∧ isBlank (Char.ofNat b.toNat) = false) :
    t.trim = t := by
  rw [trim_eq_self_iff]
  constructor
  · intro r hr
    cases t with
    | nil => cases hr
    | cons b t =>
      obtain ⟨hb, hblank⟩ := hhead b rfl
      rw [symbols_low hb] at hr
      cases hr
      exact hblank
  · intro r hr
    cases hb : t.getLast? with
    | none =>
      rw [List.getLast?_eq_none_iff.mp hb] at hr
      cases hr
    | some b =>
      obtain ⟨hlow, hblank⟩ := hlast b hb
      obtain ⟨s, rfl⟩ := List.getLast?_eq_some_iff.mp hb
      rw [symbols_append (begins_low hlow []), symbols_low hlow, symbols_nil,
        List.getLast?_concat] at hr
      cases hr
      exact hblank

theorem not_isAllBlank (h : t.trimRight = t) (hne : t ≠ []) : t.isAllBlank = false := by
  rw [Bool.eq_false_iff]
  intro hblank
  have hnil := trimRight_append [] hblank
  rw [List.nil_append, h] at hnil
  exact hne hnil

theorem trim_upper (h : w.trim = w) : w.upper.trim = w.upper := by
  rw [trim_eq_self_iff] at h ⊢
  rw [symbols_upper]
  constructor
  · intro r hr
    rw [List.head?_map] at hr
    obtain ⟨q, hq, rfl⟩ := Option.map_eq_some_iff.mp hr
    exact isBlank_upperChar (h.1 q hq)
  · intro r hr
    rw [List.getLast?_map] at hr
    obtain ⟨q, hq, rfl⟩ := Option.map_eq_some_iff.mp hr
    exact isBlank_upperChar (h.2 q hq)

end Text

end Toolpath
