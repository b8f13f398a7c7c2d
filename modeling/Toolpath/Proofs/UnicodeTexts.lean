import Toolpath.Charset.Detect
import Toolpath.Proofs.LetterCase

/-!
# Unicode texts are read as they are

A sample of a well formed UTF-8 text may end inside a character. Only the beginning of that
character is taken off its end, so no such text is taken for one in a code page. A text in UTF-16
is decoded to the characters that it was made of.
-/

namespace Toolpath

variable {a : UInt8} {u t : Text}

namespace Text

theorem ofString_eq_flatMap (s : String) : ofString s = s.toList.flatMap String.utf8EncodeChar := by
  have h : s.toByteArray = s.toList.utf8Encode := by
    rw [← String.toByteArray_ofList, String.ofList_toList]
  simp [ofString, String.toUTF8, h, List.utf8Encode]

theorem utf8_ofString (s : String) : Utf8 (ofString s) := by
  rw [ofString_eq_flatMap]
  exact .flatMap fun c _ => .encodeChar c

theorem symbols_ofString (s : String) : symbols (ofString s) = s.toList.map .scalar := by
  rw [ofString_eq_flatMap]
  induction s.toList with
  | nil => rfl
  | cons c cs ih => rw [List.flatMap_cons, symbols_encodeChar, ih, List.map_cons]

theorem Spelled.lead (h : Spelled a u) : a.toNat < 128 ∨ 194 ≤ a.toNat ∧ a.toNat < 245 := by
  cases h with
  | one ha => exact .inl (announced_one.mp ha)
  | two ha => have := announced_two.mp ha; omega
  | three ha => have := announced_three.mp ha; omega
  | four ha => have := announced_four.mp ha; omega

theorem Spelled.trails (h : Spelled a u) : ∀ b ∈ u, 128 ≤ b.toNat ∧ b.toNat ≤ 191 := by
  cases h with
  | one => simp
  | two _ hb => simpa using ⟨((isSecond_iff _ _).mp hb).1, ((isSecond_iff _ _).mp hb).2.1⟩
  | three _ hb hc =>
    have := (isSecond_iff _ _).mp hb
    have := (isTrail_iff _).mp hc
    simp
    omega
  | four _ hb hc hd =>
    have := (isSecond_iff _ _).mp hb
    have := (isTrail_iff _).mp hc
    have := (isTrail_iff _).mp hd
    simp
    omega

theorem Spelled.isFull (h : Spelled a u) : isFullSymbol (a :: u) = true := by
  unfold isFullSymbol
  dsimp only
  rw [h.length]
  cases h <;> rfl

theorem Spelled.not_isFull {u v w : Text} (h : Spelled a u) (hu : u = v ++ w)
    (hw : w ≠ []) : isFullSymbol (a :: v) = false := by
  unfold isFullSymbol
  dsimp only
  cases h with
  | one => exact absurd (List.append_eq_nil_iff.mp hu.symm).2 hw
  | two ha hb =>
    rw [ha]
    rcases v with _ | ⟨b, v⟩
    · rfl
    · simp_all
  | three ha hb hc =>
    rw [ha]
    rcases v with _ | ⟨b, _ | ⟨c, v⟩⟩
    · rfl
    · obtain ⟨rfl, -⟩ := List.cons.inj hu
      exact congrArg not hb
    · simp_all
  | four ha hb hc hd =>
    rw [ha]
    rcases v with _ | ⟨b, _ | ⟨c, _ | ⟨d, v⟩⟩⟩
    · rfl
    · obtain ⟨rfl, -⟩ := List.cons.inj hu
      exact congrArg not hb
    · obtain ⟨rfl, hu'⟩ := List.cons.inj hu
      obtain ⟨rfl, -⟩ := List.cons.inj hu'
      exact congrArg not (Bool.and_eq_true_iff.mpr ⟨hb, hc⟩)
    · simp_all

theorem Utf8.exists_cut (ht : Utf8 t) (n : Nat) :
    Utf8 (t.take n) ∨ ∃ s a u v w, Utf8 s ∧ Spelled a u ∧ u = v ++ w ∧ w ≠ [] ∧
      t.take n = s ++ a :: v := by
  induction ht generalizing n with
  | nil => exact .inl (by simpa using .nil)
  | @cons a u t hu ht ih =>
    cases n with
    | zero => exact .inl .nil
    | succ n =>
      rw [List.take_succ_cons]
      by_cases hn : n < u.length
      · refine .inr ⟨[], a, u, u.take n, u.drop n, .nil, hu, (List.take_append_drop n u).symm, ?_,
          ?_⟩
        · exact List.ne_nil_of_length_pos (by rw [List.length_drop]; omega)
        · rw [List.take_append_of_le_length (by omega), List.nil_append]
      · obtain ⟨k, rfl⟩ := Nat.exists_eq_add_of_le (Nat.le_of_not_lt hn)
        rw [List.take_length_add_append]
        obtain htake | ⟨s, a', u', v, w, hs, hu', hsplit, hw, htake⟩ := ih k
        · exact .inl (.cons hu htake)
        · refine .inr ⟨a :: (u ++ s), a', u', v, w, .cons hu hs, hu', hsplit, hw, ?_⟩
          rw [htake]
          simp

theorem Utf8.exists_last (ht : Utf8 t) (hne : t ≠ []) : ∃ s a u, Spelled a u ∧ t = s ++ a :: u := by
  induction ht with
  | nil => exact absurd rfl hne
  | @cons a u t hu ht ih =>
    by_cases h : t = []
    · exact ⟨[], a, u, hu, by simp [h]⟩
    · obtain ⟨s, a', u', hu', rfl⟩ := ih h
      exact ⟨a :: (u ++ s), a', u', hu', by simp⟩

theorem Utf8.head (h : Utf8 (a :: t)) : a.toNat < 245 := by
  cases h with
  | cons hu =>
    have := hu.lead
    omega

end Text

namespace Charset

open Text (Spelled)

theorem isContinuation_iff (b : UInt8) :
    isContinuation b = true ↔ 128 ≤ b.toNat ∧ b.toNat ≤ 191 := by
  simp only [isContinuation, Bool.and_eq_true, decide_eq_true_eq, UInt8.le_iff_toNat_le,
    UInt8.lt_iff_toNat_lt, UInt8.reduceToNat]
  omega

/-- At most a begun character is taken off the end, and only when it is not whole. -/
theorem wholeSymbols_concat {u v w : Text} (hu : Spelled a u) (hsplit : u = v ++ w) (s : Text) :
    wholeSymbols (s ++ a :: v) = if Text.isFullSymbol (a :: v) then s ++ a :: v else s := by
  have hlength : v.length < 4 := by
    have hannounced := hu.length
    have hwidth : Text.announced a ≤ 4 := by
      unfold Text.announced
      split_ifs <;> omega
    have := congrArg List.length hsplit
    rw [List.length_append] at this
    omega
  have htrail : ∀ b ∈ v.reverse, isContinuation b = true := by
    intro b hb
    rw [isContinuation_iff]
    exact hu.trails b (hsplit ▸ List.mem_append_left w (List.mem_reverse.mp hb))
  have hlead : isContinuation a = false := by
    rw [Bool.eq_false_iff, ne_eq, isContinuation_iff]
    have := hu.lead
    omega
  have hreverse : (s ++ a :: v).reverse = v.reverse ++ a :: s.reverse := by simp
  have hends : ((v.reverse ++ a :: s.reverse).take 4).takeWhile isContinuation = v.reverse := by
    obtain ⟨k, hk⟩ := Nat.exists_eq_add_of_lt hlength
    have hfour : 4 = v.reverse.length + (k + 1) := by
      rw [List.length_reverse]
      omega
    rw [hfour, List.take_length_add_append, List.take_succ_cons,
      List.takeWhile_append_of_pos htrail, List.takeWhile_cons_of_neg (by simp [hlead]),
      List.append_nil]
  have hopen : openEnd (v.reverse ++ a :: s.reverse) =
      if Text.isFullSymbol (a :: v) then 0 else v.length + 1 := by
    unfold openEnd
    dsimp only
    rw [hends, List.drop_left]
    cases hfull : Text.isFullSymbol (a :: v) <;> simp [hfull, hlength]
  unfold wholeSymbols
  rw [hreverse, hopen]
  split
  · simp
  · have hdrop : (v.reverse ++ a :: s.reverse).drop (v.length + 1) = s.reverse := by
      rw [← (List.length_reverse : v.reverse.length = _), List.drop_length_add_append]
      rfl
    rw [hdrop, List.reverse_reverse]

theorem isUtf8_wholeSymbols_take (ht : t.Utf8) (n : Nat) :
    Text.isUtf8 (wholeSymbols (t.take n)) = true := by
  rw [Text.isUtf8_iff]
  obtain htake | ⟨s, a, u, v, w, hs, hu, hsplit, hw, htake⟩ := ht.exists_cut n
  · by_cases hne : t.take n = []
    · rw [hne]
      exact .nil
    · obtain ⟨s, a, u, hu, hlast⟩ := htake.exists_last hne
      rw [hlast] at htake ⊢
      rwa [wholeSymbols_concat hu (List.append_nil u).symm, if_pos hu.isFull]
  · rw [htake, wholeSymbols_concat hu hsplit, hu.not_isFull hsplit hw]
    exact hs

theorem detect_utf8 (ht : t.Utf8) (n : Nat) :
    detect (t.take n) = ⟨.utf8, Utf8.byteOrderMark.isPrefixOf (t.take n)⟩ := by
  have hhead : ∀ a b : UInt8, 245 ≤ a.toNat → [a, b].isPrefixOf (t.take n) = false := by
    intro a b ha
    rw [Bool.eq_false_iff]
    intro h
    obtain ⟨r, hr⟩ := (List.isPrefixOf_iff_prefix.mp h).trans (List.take_prefix n t)
    rw [← hr] at ht
    have := ht.head
    omega
  unfold detect
  rw [hhead 0xFF 0xFE (by decide), hhead 0xFE 0xFF (by decide), isUtf8_wholeSymbols_take ht]
  cases Utf8.byteOrderMark.isPrefixOf (t.take n) <;> rfl

end Charset

namespace Utf8

theorem repairOnto_eq (acc : List Char) (skip : Nat) (t : Text) :
    repairOnto acc skip t = acc.reverse ++ repairOnto [] 0 (t.drop skip) := by
  induction t generalizing acc skip with
  | nil => simp [repairOnto]
  | cons a t ih =>
    cases skip with
    | zero =>
      rw [List.drop_zero, repairOnto, repairOnto]
      cases Text.firstSymbol a t with
      | scalar c =>
        dsimp only
        rw [ih, ih [c]]
        simp
      | stray b =>
        dsimp only
        rw [ih, ih [Symbol.replacement]]
        simp
    | succ k => rw [repairOnto, ih, List.drop_succ_cons]

theorem repairOnto_encodeChar (c : Char) (t : Text) :
    repairOnto [] 0 (String.utf8EncodeChar c ++ t) = c :: repairOnto [] 0 t := by
  obtain ⟨a, u, hc, hu⟩ := Text.spelled_encodeChar c
  obtain ⟨d, hd, hfirst⟩ := hu.symbol
  obtain rfl := Text.encodeChar_injective (hc.trans hd.symm)
  have hwidth := (Text.firstSymbol_of_spelled hu t).2
  rw [hfirst] at hwidth
  rw [hc, List.cons_append, repairOnto, hfirst]
  dsimp only
  rw [hwidth, repairOnto_eq]
  simp

theorem repair_ofString (s : String) : repair (Text.ofString s) = Text.ofString s := by
  have hchars : repairOnto [] 0 (Text.ofString s) = s.toList := by
    rw [Text.ofString_eq_flatMap]
    induction s.toList with
    | nil => rfl
    | cons c cs ih => rw [List.flatMap_cons, repairOnto_encodeChar, ih]
  rw [repair, hchars, Text.ofString_eq_flatMap]
  rfl

end Utf8

namespace Utf16

def units (c : Char) : List Nat :=
  if c.toNat < 0x10000 then [c.toNat]
  else [0xD800 + (c.toNat - 0x10000) / 0x400, 0xDC00 + (c.toNat - 0x10000) % 0x400]

def octets (order : ByteOrder) (u : Nat) : Text :=
  match order with
  | .little => [UInt8.ofNat (u % 256), UInt8.ofNat (u / 256)]
  | .big => [UInt8.ofNat (u / 256), UInt8.ofNat (u % 256)]

def encode (order : ByteOrder) (s : String) : Text :=
  (s.toList.flatMap units).flatMap (octets order)

def byteOrderMark (order : ByteOrder) : Text := octets order 0xFEFF

variable (order : ByteOrder)

theorem octets_eq {u : Nat} (hu : u < 0x10000) :
    ∃ a b, octets order u = [a, b] ∧ unit order a b = u := by
  have hoctet : ∀ n, n < 256 → (UInt8.ofNat n).toNat = n := fun n hn => by simp [hn]
  have hlow := hoctet (u % 256) (by omega)
  have hhigh := hoctet (u / 256) (by omega)
  cases order with
  | little =>
    refine ⟨_, _, rfl, ?_⟩
    rw [unit, hlow, hhigh]
    omega
  | big =>
    refine ⟨_, _, rfl, ?_⟩
    rw [unit, hlow, hhigh]
    omega

theorem charsOnto_single {u : Nat} (hu : u < 0x10000) (hplain : isSurrogate u = false)
    (acc : List Char) (t : Text) :
    charsOnto order acc (octets order u ++ t) = charsOnto order (Char.ofNat u :: acc) t := by
  obtain ⟨a, b, hoctets, hunit⟩ := octets_eq order hu
  rw [hoctets]
  rcases t with _ | ⟨c, _ | ⟨d, t⟩⟩ <;> simp [charsOnto, hunit, single, hplain]

theorem charsOnto_pair {u v : Nat} (hu : 0xD800 ≤ u ∧ u < 0xDC00) (hv : 0xDC00 ≤ v ∧ v < 0xE000)
    (acc : List Char) (t : Text) :
    charsOnto order acc (octets order u ++ (octets order v ++ t)) =
      charsOnto order (Char.ofNat (0x10000 + (u - 0xD800) * 0x400 + (v - 0xDC00)) :: acc) t := by
  obtain ⟨a, b, hoctets, hunit⟩ := octets_eq order (show u < 0x10000 by omega)
  obtain ⟨c, d, hoctets', hunit'⟩ := octets_eq order (show v < 0x10000 by omega)
  have hsurrogate : isSurrogate u = true := by
    simp [isSurrogate]
    omega
  have htrailing : isTrailing v = true := by
    simp [isTrailing]
    omega
  rw [hoctets, hoctets']
  simp [charsOnto, hunit, hunit', hsurrogate, htrailing, pair, hu.2]

theorem charsOnto_units (c : Char) (acc : List Char) (t : Text) :
    charsOnto order acc ((units c).flatMap (octets order) ++ t) = charsOnto order (c :: acc) t := by
  have hvalid : c.toNat < 0xD800 ∨ 0xDFFF < c.toNat ∧ c.toNat < 0x110000 := c.valid
  unfold units
  split
  next hsmall =>
    have hplain : isSurrogate c.toNat = false := by
      simp [isSurrogate]
      omega
    rw [List.flatMap_singleton, charsOnto_single order hsmall hplain, Char.ofNat_toNat]
  next hlarge =>
    have hnumber : 0x10000 + (0xD800 + (c.toNat - 0x10000) / 0x400 - 0xD800) * 0x400 +
        (0xDC00 + (c.toNat - 0x10000) % 0x400 - 0xDC00) = c.toNat := by omega
    rw [List.flatMap_cons, List.flatMap_singleton, List.append_assoc,
      charsOnto_pair order (by omega) (by omega), hnumber, Char.ofNat_toNat]

theorem charsOnto_encode (acc cs : List Char) :
    charsOnto order acc ((cs.flatMap units).flatMap (octets order)) = acc.reverse ++ cs := by
  induction cs generalizing acc with
  | nil => simp [charsOnto]
  | cons c cs ih =>
    rw [List.flatMap_cons, List.flatMap_append, charsOnto_units, ih, List.reverse_cons,
      List.append_assoc]
    rfl

theorem decode_encode (s : String) : decode order (encode order s) = Text.ofString s := by
  rw [decode, encode, charsOnto_encode, Text.ofString_eq_flatMap]
  rfl

end Utf16

namespace Charset

def mark : Char := Char.ofNat 0xFEFF

theorem head_of_byteOrderMark {s : String} {n : Nat}
    (h : Utf8.byteOrderMark.isPrefixOf ((Text.ofString s).take n) = true) :
    s.toList.head? = some mark := by
  obtain ⟨r, hr⟩ := (List.isPrefixOf_iff_prefix.mp h).trans (List.take_prefix n _)
  have hmark : Utf8.byteOrderMark = String.utf8EncodeChar mark := by decide
  have hsymbols := Text.symbols_ofString s
  rw [← hr, hmark, Text.symbols_encodeChar] at hsymbols
  cases hs : s.toList with
  | nil => simp [hs] at hsymbols
  | cons c cs =>
    rw [hs, List.map_cons] at hsymbols
    obtain ⟨hc, -⟩ := List.cons.inj hsymbols
    rw [List.head?_cons, Symbol.scalar.inj hc]

theorem read_plain {s : String} (hs : s.toList.head? ≠ some mark) :
    read (Text.ofString s) = (Text.ofString s, .utf8) := by
  have hmark : Utf8.byteOrderMark.isPrefixOf ((Text.ofString s).take sampleSize) = false :=
    Bool.eq_false_iff.mpr fun h => hs (head_of_byteOrderMark h)
  rw [read, detect_utf8 (Text.utf8_ofString s), hmark]
  rfl

theorem read_marked (s : String) :
    read (Utf8.byteOrderMark ++ Text.ofString s) = (Text.ofString s, .utf8) := by
  have hdetect : detect ((Utf8.byteOrderMark ++ Text.ofString s).take sampleSize) =
      ⟨.utf8, true⟩ := by
    have htake : (Utf8.byteOrderMark ++ Text.ofString s).take sampleSize =
        Utf8.byteOrderMark ++ (Text.ofString s).take 65533 := by
      rw [show sampleSize = Utf8.byteOrderMark.length + 65533 from rfl, List.take_length_add_append]
    have hprefix : Utf8.byteOrderMark.isPrefixOf
        (Utf8.byteOrderMark ++ (Text.ofString s).take 65533) = true :=
      List.isPrefixOf_iff_prefix.mpr (List.prefix_append ..)
    rw [htake, detect, if_pos hprefix]
  rw [read, hdetect]
  exact Prod.ext (Utf8.repair_ofString s) rfl

theorem read_utf16 (order : ByteOrder) (s : String) :
    read (Utf16.byteOrderMark order ++ Utf16.encode order s) = (Text.ofString s, .utf16 order) := by
  have hdetect : detect ((Utf16.byteOrderMark order ++ Utf16.encode order s).take sampleSize) =
      ⟨.utf16 order, true⟩ := by
    cases order <;> rfl
  rw [read, hdetect]
  refine Prod.ext ?_ rfl
  have hdrop : (Utf16.byteOrderMark order ++ Utf16.encode order s).drop 2 =
      Utf16.encode order s := by
    cases order <;> rfl
  change Utf16.decode order ((Utf16.byteOrderMark order ++ Utf16.encode order s).drop 2) = _
  rw [hdrop, Utf16.decode_encode]

/-- A Unicode text of any length is found to be in the encoding that it is in, and read to its
UTF-8 octets: in UTF-8 without a mark, unless it begins with the character of the mark, in UTF-8
with a mark and in UTF-16 of both orders with a mark. No sample of it in UTF-8, wherever it
is cut off, is taken for one in another encoding. -/
theorem unicode_read_exactly (s : String) :
    (s.toList.head? ≠ some mark → read (Text.ofString s) = (Text.ofString s, .utf8)) ∧
      read (Utf8.byteOrderMark ++ Text.ofString s) = (Text.ofString s, .utf8) ∧
      (∀ order, read (Utf16.byteOrderMark order ++ Utf16.encode order s) =
        (Text.ofString s, .utf16 order)) ∧
      ∀ n, (detect ((Text.ofString s).take n)).encoding = .utf8 := by
  refine ⟨read_plain, read_marked s, fun order => read_utf16 order s, fun n => ?_⟩
  rw [detect_utf8 (Text.utf8_ofString s)]

end Charset
end Toolpath
