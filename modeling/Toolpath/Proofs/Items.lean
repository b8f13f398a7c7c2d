import Toolpath.Cbor.Reader
import Toolpath.Proofs.Packing

/-!
# Data items are read back

Reading the canonical octets of an item gives the item and what follows it: a head carries its
kind and its argument, and a count says how many items belong to an array or a map. Reading has
limits, and an item has to keep to them.
-/

namespace Toolpath.Cbor

theorem length_bigEndian (w n : Nat) : (bigEndian w n).length = w := by
  induction w generalizing n with
  | zero => rfl
  | succ w ih => simp [bigEndian, ih]

theorem ofBigEndian_concat (t : Text) (b : UInt8) :
    ofBigEndian (t ++ [b]) = ofBigEndian t * 256 + b.toNat := by
  simp [ofBigEndian]

theorem ofBigEndian_bigEndian (w n : Nat) : ofBigEndian (bigEndian w n) = n % 256 ^ w := by
  induction w generalizing n with
  | zero => simp [bigEndian, ofBigEndian, Nat.mod_one]
  | succ w ih =>
    have hlow : n.toUInt8.toNat = n % 256 := by simp
    rw [bigEndian, ofBigEndian_concat, ih, hlow, Nat.pow_succ', Nat.mod_mul]
    omega

theorem readOctets_append (u t : Text) : readOctets u.length (u ++ t) = .ok (u, t) := by
  simp [readOctets]

theorem kindOf_head (kind form : Nat) (hk : kind < 8) (hf : form < 32) :
    kindOf (kind * 32 + form).toUInt8 = kind := by
  have h : (kind * 32 + form).toUInt8.toNat = (kind * 32 + form) % 256 := by simp
  rw [kindOf, h]
  omega

theorem formOf_head (kind form : Nat) (hf : form < 32) :
    formOf (kind * 32 + form).toUInt8 = form := by
  have h : (kind * 32 + form).toUInt8.toNat = (kind * 32 + form) % 256 := by simp
  rw [formOf, h]
  omega

theorem read_small {kind n : Nat} (hk : kind < 8) (hn : n < 24) (t : Text) :
    Head.read ((kind * 32 + n).toUInt8 :: t) = .ok (⟨kind, n, n⟩, t) := by
  have hkind := kindOf_head kind n hk (by omega)
  have hform := formOf_head kind n (by omega)
  rw [Head.read]
  simp only [hkind, hform, if_pos hn]

theorem read_wide {kind form w : Nat} (hk : kind < 8) (hf : 24 ≤ form ∧ form < 28)
    (hw : w = 2 ^ (form - 24)) (h7 : kind = 7 → form ≠ 24) (n : Nat) (t : Text) :
    Head.read ((kind * 32 + form).toUInt8 :: bigEndian w n ++ t) =
      .ok (⟨kind, form, n % 256 ^ w⟩, t) := by
  have hkind := kindOf_head kind form hk (by omega)
  have hform := formOf_head kind form (by omega)
  have hoctets : readOctets (Nat.pow 2 (form - 24)) (bigEndian w n ++ t) =
      .ok (bigEndian w n, t) := by
    have hlen : Nat.pow 2 (form - 24) = (bigEndian w n).length := by rw [length_bigEndian, hw]; rfl
    rw [hlen, readOctets_append]
  have hlow : ¬ form < 24 := by omega
  have hsimple : (kind = 7 && form = 24 && n % 256 ^ w < 32) = false := by
    by_cases h : kind = 7
    · simp [h7 h]
    · simp [h]
  rw [List.cons_append, Head.read]
  simp only [hkind, hform, if_neg hlow, if_pos hf.2, hoctets, ofBigEndian_bigEndian, hsimple,
    Bool.false_eq_true, if_false]

theorem read_head (kind : Nat) {n : Nat} (hk : kind < 7) (hn : n < 2 ^ 64) (t : Text) :
    ∃ form, form ≠ openForm ∧ Head.read (head kind n ++ t) = .ok (⟨kind, form, n⟩, t) := by
  have hwide : ∀ {form w : Nat}, 24 ≤ form ∧ form < 28 → w = 2 ^ (form - 24) → n < 256 ^ w →
      ∃ form', form' ≠ openForm ∧ Head.read ((kind * 32 + form).toUInt8 :: bigEndian w n ++ t) =
        .ok (⟨kind, form', n⟩, t) := by
    intro form w hf hw hlt
    refine ⟨form, by unfold openForm; omega, ?_⟩
    rw [read_wide (by omega) hf hw (by omega), Nat.mod_eq_of_lt hlt]
  unfold head
  by_cases h₀ : n < 24
  · rw [if_pos h₀]
    exact ⟨n, by unfold openForm; omega, read_small (by omega) h₀ t⟩
  rw [if_neg h₀]
  by_cases h₁ : n < Nat.pow 2 8
  · rw [if_pos h₁]
    exact hwide (by omega) rfl h₁
  rw [if_neg h₁]
  by_cases h₂ : n < Nat.pow 2 16
  · rw [if_pos h₂]
    exact hwide (by omega) rfl h₂
  rw [if_neg h₂]
  by_cases h₃ : n < Nat.pow 2 32
  · rw [if_pos h₃]
    exact hwide (by omega) rfl h₃
  rw [if_neg h₃]
  exact hwide (by omega) rfl hn

theorem ofMagnitude_bits {f : Number.BinaryFormat} {x : Float} (h : fits f x = true) :
    Number.ofMagnitude (f.unpack (f.bits x % (f.signUnit * 2))) = x := by
  rw [Number.unpack_mod]
  exact Number.eq_of_toBits (of_decide_eq_true h)

/-- A head of the kind of floating point numbers whose argument is this one. -/
def HoldsFloat (x : Float) (h : Head) : Prop := h.kind = 7 ∧ 25 ≤ h.form ∧ readFloat h = .float x

theorem read_wideFloat {x : Float} (form w n : Nat) (hf : 25 ≤ form ∧ form < 28)
    (hw : w = 2 ^ (form - 24)) (hx : readFloat ⟨7, form, n % 256 ^ w⟩ = .float x) (t : Text) :
    ∃ h, HoldsFloat x h ∧
      Head.read ((7 * 32 + form).toUInt8 :: bigEndian w n ++ t) = .ok (h, t) :=
  ⟨_, ⟨rfl, hf.1, hx⟩, read_wide (by omega) (by omega) hw (by omega) n t⟩

theorem read_float (x : Float) (t : Text) :
    ∃ h, HoldsFloat x h ∧ Head.read (floatOctets x ++ t) = .ok (h, t) := by
  unfold floatOctets
  by_cases hnan : Number.isNan x = true
  · rw [if_pos hnan, Number.eq_nan hnan]
    exact read_wideFloat 25 2 0x7E00 (by omega) rfl rfl t
  rw [if_neg hnan]
  by_cases hhalf : fits Number.half x = true
  · rw [if_pos hhalf]
    exact read_wideFloat 25 2 _ (by omega) rfl (congrArg Item.float (ofMagnitude_bits hhalf)) t
  rw [if_neg hhalf]
  by_cases hsingle : fits Number.single x = true
  · rw [if_pos hsingle]
    exact read_wideFloat 26 4 _ (by omega) rfl (congrArg Item.float (ofMagnitude_bits hsingle)) t
  rw [if_neg hsingle]
  refine read_wideFloat 27 8 _ (by omega) rfl (congrArg Item.float ?_) t
  have hbits : x.toBits.toNat % 256 ^ 8 = x.toBits.toNat := Nat.mod_eq_of_lt (Number.toBits_lt x)
  rw [hbits]
  change Float.ofBits (UInt64.ofNat x.toBits.toNat) = x
  rw [UInt64.ofNat_toNat, Number.ofBits_toBits]

/-- An item that keeps to the limits of a reader with this many levels of nesting. -/
inductive Item.Legible : Nat → Item → Prop
  | unsigned {l n : Nat} (hn : n < 2 ^ 64) : Legible l (.unsigned n)
  | negative {l n : Nat} (hn : n < 2 ^ 64) : Legible l (.negative n)
  | text {l : Nat} {t : Text} (ht : t.length < 2 ^ 63) : Legible l (.text [t])
  | float {l : Nat} (x : Float) : Legible l (.float x)
  | array {l : Nat} {items : List Item} (hn : items.length ≤ itemLimit)
      (h : ∀ x ∈ items, Legible l x) : Legible (l + 1) (.array items)
  | map {l : Nat} {items : List Item} (heven : items.length % 2 = 0)
      (hn : items.length / 2 ≤ pairLimit) (h : ∀ x ∈ items, Legible l x) :
      Legible (l + 1) (.map items)

variable {items : List Item} {steps levels : Nat}

theorem readMany_encodeAll {read : ItemReader}
    (h : ∀ x ∈ items, ∀ t, read (x.encode ++ t) = .ok (x, t)) (acc : List Item) (t : Text) :
    readMany read items.length acc (encodeAll items ++ t) = .ok (acc.reverse ++ items, t) := by
  induction items generalizing acc with
  | nil => simp [readMany, encodeAll]
  | cons x xs ih =>
    have hx : read (x.encode ++ (encodeAll xs ++ t)) = .ok (x, encodeAll xs ++ t) :=
      h x (List.mem_cons_self ..) _
    rw [List.length_cons, encodeAll, List.append_assoc, readMany, hx]
    simp only
    rw [ih fun y hy => h y (List.mem_cons_of_mem _ hy)]
    simp

theorem readItem_of_head {h : Head} {t rest : Text}
    (hread : Head.read t = .ok (h, rest)) (hk : h.kind ≠ 6) :
    readItem (steps + 1) levels t = readContent (readItem steps) levels h rest := by
  rw [readItem]
  simp only [hread, if_neg hk]

theorem readItem_head (kind steps levels : Nat) {n : Nat} (hk : kind < 6) (hn : n < 2 ^ 64)
    (t : Text) :
    ∃ form, form ≠ openForm ∧ readItem (steps + 1) levels (head kind n ++ t) =
      readContent (readItem steps) levels ⟨kind, form, n⟩ t := by
  obtain ⟨form, hform, hread⟩ := read_head kind (by omega) hn t
  exact ⟨form, hform, readItem_of_head hread (by simp only; omega)⟩

theorem readItem_text {s : Text} (hs : s.length < 2 ^ 63) (t : Text) :
    readItem (steps + 1) levels ((Item.text [s]).encode ++ t) = .ok (.text [s], t) := by
  obtain ⟨form, hform, hread⟩ :=
    readItem_head 3 steps levels (by omega) (by omega : s.length < 2 ^ 64) (s ++ t)
  have hstring : readString s.length (s ++ t) = .ok (s, t) := by
    have hshort : ¬ Nat.pow 2 63 ≤ s.length := Nat.not_le.mpr hs
    rw [readString, if_neg hshort, readOctets_append]
  simp only [Item.encode, List.flatten_singleton, List.append_assoc]
  rw [hread]
  simp [readContent, hform, hstring, Except.map]

theorem readItem_float (x : Float) (t : Text) :
    readItem (steps + 1) levels ((Item.float x).encode ++ t) = .ok (.float x, t) := by
  obtain ⟨h, ⟨hkind, hform, hvalue⟩, hread⟩ := read_float x t
  rw [Item.encode, readItem_of_head hread (by omega)]
  simp [readContent, hkind, Nat.not_lt.mpr hform, hvalue]

theorem readItem_array (hn : items.length ≤ itemLimit)
    (h : ∀ x ∈ items, ∀ t, readItem steps levels (x.encode ++ t) = .ok (x, t)) (t : Text) :
    readItem (steps + 1) (levels + 1) ((Item.array items).encode ++ t) = .ok (.array items, t) := by
  have hlimit : itemLimit = 1048576 := rfl
  obtain ⟨form, hform, hread⟩ :=
    readItem_head 4 steps (levels + 1) (by omega) (by omega : items.length < 2 ^ 64)
      (encodeAll items ++ t)
  have hlength : ¬ Nat.pow 2 63 ≤ items.length := by
    change ¬ 2 ^ 63 ≤ items.length
    omega
  rw [Item.encode, List.append_assoc, hread]
  simp only [readContent, readArray, if_neg hform, if_neg hlength, if_neg (Nat.not_lt.mpr hn),
    readMany_encodeAll h]
  rfl

theorem readItem_map (heven : items.length % 2 = 0) (hn : items.length / 2 ≤ pairLimit)
    (h : ∀ x ∈ items, ∀ t, readItem steps levels (x.encode ++ t) = .ok (x, t)) (t : Text) :
    readItem (steps + 1) (levels + 1) ((Item.map items).encode ++ t) = .ok (.map items, t) := by
  have hlimit : pairLimit = 131072 := rfl
  obtain ⟨form, hform, hread⟩ :=
    readItem_head 5 steps (levels + 1) (by omega) (by omega : items.length / 2 < 2 ^ 64)
      (encodeAll items ++ t)
  have hlength : ¬ Nat.pow 2 63 ≤ items.length / 2 := by
    change ¬ 2 ^ 63 ≤ items.length / 2
    omega
  have hpairs : 2 * (items.length / 2) = items.length := by omega
  rw [Item.encode, List.append_assoc, hread]
  simp only [readContent, readMap, if_neg hform, if_neg hlength, if_neg (Nat.not_lt.mpr hn),
    hpairs, readMany_encodeAll h]
  rfl

theorem readItem_encode {x : Item} (hx : x.Legible levels)
    (hs : levels < steps) (t : Text) : readItem steps levels (x.encode ++ t) = .ok (x, t) := by
  obtain ⟨steps, rfl⟩ : ∃ n, steps = n + 1 := ⟨steps - 1, by omega⟩
  induction hx generalizing steps t with
  | unsigned hn =>
    obtain ⟨form, -, hread⟩ := readItem_head 0 steps _ (by omega) hn t
    exact hread
  | negative hn =>
    obtain ⟨form, -, hread⟩ := readItem_head 1 steps _ (by omega) hn t
    exact hread
  | text ht => exact readItem_text ht t
  | float x => exact readItem_float x t
  | array hn _ ih =>
    obtain ⟨inner, rfl⟩ : ∃ n, steps = n + 1 := ⟨steps - 1, by omega⟩
    exact readItem_array hn (fun x hx t => ih x hx t inner (by omega)) t
  | map heven hn _ ih =>
    obtain ⟨inner, rfl⟩ : ∃ n, steps = n + 1 := ⟨steps - 1, by omega⟩
    exact readItem_map heven hn (fun x hx t => ih x hx t inner (by omega)) t

theorem read_encode {x : Item} (hx : x.Legible depthLimit) (t : Text) :
    Item.read (x.encode ++ t) = .ok (x, t) :=
  readItem_encode hx (Nat.lt_succ_self _) t

end Toolpath.Cbor
