import Toolpath.Text.Blank
import Toolpath.Text.Case

/-!
# Well formed texts

A text is well formed UTF-8 when it is made of whole characters. Octets below
128 are characters by themselves and never part of another, so a well formed
text may be cut at any of them. Texts that are put together from characters,
such as trimmed and lower case texts, are well formed.
-/

namespace Toolpath.Text

variable {a : UInt8} {u t s : Text}

theorem announced_one : announced a = 1 ↔ a.toNat < 128 := by
  grind [announced, UInt8.lt_iff_toNat_lt]

theorem announced_two : announced a = 2 ↔ 194 ≤ a.toNat ∧ a.toNat < 224 := by
  grind [announced, UInt8.lt_iff_toNat_lt]

theorem announced_three : announced a = 3 ↔ 224 ≤ a.toNat ∧ a.toNat < 240 := by
  grind [announced, UInt8.lt_iff_toNat_lt]

theorem announced_four : announced a = 4 ↔ 240 ≤ a.toNat ∧ a.toNat < 245 := by
  grind [announced, UInt8.lt_iff_toNat_lt]

theorem isTrail_iff (b : UInt8) : isTrail b = true ↔ 128 ≤ b.toNat ∧ b.toNat ≤ 191 := by
  simp [isTrail, UInt8.le_iff_toNat_le]

theorem isSecond_iff (a b : UInt8) :
    isSecond a b = true ↔ 128 ≤ b.toNat ∧ b.toNat ≤ 191 ∧ (a.toNat = 0xE0 → 160 ≤ b.toNat) ∧
      (a.toNat = 0xED → b.toNat ≤ 159) ∧ (a.toNat = 0xF0 → 144 ≤ b.toNat) ∧
      (a.toNat = 0xF4 → b.toNat ≤ 143) := by
  simp only [isSecond, secondRange, ← UInt8.toNat_inj, UInt8.reduceToNat, Bool.and_eq_true,
    decide_eq_true_eq, UInt8.le_iff_toNat_le]
  split
  · simp only [UInt8.reduceToNat]
    omega
  split
  · simp only [UInt8.reduceToNat]
    omega
  split
  · simp only [UInt8.reduceToNat]
    omega
  split
  · simp only [UInt8.reduceToNat]
    omega
  · simp only [UInt8.reduceToNat]
    omega

/-- The octets that complete a character behind its lead octet. -/
inductive Spelled (a : UInt8) : Text → Prop
  | one (ha : announced a = 1) : Spelled a []
  | two {b : UInt8} (ha : announced a = 2) (hb : isSecond a b = true) : Spelled a [b]
  | three {b c : UInt8} (ha : announced a = 3) (hb : isSecond a b = true)
      (hc : isTrail c = true) : Spelled a [b, c]
  | four {b c d : UInt8} (ha : announced a = 4) (hb : isSecond a b = true)
      (hc : isTrail c = true) (hd : isTrail d = true) : Spelled a [b, c, d]

theorem Spelled.length (h : Spelled a u) : announced a = u.length + 1 := by
  cases h <;> assumption

theorem Spelled.high (h : Spelled a u) : ∀ b ∈ u, 128 ≤ b.toNat := by
  cases h with
  | one => simp
  | two _ hb => simp [((isSecond_iff _ _).mp hb).1]
  | three _ hb hc => simp [((isSecond_iff _ _).mp hb).1, ((isTrail_iff _).mp hc).1]
  | four _ hb hc hd =>
    simp [((isSecond_iff _ _).mp hb).1, ((isTrail_iff _).mp hc).1, ((isTrail_iff _).mp hd).1]

theorem spelled_low (ha : a.toNat < 128) : Spelled a u ↔ u = [] := by
  have h1 : announced a = 1 := announced_one.mpr ha
  constructor
  · intro h
    have := h.length
    rw [h1] at this
    exact List.length_eq_zero_iff.mp (by omega)
  · rintro rfl
    exact .one h1

theorem spelled_encodeChar (c : Char) : ∃ a u, String.utf8EncodeChar c = a :: u ∧ Spelled a u := by
  have hvalid : c.val.toNat < 0xD800 ∨ 0xDFFF < c.val.toNat ∧ c.val.toNat < 0x110000 := c.valid
  have hoctet : ∀ n, n < 256 → (UInt8.ofNat n).toNat = n := fun n hn => by simp [hn]
  unfold String.utf8EncodeChar
  generalize c.val.toNat = v at hvalid ⊢
  have htrail : isTrail (UInt8.ofNat (v % 64 + 128)) = true := by
    rw [isTrail_iff, hoctet _ (by omega)]
    omega
  have htrail' : isTrail (UInt8.ofNat (v / 64 % 64 + 128)) = true := by
    rw [isTrail_iff, hoctet _ (by omega)]
    omega
  simp only
  by_cases h₁ : v ≤ 0x7F
  · rw [if_pos h₁]
    refine ⟨_, _, rfl, (spelled_low ?_).mpr rfl⟩
    rw [hoctet _ (by omega)]
    omega
  rw [if_neg h₁]
  by_cases h₂ : v ≤ 0x7FF
  · rw [if_pos h₂]
    refine ⟨_, _, rfl, .two (announced_two.mpr ?_) ((isSecond_iff _ _).mpr ?_)⟩
    · rw [hoctet _ (by omega)]
      omega
    · rw [hoctet _ (by omega), hoctet _ (by omega)]
      omega
  rw [if_neg h₂]
  by_cases h₃ : v ≤ 0xFFFF
  · rw [if_pos h₃]
    refine ⟨_, _, rfl, .three (announced_three.mpr ?_) ((isSecond_iff _ _).mpr ?_) htrail⟩
    · rw [hoctet _ (by omega)]
      omega
    · rw [hoctet _ (by omega), hoctet _ (by omega)]
      omega
  rw [if_neg h₃]
  refine ⟨_, _, rfl, .four (announced_four.mpr ?_) ((isSecond_iff _ _).mpr ?_) htrail' htrail⟩
  · rw [hoctet _ (by omega)]
    omega
  · rw [hoctet _ (by omega), hoctet _ (by omega)]
    omega

theorem width_ofNat {n : Nat} (h : n.isValidChar) :
    (Symbol.scalar (Char.ofNat n)).width = if n < 0x80 then 1 else if n < 0x800 then 2
      else if n < 0x10000 then 3 else 4 := by
  have hn : (Char.ofNat n).toNat = n := by
    rw [Char.ofNat, dif_pos h]
    rfl
  simp [Symbol.width, hn]

theorem firstSymbol_of_spelled (h : Spelled a u) (t : Text) :
    (firstSymbol a (u ++ t)).isStray = false ∧
      (firstSymbol a (u ++ t)).width = u.length + 1 := by
  have hvalid : ∀ {n : Nat}, n < 0xD800 ∨ 0xDFFF < n ∧ n < 0x110000 → n.isValidChar := id
  cases h with
  | one ha =>
    have := announced_one.mp ha
    unfold firstSymbol
    simp only [ha]
    refine ⟨rfl, ?_⟩
    rw [width_ofNat (hvalid (by omega)), if_pos (by omega)]
    rfl
  | @two b ha hb =>
    have := announced_two.mp ha
    have := (isSecond_iff _ _).mp hb
    unfold firstSymbol
    simp only [ha, List.cons_append, List.nil_append]
    rw [if_pos hb]
    refine ⟨rfl, ?_⟩
    unfold trailBits
    rw [width_ofNat (hvalid (by omega)), if_neg (by omega), if_pos (by omega)]
    rfl
  | @three b c ha hb hc =>
    have := announced_three.mp ha
    have := (isSecond_iff _ _).mp hb
    have := (isTrail_iff _).mp hc
    have hall : (isSecond a b && isTrail c) = true := by simp [hb, hc]
    unfold firstSymbol
    simp only [ha, List.cons_append, List.nil_append]
    rw [if_pos hall]
    refine ⟨rfl, ?_⟩
    unfold trailBits
    rw [width_ofNat (hvalid (by omega)), if_neg (by omega), if_neg (by omega), if_pos (by omega)]
    rfl
  | @four b c d ha hb hc hd =>
    have := announced_four.mp ha
    have := (isSecond_iff _ _).mp hb
    have := (isTrail_iff _).mp hc
    have := (isTrail_iff _).mp hd
    have hall : (isSecond a b && isTrail c && isTrail d) = true := by simp [hb, hc, hd]
    unfold firstSymbol
    simp only [ha, List.cons_append, List.nil_append]
    rw [if_pos hall]
    refine ⟨rfl, ?_⟩
    unfold trailBits
    rw [width_ofNat (hvalid (by omega)), if_neg (by omega), if_neg (by omega), if_neg (by omega)]
    rfl

theorem spelled_of_firstSymbol (h : (firstSymbol a t).isStray = false) :
    ∃ u r, t = u ++ r ∧ Spelled a u := by
  unfold firstSymbol at h
  split at h
  next ha => exact ⟨[], _, rfl, .one ha⟩
  next b r ha =>
    split at h
    next hb => exact ⟨[b], r, rfl, .two ha hb⟩
    next => cases h
  next b c r ha =>
    split at h
    next hb =>
      simp only [Bool.and_eq_true] at hb
      exact ⟨[b, c], r, rfl, .three ha hb.1 hb.2⟩
    next => cases h
  next b c d r ha =>
    split at h
    next hb =>
      simp only [Bool.and_eq_true] at hb
      exact ⟨[b, c, d], r, rfl, .four ha hb.1.1 hb.1.2 hb.2⟩
    next => cases h
  next => cases h

inductive Utf8 : Text → Prop
  | nil : Utf8 []
  | cons {a : UInt8} {u t : Text} (hu : Spelled a u) (ht : Utf8 t) : Utf8 (a :: (u ++ t))

theorem symbolsOnto_eq (acc : List Symbol) (skip : Nat) (t : Text) :
    symbolsOnto acc skip t = acc.reverse ++ symbols (t.drop skip) := by
  induction t generalizing acc skip with
  | nil => simp [symbolsOnto, symbols]
  | cons a t ih =>
    cases skip with
    | zero =>
      rw [List.drop_zero, symbols, symbolsOnto, symbolsOnto, ih, ih [_]]
      simp
    | succ k => rw [symbolsOnto, ih, List.drop_succ_cons]

theorem symbols_cons (a : UInt8) (t : Text) :
    symbols (a :: t) = firstSymbol a t :: symbols (t.drop ((firstSymbol a t).width - 1)) := by
  rw [symbols, symbolsOnto, symbolsOnto_eq]
  rfl

theorem isUtf8_cons (a : UInt8) (t : Text) :
    isUtf8 (a :: t) = true ↔ (firstSymbol a t).isStray = false ∧
      isUtf8 (t.drop ((firstSymbol a t).width - 1)) = true := by
  simp [isUtf8, symbols_cons]

theorem isUtf8_append (hu : Spelled a u) (t : Text) : isUtf8 (a :: (u ++ t)) = isUtf8 t := by
  obtain ⟨hstray, hwidth⟩ := firstSymbol_of_spelled hu t
  rw [Bool.eq_iff_iff, isUtf8_cons, hwidth]
  simp [hstray]

theorem isUtf8_iff : isUtf8 t = true ↔ Utf8 t := by
  constructor
  · -- each step takes one character off the front
    intro h
    induction hn : t.length using Nat.strongRecOn generalizing t with
    | ind n ih =>
      cases t with
      | nil => exact .nil
      | cons a t =>
        obtain ⟨u, r, rfl, hu⟩ := spelled_of_firstSymbol ((isUtf8_cons a t).mp h).1
        rw [isUtf8_append hu] at h
        simp only [List.length_cons, List.length_append] at hn
        exact .cons hu (ih r.length (by omega) h rfl)
  · intro h
    induction h with
    | nil => rfl
    | cons hu _ ih => rw [isUtf8_append hu, ih]

namespace Utf8

theorem append (hs : Utf8 s) (ht : Utf8 t) : Utf8 (s ++ t) := by
  induction hs with
  | nil => exact ht
  | cons hu _ ih =>
    rw [List.cons_append, List.append_assoc]
    exact .cons hu ih

theorem encodeChar (c : Char) : Utf8 (String.utf8EncodeChar c) := by
  obtain ⟨a, u, hc, hu⟩ := spelled_encodeChar c
  rw [hc, ← List.append_nil u]
  exact .cons hu .nil

theorem flatMap {α : Type} {f : α → Text} {xs : List α} (h : ∀ x ∈ xs, Utf8 (f x)) :
    Utf8 (xs.flatMap f) := by
  induction xs with
  | nil => exact .nil
  | cons x xs ih =>
    rw [List.flatMap_cons]
    exact append (h x (List.mem_cons_self ..)) (ih fun y hy => h y (List.mem_cons_of_mem _ hy))

theorem of_append (hs : Utf8 s) (h : Utf8 (s ++ t)) : Utf8 t := by
  induction hs with
  | nil => exact h
  | cons hu _ ih =>
    rw [List.cons_append, List.append_assoc, ← isUtf8_iff, isUtf8_append hu, isUtf8_iff] at h
    exact ih h

theorem cut {b : UInt8} (hb : b.toNat < 128) (h : Utf8 (s ++ b :: t)) : Utf8 s ∧ Utf8 t := by
  generalize hw : s ++ b :: t = w at h
  induction h generalizing s with
  | nil => simp at hw
  | @cons a u r hu hr ih =>
    cases s with
    | nil =>
      simp only [List.nil_append, List.cons.injEq] at hw
      obtain ⟨rfl, rfl⟩ := hw
      obtain rfl := (spelled_low hb).mp hu
      exact ⟨.nil, hr⟩
    | cons a' s =>
      simp only [List.cons_append, List.cons.injEq] at hw
      obtain ⟨rfl, hw⟩ := hw
      rcases List.append_eq_append_iff.mp hw with ⟨v, rfl, hv⟩ | ⟨v, rfl, hv⟩
      · -- no character holds the octet, so `v` is empty
        cases v with
        | nil =>
          simp only [List.nil_append] at hv
          simp only [List.append_nil] at hu
          obtain ⟨-, ht⟩ := ih (s := []) hv
          exact ⟨by simpa using Utf8.cons hu .nil, ht⟩
        | cons b' v =>
          obtain ⟨rfl, -⟩ := List.cons.inj hv
          have := hu.high b (by simp)
          omega
      · obtain ⟨hs, ht⟩ := ih hv.symm
        exact ⟨.cons hu hs, ht⟩

theorem ofSymbols (ht : Utf8 t) {rs : List Symbol} (h : ∀ r ∈ rs, r ∈ symbols t) :
    Utf8 (Text.ofSymbols rs) := by
  have hscalar : ∀ r ∈ symbols t, r.isStray = false := by
    simpa [isUtf8] using isUtf8_iff.mpr ht
  refine flatMap fun r hr => ?_
  cases hc : r with
  | scalar c => exact encodeChar c
  | stray b =>
    have := hscalar r (h r hr)
    simp [hc, Symbol.isStray] at this

theorem trimLeft (ht : Utf8 t) : Utf8 t.trimLeft :=
  ht.ofSymbols fun _ hr => (List.dropWhile_sublist _).subset hr

theorem trimRight (ht : Utf8 t) : Utf8 t.trimRight :=
  ht.ofSymbols fun _ hr =>
    List.mem_reverse.mp ((List.dropWhile_sublist _).subset (List.mem_reverse.mp hr))

theorem trim (ht : Utf8 t) : Utf8 t.trim := ht.trimRight.trimLeft

theorem lower (t : Text) : Utf8 t.lower := flatMap fun _ _ => encodeChar _

end Utf8

end Toolpath.Text
