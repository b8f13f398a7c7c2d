import Toolpath.Proofs.FormatSpellings

/-!
# The grammar of number formats

A format is read back from its grammar, but for a format without digits, one with leading zeros
and no digit before the point, and one whose zeros at the end have no spelling because too few
digits stand behind the point. Of the formats whose modes are listed ones these are all.
-/

namespace Toolpath.NumberFormat

structure Listed (f : NumberFormat) : Prop where
  sign : ∀ code, f.sign ≠ .unlisted code
  point : ∀ code, f.point ≠ .unlisted code
  trailing : ∀ code, f.trailing ≠ .unlisted code

/-- What the grammar can say about addresses, digits and zeros. -/
structure Expressible (f : NumberFormat) : Prop where
  letters : allLetters f.address = true
  digits : 0 < f.before + f.after
  leading : f.leadingZeros = true → 0 < f.before
  whole : f.after = 0 → f.trailing = .keepOne
  tenths : f.after = 1 → f.trailing ≠ .keepOne

theorem Spelling.format_listed (w : Spelling) : w.format.Listed := by
  constructor
  all_goals
    intro code
    dsimp only [format]
    split_ifs <;> simp

theorem Spelling.format_expressible (w : Spelling) : w.format.Expressible where
  letters := w.letters
  digits := by
    have hpos := List.length_pos_of_ne_nil w.digits
    rw [List.length_append] at hpos
    dsimp only [format]
    omega
  leading := by
    intro hzero
    have := List.length_pos_of_mem (of_decide_eq_true hzero)
    dsimp only [format]
    omega
  whole := fun hnone => if_pos (List.length_eq_zero_iff.mp (Int.ofNat_inj.mp hnone))
  tenths := by
    intro hone
    obtain ⟨b, hb⟩ := List.length_eq_one_iff.mp (Int.ofNat_inj.mp hone)
    by_cases hzero : b = Text.zero
    · simp [format, hb, hzero]
    · simp [format, hb, Ne.symm hzero]

variable {f : NumberFormat}

theorem parse?_kind {s : Text} (h : parse? s = some f) :
    f.Listed ∧ 0 ≤ f.before ∧ 0 ≤ f.after ∧ f.Expressible := by
  obtain ⟨w, hw⟩ := parse?_spelled h
  obtain rfl := Option.some.inj ((Spelling.parse?_text hw).symm.trans h)
  exact ⟨w.format_listed, Int.natCast_nonneg _, Int.natCast_nonneg _, w.format_expressible⟩

def wholeMark (f : NumberFormat) : UInt8 := if f.leadingZeros then Text.zero else 35

theorem isMark_wholeMark (f : NumberFormat) : isMark f.wholeMark = true := by
  unfold wholeMark
  split <;> rfl

theorem isMark_trailingMarks (f : NumberFormat) : ∀ b ∈ f.trailingMarks, isMark b = true := by
  intro b hb
  unfold trailingMarks at hb
  split at hb
  · split at hb <;> simp only [List.mem_cons, List.mem_replicate] at hb
    · rw [hb.2]; rfl
    · rw [hb.2]; rfl
    · obtain rfl | hb := hb
      · rfl
      · rw [hb.2]; rfl
  · cases hb

theorem length_trailingMarks (f : NumberFormat) : f.trailingMarks.length = f.after.toNat := by
  unfold trailingMarks
  split
  · split <;> simp
    omega
  · rw [List.length_nil]
    omega

theorem trailingOf_trailingMarks (hafter : 0 ≤ f.after) (hf : f.Listed)
    (he : f.Expressible) : trailingOf f.trailingMarks = f.trailing := by
  have hlength := f.length_trailingMarks
  by_cases hnone : f.after = 0
  · rw [he.whole hnone, trailingOf, if_pos (by omega)]
  · have hpos : 0 < f.after := by omega
    unfold trailingOf
    rw [if_neg (by omega), hlength]
    unfold trailingMarks
    rw [if_pos hpos]
    cases htrailing : f.trailing with
    | strip => simp [List.count_replicate, Text.zero]
    | keepAll =>
      rw [if_neg, if_pos]
      · simp
      · simp
        omega
    | keepOne =>
      have hmany : f.after ≠ 1 := fun hone => he.tenths hone htrailing
      rw [if_neg, if_neg]
      · simp [List.count_replicate, Text.zero]
        omega
      · simp
    | unlisted code => exact absurd htrailing (hf.trailing code)

theorem signMark_cases (hf : f.Listed) :
    (signMark f.sign = [] ∧ f.sign = .none) ∨ (signMark f.sign = "-" ∧ f.sign = .minusOnly) ∨
      (signMark f.sign = "+" ∧ f.sign = .plusMinus) := by
  cases hsign : f.sign with
  | unlisted code => exact absurd hsign (hf.sign code)
  | _ => simp [signMark]

theorem pointMark_cases (hf : f.Listed) :
    (f.pointMark = [] ∧ f.point = .never ∧ ¬ 0 < f.after) ∨
      (f.pointMark = "!" ∧ f.point = .always) ∨ (f.pointMark = "." ∧ f.point = .optional) ∨
      (f.pointMark = "^" ∧ f.point = .never ∧ 0 < f.after) := by
  cases hpoint : f.point with
  | never => by_cases h : 0 < f.after <;> simp [pointMark, hpoint, h]
  | unlisted code => exact absurd hpoint (hf.point code)
  | _ => simp [pointMark, hpoint]

theorem exists_spelling (hbefore : 0 ≤ f.before) (hafter : 0 ≤ f.after)
    (hf : f.Listed) (he : f.Expressible) : ∃ w : Spelling, w.text = f.render ∧ w.format = f := by
  have hlength := f.length_trailingMarks
  have hdigits := he.digits
  have hsign := signMark_cases hf
  have hpoint := pointMark_cases hf
  let w : Spelling :=
    { address := f.address
      sign := signMark f.sign
      marks := List.replicate f.before.toNat f.wholeMark
      point := f.pointMark
      behind := f.trailingMarks
      letters := he.letters
      signed := by tauto
      pointed := by tauto
      marked := List.forall_mem_append.mpr
        ⟨fun b hb => (List.mem_replicate.mp hb).2 ▸ f.isMark_wholeMark, f.isMark_trailingMarks⟩
      bare := by
        intro h
        rw [h] at hpoint
        obtain ⟨-, -, hnone⟩ | ⟨h, -⟩ | ⟨h, -⟩ | ⟨h, -⟩ := hpoint
        · exact if_neg hnone
        all_goals exact absurd h (by decide)
      digits := by
        rw [← List.length_pos_iff, List.length_append, List.length_replicate, hlength]
        omega
      implied := by
        intro h
        rw [← List.length_pos_iff, hlength]
        rw [h] at hpoint
        obtain ⟨h, -⟩ | ⟨h, -⟩ | ⟨h, -⟩ | ⟨-, -, hpos⟩ := hpoint
        · exact absurd h (by decide)
        · exact absurd h (by decide)
        · exact absurd h (by decide)
        · omega }
  have hsigned : w.format.sign = f.sign := by
    dsimp only [Spelling.format, w]
    obtain ⟨-, hs⟩ | ⟨-, hs⟩ | ⟨-, hs⟩ := hsign <;> simp only [hs] <;> rfl
  have hpointed : w.format.point = f.point := by
    dsimp only [Spelling.format, w]
    obtain ⟨h, hp, -⟩ | ⟨h, hp⟩ | ⟨h, hp⟩ | ⟨h, hp, -⟩ := hpoint <;> simp only [h, hp] <;> rfl
  have hleading : w.format.leadingZeros = f.leadingZeros := by
    change decide (Text.zero ∈ List.replicate _ _) = _
    have hneeded := he.leading
    cases hzeros : f.leadingZeros with
    | true => simpa [wholeMark, hzeros] using hneeded hzeros
    | false => simp [wholeMark, hzeros, Text.zero]
  have htrailing : w.format.trailing = f.trailing :=
    w.trailingOf_behind.symm.trans (trailingOf_trailingMarks hafter hf he)
  refine ⟨w, by simp [w, Spelling.text, Spelling.body, render, wholeMark],
    (NumberFormat.mk.injEq ..).mpr ⟨rfl, hsigned, hpointed, ?_, ?_, hleading, htrailing⟩⟩
  · simp only [w, List.length_replicate, Int.toNat_of_nonneg hbefore]
  · simp only [w, hlength, Int.toNat_of_nonneg hafter]

/-- An address begins with a letter and the braces close at the end, so nothing is trimmed. -/
theorem Spelling.trim_text (w : Spelling) : w.text.trim = w.text := by
  obtain ⟨t, ht⟩ : ∃ t, w.text = t ++ [Text.closeBrace] :=
    ⟨w.address ++ Text.openBrace :: w.body, by simp [text]⟩
  rw [Text.trim, ht, Text.trimRight_concat (by decide) (by decide), ← ht]
  apply Text.symbols_injective
  rw [Text.symbols_trimLeft, text, Text.symbols_append (Text.begins_low (by decide) _)]
  cases hs : Text.symbols w.address with
  | nil =>
    rw [Text.symbols_low (by decide), List.nil_append, List.dropWhile_cons_of_neg (by decide)]
  | cons r rs =>
    have hletter : isLetter r.char = true := List.all_eq_true.mp w.letters r (by simp [hs])
    rw [List.cons_append, List.dropWhile_cons_of_neg]
    intro hblank
    rw [Text.isLetter_of_isBlank hblank] at hletter
    cases hletter

theorem parse?_render_of_expressible (hbefore : 0 ≤ f.before)
    (hafter : 0 ≤ f.after) (hf : f.Listed) (he : f.Expressible) : parse? f.render = some f := by
  obtain ⟨w, htext, hformat⟩ := exists_spelling hbefore hafter hf he
  rw [← htext, ← hformat]
  exact Spelling.parse?_text w.trim_text.symm

/-- A format with digit counts that are not negative is read back as it is exactly when its modes
are listed ones and the grammar can say it; every format that is read is of this kind, so that
writing it and reading it again gives the same format. -/
theorem parse?_render_iff :
    (∀ f : NumberFormat, 0 ≤ f.before → 0 ≤ f.after →
      (parse? f.render = some f ↔ f.Listed ∧ f.Expressible)) ∧
    ∀ (s : Text) (f : NumberFormat), parse? s = some f →
      f.Listed ∧ 0 ≤ f.before ∧ 0 ≤ f.after ∧ f.Expressible ∧ parse? f.render = some f := by
  constructor
  · intro f hbefore hafter
    constructor
    · intro h
      obtain ⟨hf, -, -, he⟩ := parse?_kind h
      exact ⟨hf, he⟩
    · rintro ⟨hf, he⟩
      exact parse?_render_of_expressible hbefore hafter hf he
  · intro s f h
    obtain ⟨hf, hbefore, hafter, he⟩ := parse?_kind h
    exact ⟨hf, hbefore, hafter, he, parse?_render_of_expressible hbefore hafter hf he⟩

/-- A sign mode that is not listed has no mark, so it is not read back. -/
theorem unlisted_sign_lost :
    ¬ ∀ f : NumberFormat, 0 ≤ f.before → 0 ≤ f.after →
      (parse? f.render = some f ↔ f.Expressible) := by
  intro h
  let f : NumberFormat :=
    { address := "X", sign := .unlisted 3, before := 3, trailing := .keepOne }
  have he : f.Expressible :=
    ⟨by decide +kernel, by decide, by decide, fun _ => rfl, by decide⟩
  have hread := (h f (by decide) (by decide)).mpr he
  exact absurd hread (by decide +kernel)

end Toolpath.NumberFormat
