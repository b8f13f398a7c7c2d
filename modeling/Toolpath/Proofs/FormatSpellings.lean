import Toolpath.Proofs.Symbols
import Toolpath.Word.Format

/-!
# The spellings of number formats

A text is read as a format exactly when, less its outer blanks, it is spelled
by the grammar: letters, and in braces a sign, marks, and a point with marks
behind it. It is spelled so in one way only, and the format says what is
written.
-/

namespace Toolpath.NumberFormat

theorem isMark_unsigned {b : UInt8} (hb : isMark b = true) : b ≠ 45 ∧ b ≠ 43 := by
  constructor <;> rintro rfl <;> cases hb

theorem readSign_unsigned {t : Text} (h : ∀ b ∈ t, b ≠ 45 ∧ b ≠ 43) : readSign t = (.none, t) := by
  unfold readSign
  split
  next => exact absurd rfl (h 45 (List.mem_cons_self ..)).1
  next => exact absurd rfl (h 43 (List.mem_cons_self ..)).2
  next => rfl

theorem allLetters_not_mem {t : Text} (h : allLetters t = true) : Text.openBrace ∉ t := by
  intro hmem
  have hletter := List.all_eq_true.mp h _ (Text.scalar_mem_symbols (by decide) hmem)
  exact absurd hletter (by decide)

theorem cut?_append {sep : UInt8} {s : Text} (h : sep ∉ s) (t : Text) :
    Text.cut? sep (s ++ sep :: t) = some (s, t) := by
  induction s with
  | nil => simp [Text.cut?]
  | cons b s ih =>
    rw [List.mem_cons, not_or] at h
    rw [List.cons_append, Text.cut?, if_neg (Ne.symm h.1), ih h.2]
    rfl

theorem cut?_eq {sep : UInt8} {t x y : Text} (h : Text.cut? sep t = some (x, y)) :
    t = x ++ sep :: y := by
  induction t generalizing x with
  | nil => cases h
  | cons b t ih =>
    rw [Text.cut?] at h
    split at h
    next hb =>
      cases h
      rw [hb, List.nil_append]
    next =>
      obtain ⟨⟨x', y'⟩, hcut, heq⟩ := Option.map_eq_some_iff.mp h
      cases heq
      rw [ih hcut, List.cons_append]

/-- A text of the grammar, as the pieces it is put together from. -/
@[ext]
structure Spelling where
  address : Text
  sign : Text
  marks : Text
  point : Text
  behind : Text
  letters : allLetters address = true
  signed : sign = [] ∨ sign = "-" ∨ sign = "+"
  pointed : point = [] ∨ point = "!" ∨ point = "." ∨ point = "^"
  marked : ∀ b ∈ marks ++ behind, isMark b = true
  bare : point = [] → behind = []
  digits : marks ++ behind ≠ []
  implied : point = "^" → behind ≠ []

namespace Spelling

def body (w : Spelling) : Text := w.sign ++ (w.marks ++ (w.point ++ w.behind))

def text (w : Spelling) : Text := w.address ++ Text.openBrace :: (w.body ++ [Text.closeBrace])

def format (w : Spelling) : NumberFormat where
  address := w.address
  sign := if w.sign = "-" then .minusOnly else if w.sign = "+" then .plusMinus else .none
  point := if w.point = "!" then .always else if w.point = "." then .optional else .never
  before := w.marks.length
  after := w.behind.length
  leadingZeros := Text.zero ∈ w.marks
  trailing :=
    if w.behind = [] then .keepOne
    else if Text.zero ∉ w.behind then .strip
    else if w.behind.all (· = Text.zero) then .keepAll
    else .keepOne

theorem readPoint_point (w : Spelling) :
    readPoint (w.point ++ w.behind) = ((w.format.point, decide (w.point = "^")), w.behind) := by
  obtain h | h | h | h := w.pointed
  · simp only [h, w.bare h, format]
    rfl
  all_goals
    simp only [h, format]
    rfl

theorem span_marks (w : Spelling) :
    (w.marks ++ (w.point ++ w.behind)).takeWhile isMark = w.marks ∧
      (w.marks ++ (w.point ++ w.behind)).dropWhile isMark = w.point ++ w.behind := by
  have hmarks : ∀ b ∈ w.marks, isMark b = true := fun b hb => w.marked b (List.mem_append_left _ hb)
  rw [List.takeWhile_append_of_pos hmarks, List.dropWhile_append_of_pos hmarks]
  obtain h | h | h | h := w.pointed
  · simp [h, w.bare h]
  all_goals
    rw [h]
    exact ⟨List.append_nil _, rfl⟩

theorem readSign_body (w : Spelling) :
    readSign w.body = (w.format.sign, w.marks ++ (w.point ++ w.behind)) := by
  obtain h | h | h := w.signed
  · have hpoint : ∀ b ∈ w.point, b ≠ 45 ∧ b ≠ 43 := by
      obtain hp | hp | hp | hp := w.pointed <;> rw [hp]
      · exact List.forall_mem_nil _
      all_goals exact List.forall_mem_singleton.mpr (by decide)
    have hother : ∀ b ∈ w.marks ++ (w.point ++ w.behind), b ≠ 45 ∧ b ≠ 43 := by
      have hmarked := w.marked
      simp only [List.forall_mem_append] at hmarked ⊢
      exact ⟨fun b hb => isMark_unsigned (hmarked.1 b hb), hpoint,
        fun b hb => isMark_unsigned (hmarked.2 b hb)⟩
    rw [body, h, List.nil_append, readSign_unsigned hother]
    simp only [format, h]
    rfl
  all_goals
    simp only [body, format, h]
    rfl

theorem trailingOf_behind (w : Spelling) : trailingOf w.behind = w.format.trailing := by
  have hzero : w.behind.count Text.zero = 0 ↔ Text.zero ∉ w.behind := List.count_eq_zero
  have hall : w.behind.count Text.zero = w.behind.length ↔
      w.behind.all (· = Text.zero) = true := by
    rw [List.count_eq_length, List.all_eq_true]
    exact forall₂_congr fun _ _ => by rw [decide_eq_true_eq, eq_comm]
  simp only [trailingOf, format, List.length_eq_zero_iff, hzero, hall]

theorem parseBody?_body (w : Spelling) : parseBody? w.address w.body = some w.format := by
  have hbehind : ∀ b ∈ w.behind, isMark b = true := fun b hb =>
    w.marked b (List.mem_append_right _ hb)
  have hdigits := w.digits
  simp only [parseBody?, w.readSign_body, w.span_marks, w.readPoint_point,
    List.takeWhile_eq_self_iff.mpr hbehind, List.dropWhile_eq_nil_iff.mpr hbehind,
    trailingOf_behind]
  rw [if_neg]
  · simp [format]
  · have himplied := w.implied
    simp_all

theorem parse?_text {s : Text} {w : Spelling} (h : w.text = s.trim) : parse? s = some w.format := by
  rw [parse?, ← h, text, cut?_append (allLetters_not_mem w.letters)]
  simp [w.letters, w.parseBody?_body]

theorem text_injective : Function.Injective text := by
  intro v w h
  have hcut := cut?_append (allLetters_not_mem v.letters) (v.body ++ [Text.closeBrace])
  change Text.cut? Text.openBrace v.text = _ at hcut
  rw [h, text, cut?_append (allLetters_not_mem w.letters)] at hcut
  obtain ⟨haddress, hbody⟩ := Prod.mk.inj (Option.some.inj hcut)
  have hbody : w.body = v.body := List.append_cancel_right hbody
  have hsign := w.readSign_body
  rw [hbody, v.readSign_body] at hsign
  have hrest : v.marks ++ (v.point ++ v.behind) = w.marks ++ (w.point ++ w.behind) :=
    (Prod.mk.inj hsign).2
  have hmarks := v.span_marks
  rw [hrest, w.span_marks.1, w.span_marks.2] at hmarks
  have hpoint := w.readPoint_point
  rw [hmarks.2, v.readPoint_point] at hpoint
  have hbehind : v.behind = w.behind := (Prod.mk.inj hpoint).2
  refine Spelling.ext haddress.symm ?_ hmarks.1.symm ?_ hbehind
  · rw [body, body, hrest] at hbody
    exact (List.append_cancel_right hbody).symm
  · rw [hbehind] at hmarks
    exact (List.append_cancel_right hmarks.2).symm

end Spelling

theorem readSign_spec (t : Text) :
    ∃ sign : Text, (sign = [] ∨ sign = "-" ∨ sign = "+") ∧ t = sign ++ (readSign t).2 := by
  unfold readSign
  split
  next t => exact ⟨_, .inr (.inl rfl), rfl⟩
  next t => exact ⟨_, .inr (.inr rfl), rfl⟩
  next => exact ⟨_, .inl rfl, rfl⟩

theorem readPoint_spec (t : Text) :
    ∃ point : Text, (point = [] ∨ point = "!" ∨ point = "." ∨ point = "^") ∧
      t = point ++ (readPoint t).2 ∧ (point = "^" → (readPoint t).1.2 = true) := by
  unfold readPoint
  split
  next t => exact ⟨_, .inr (.inl rfl), rfl, fun h => absurd h (by decide)⟩
  next t => exact ⟨_, .inr (.inr (.inl rfl)), rfl, fun h => absurd h (by decide)⟩
  next t => exact ⟨_, .inr (.inr (.inr rfl)), rfl, fun _ => rfl⟩
  next => exact ⟨_, .inl rfl, rfl, fun h => absurd h (by decide)⟩

theorem parseBody?_spelled {address body : Text} {f : NumberFormat}
    (hletters : allLetters address = true) (h : parseBody? address body = some f) :
    ∃ w : Spelling, w.address = address ∧ w.body = body := by
  obtain ⟨sign, hsign, hbody⟩ := readSign_spec body
  simp only [parseBody?] at h
  generalize (readSign body).2 = t at h hbody
  obtain ⟨point, hpoint, hrest, himplied⟩ := readPoint_spec (t.dropWhile isMark)
  generalize readPoint (t.dropWhile isMark) = p at h hrest himplied
  split at h
  · cases h
  · next hform =>
    simp only [Bool.or_eq_true, not_or, decide_eq_true_eq, Bool.and_eq_true, not_not] at hform
    obtain ⟨⟨hend, hdigits⟩, hneeded⟩ := hform
    rw [List.dropWhile_eq_nil_iff] at hend
    rw [List.takeWhile_eq_self_iff.mpr hend] at hdigits hneeded
    refine ⟨⟨address, sign, t.takeWhile isMark, point, p.2, hletters, hsign, hpoint,
      List.forall_mem_append.mpr ⟨fun b hb => List.mem_takeWhile_imp hb, hend⟩, ?_, ?_, ?_⟩, rfl,
      ?_⟩
    · rintro rfl
      have hstop := List.dropWhile_eq_nil_iff.mpr hend
      rwa [← List.nil_append p.2, ← hrest, List.dropWhile_idempotent, hrest] at hstop
    · simpa [← List.length_eq_zero_iff] using hdigits
    · intro hcaret hnone
      exact hneeded ⟨himplied hcaret, List.length_eq_zero_iff.mpr hnone⟩
    · rw [Spelling.body, ← hrest, List.takeWhile_append_dropWhile, ← hbody]

theorem parse?_spelled {s : Text} {f : NumberFormat} (h : parse? s = some f) :
    ∃ w : Spelling, w.text = s.trim := by
  unfold parse? at h
  split at h
  · cases h
  · next address t hcut =>
    split at h
    next hshape =>
      rw [Bool.and_eq_true, decide_eq_true_eq] at hshape
      obtain ⟨body, rfl⟩ := List.getLast?_eq_some_iff.mp hshape.1
      rw [List.dropLast_concat] at h
      obtain ⟨w, rfl, rfl⟩ := parseBody?_spelled hshape.2 h
      exact ⟨w, (cut?_eq hcut).symm⟩
    next => cases h

/-- A text is read exactly when it is spelled by the grammar but for outer blanks. It is then
spelled in one way, and read as the format of that spelling. -/
theorem parse?_iff_spelled (s : Text) :
    ((∃ f, parse? s = some f) ↔ ∃ w : Spelling, w.text = s.trim) ∧
      ∀ w : Spelling, w.text = s.trim →
        parse? s = some w.format ∧ ∀ v : Spelling, v.text = s.trim → v = w := by
  refine ⟨⟨fun ⟨f, hf⟩ => parse?_spelled hf, fun ⟨w, hw⟩ => ⟨_, Spelling.parse?_text hw⟩⟩, ?_⟩
  intro w hw
  exact ⟨Spelling.parse?_text hw, fun v hv => Spelling.text_injective (hv.trans hw.symm)⟩

end Toolpath.NumberFormat
