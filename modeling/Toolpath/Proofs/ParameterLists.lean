import Toolpath.Proofs.Lexing
import Toolpath.Proofs.Symbols

/-!
# Parameter lists

A parameter list may be cut behind any comma at top level: the parameters are
those of the front and then those of the back. Blanks around a list, and so
blanks behind such a comma, do not count.
-/

namespace Toolpath

variable {w x : Text} {s : Scan.Cursor} {sep : UInt8}

namespace Scan

def Cursor.after (s : Cursor) (t : Text) : Cursor := t.foldl Cursor.step s

theorem Cursor.after_append (s : Cursor) (t u : Text) :
    s.after (t ++ u) = (s.after t).after u := List.foldl_append

theorem Cursor.quotes_after (s : Cursor) (t : Text) : (s.after t).quotes = s.quotes.after t := by
  induction t generalizing s with
  | nil => rfl
  | cons b t ih => exact ih (s.step b)

def Plain (b : UInt8) : Prop :=
  isQuoteMark b = false ∧ b ≠ Text.openParen ∧ b ≠ Text.closeParen
deriving Decidable

theorem Cursor.step_plain (s : Cursor) {b : UInt8} (hb : Plain b) : s.step b = s := by
  obtain ⟨hquote, hopen, hclose⟩ := hb
  simp only [isQuoteMark, Bool.or_eq_false_iff, decide_eq_false_iff_not] at hquote
  have hquotes : s.quotes.step b = s.quotes := by
    cases h : s.quotes <;> simp [Quotes.step, hquote]
  simp [Cursor.step, hquotes, hopen, hclose]

theorem Cursor.after_plain (s : Cursor) (hw : ∀ b ∈ w, Plain b) : s.after w = s := by
  induction w with
  | nil => rfl
  | cons b w ih =>
    rw [Cursor.after, List.foldl_cons, s.step_plain (hw b (List.mem_cons_self ..))]
    exact ih fun c hc => hw c (List.mem_cons_of_mem _ hc)

theorem plain_of_blank (hw : w.isAllBlank = true) : ∀ b ∈ w, Plain b := by
  intro b hb
  have hne : ∀ {c : UInt8}, c.toNat < 128 → isBlank (Char.ofNat c.toNat) = false → b ≠ c := by
    rintro c hlow hc rfl
    exact Text.not_mem_blank hw hlow hc hb
  refine ⟨?_, hne (by decide) (by decide), hne (by decide) (by decide)⟩
  simp only [isQuoteMark, Bool.or_eq_false_iff, decide_eq_false_iff_not]
  exact ⟨hne (by decide) (by decide), hne (by decide) (by decide)⟩

theorem Cursor.eq_top (hsep : Plain sep) (h : s.cuts sep sep = true) : s = {} := by
  have hquotes : s.quotes.step sep = s.quotes := congrArg Cursor.quotes (s.step_plain hsep)
  simp only [Cursor.cuts, Cursor.reads, hquotes, Bool.and_eq_true, decide_eq_true_eq,
    Bool.not_eq_true', Quotes.isOpen, bne_eq_false_iff_eq] at h
  obtain ⟨quotes, depth⟩ := s
  obtain ⟨⟨⟨rfl, -⟩, -⟩, rfl⟩ := h
  rfl

theorem cuts_comma : ({} : Cursor).cuts Text.comma Text.comma = true := by decide

theorem after_comma (hx : ({} : Cursor).after x = {}) :
    ({} : Cursor).after (x ++ [Text.comma]) = {} := by
  rw [Cursor.after_append, hx]
  rfl

def splitFrom (sep : UInt8) (s : Cursor) (t : Text) : List Text :=
  (partsFrom sep s t).1 :: (partsFrom sep s t).2

theorem splitFrom_cons (sep b : UInt8) (s : Cursor) (t : Text) :
    splitFrom sep s (b :: t) =
      if s.cuts sep b then [] :: splitFrom sep (s.step b) t
      else (splitFrom sep (s.step b) t).modifyHead (b :: ·) := by
  rw [splitFrom, partsFrom_cons]
  split
  · rfl
  · rfl

theorem splitFrom_cut (hcut : (s.after x).cuts sep sep = true) (z : Text) :
    splitFrom sep s (x ++ sep :: z) =
      splitFrom sep s x ++ splitFrom sep (s.after (x ++ [sep])) z := by
  induction x generalizing s with
  | nil =>
    change s.cuts sep sep = true at hcut
    rw [List.nil_append, splitFrom_cons, if_pos hcut]
    rfl
  | cons b x ih =>
    rw [List.cons_append, splitFrom_cons, splitFrom_cons, ih hcut]
    split
    · rfl
    · rfl

theorem splitFrom_plain (s : Cursor) (hw : ∀ b ∈ w, Plain b) (hsep : sep ∉ w) (z : Text) :
    splitFrom sep s (w ++ z) = (splitFrom sep s z).modifyHead (w ++ ·) := by
  induction w with
  | nil => rfl
  | cons b w ih =>
    simp only [List.mem_cons, not_or] at hsep
    have hcut : ¬ s.cuts sep b = true := fun h => hsep.1 (Cursor.eq_of_cuts h).symm
    rw [List.cons_append, splitFrom_cons, if_neg hcut, s.step_plain (hw b (List.mem_cons_self ..)),
      ih (fun c hc => hw c (List.mem_cons_of_mem _ hc)) hsep.2]
    rfl

theorem splitFrom_append_plain (s : Cursor) (z : Text) (hw : ∀ b ∈ w, Plain b) (hsep : sep ∉ w) :
    ∃ parts part, splitFrom sep s z = parts ++ [part] ∧
      splitFrom sep s (z ++ w) = parts ++ [part ++ w] := by
  induction z generalizing s with
  | nil =>
    refine ⟨[], [], rfl, ?_⟩
    have hall := splitFrom_plain s hw hsep []
    rw [List.append_nil] at hall
    rw [List.nil_append, hall]
    simp [splitFrom, partsFrom]
  | cons b z ih =>
    obtain ⟨parts, part, hz, hzw⟩ := ih (s.step b)
    rw [List.cons_append, splitFrom_cons, splitFrom_cons, hz, hzw]
    split
    · exact ⟨[] :: parts, part, rfl, rfl⟩
    · cases parts with
      | nil => exact ⟨[], b :: part, rfl, rfl⟩
      | cons p parts => exact ⟨(b :: p) :: parts, part, rfl, rfl⟩

theorem cutTopFrom?_some {t x y : Text} (h : cutTopFrom? sep s t = some (x, y)) :
    (s.after x).cuts sep sep = true ∧ ∀ z, cutTopFrom? sep s (x ++ sep :: z) = some (x, z) := by
  induction t generalizing s x with
  | nil => cases h
  | cons b t ih =>
    rw [cutTopFrom?] at h
    split at h
    next hb =>
      cases h
      obtain rfl := Cursor.eq_of_cuts hb
      refine ⟨hb, fun z => ?_⟩
      rw [List.nil_append, cutTopFrom?, if_pos hb]
    next hb =>
      obtain ⟨⟨x', y'⟩, hcut, heq⟩ := Option.map_eq_some_iff.mp h
      cases heq
      obtain ⟨hafter, hz⟩ := ih hcut
      refine ⟨hafter, fun z => ?_⟩
      rw [List.cons_append, cutTopFrom?, if_neg hb, hz]
      rfl

end Scan

namespace Parameter

variable {number? : Text → Option Float}

theorem listBy_eq (t : Text) :
    listBy number? t = (((Scan.splitFrom Text.comma {} t).map Text.trim).filter
      (!·.isEmpty)).map (classifyBy number?) := rfl

theorem listBy_cut (hx : ({} : Scan.Cursor).after x = {}) (z : Text) :
    listBy number? (x ++ Text.comma :: z) = listBy number? x ++ listBy number? z := by
  have hcut : (({} : Scan.Cursor).after x).cuts Text.comma Text.comma = true := by
    rw [hx]
    exact Scan.cuts_comma
  rw [listBy_eq, Scan.splitFrom_cut hcut, Scan.after_comma hx]
  simp only [List.map_append, List.filter_append]
  rfl

theorem comma_not_blank (hw : w.isAllBlank = true) : Text.comma ∉ w :=
  Text.not_mem_blank hw (by decide) (by decide)

theorem listBy_blanks (hw : w.isAllBlank = true) (z : Text) :
    listBy number? (w ++ z) = listBy number? z := by
  rw [listBy_eq, listBy_eq,
    Scan.splitFrom_plain _ (Scan.plain_of_blank hw) (comma_not_blank hw)]
  simp only [Scan.splitFrom, List.modifyHead_cons, List.map_cons, Text.append_trim hw]

theorem listBy_append_blanks (z : Text) (hw : w.isAllBlank = true) :
    listBy number? (z ++ w) = listBy number? z := by
  obtain ⟨parts, part, hz, hzw⟩ := Scan.splitFrom_append_plain {} z (Scan.plain_of_blank hw)
    (comma_not_blank hw)
  rw [listBy_eq, listBy_eq, hz, hzw]
  simp only [List.map_append, List.map_cons, List.map_nil, Text.trim_append part hw]

theorem listBy_trimLeft (t : Text) : listBy number? t.trimLeft = listBy number? t := by
  obtain ⟨w, hw, ht⟩ := Text.trimLeft_spec t
  conv_rhs => rw [ht, listBy_blanks hw]

theorem listBy_trimRight (t : Text) : listBy number? t.trimRight = listBy number? t := by
  obtain ⟨w, hw, ht⟩ := Text.trimRight_spec t
  conv_rhs => rw [ht, listBy_append_blanks _ hw]

theorem listBy_trim (t : Text) : listBy number? t.trim = listBy number? t := by
  rw [Text.trim, listBy_trimLeft, listBy_trimRight]

end Parameter

end Toolpath
