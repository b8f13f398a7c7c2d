import Toolpath.Proofs.Numerals
import Toolpath.Proofs.TopLevelCuts

/-!
# Decimal commas

A comma that is left inside a parameter stands within quotes or parentheses
that are in the parameter too, since each parameter begins where a scan begins.
So no number with a comma ever comes to be read, and a lexer that does not take
a comma for a decimal point reads every text alike.
-/

namespace Toolpath

namespace Scan

theorem not_mem_of_plain {sep : UInt8} (hsep : Plain sep) (s : Cursor) (t : Text) :
    (s = {} → (∀ b ∈ (partsFrom sep s t).1, Plain b) → sep ∉ (partsFrom sep s t).1) ∧
      ∀ part ∈ (partsFrom sep s t).2, (∀ b ∈ part, Plain b) → sep ∉ part := by
  induction t generalizing s with
  | nil => simp [partsFrom]
  | cons b t ih =>
    obtain ⟨hfirst, hparts⟩ := ih (s.step b)
    rw [partsFrom_cons]
    split
    next hcut =>
      obtain rfl := Cursor.eq_of_cuts hcut
      refine ⟨fun _ _ => List.not_mem_nil, List.forall_mem_cons.mpr ⟨hfirst ?_, hparts⟩⟩
      rw [Cursor.eq_top hsep hcut, Cursor.step_plain _ hsep]
    next hcut =>
      refine ⟨?_, hparts⟩
      rintro rfl hplain
      obtain ⟨hb, hplain⟩ := List.forall_mem_cons.mp hplain
      have hne : sep ≠ b := by
        rintro rfl
        exact hcut ((cuts_iff hsep).mpr rfl)
      exact List.not_mem_cons_of_ne_of_not_mem hne (hfirst (Cursor.step_plain _ hb) hplain)

theorem exists_not_plain {t part : Text} (hpart : part ∈ splitTop Text.comma t)
    (hcomma : Text.comma ∈ part) : ∃ b ∈ part, ¬ Plain b := by
  have hsep : Plain Text.comma := by decide
  by_contra! hplain
  exact (not_mem_of_plain hsep {} (Text.comma :: t)).2 part hpart hplain hcomma

end Scan

namespace Parameter

theorem token_covered {params token : Text}
    (h : token ∈ (Scan.splitTop Text.comma params).map Text.trim) (hcomma : Text.comma ∈ token) :
    ∃ b ∈ token, ¬ Scan.Plain b := by
  obtain ⟨part, hpart, rfl⟩ := List.mem_map.mp h
  obtain ⟨w, hw, hback⟩ := Text.trimRight_spec part
  obtain ⟨w', hw', hfront⟩ := Text.trimLeft_spec part.trimRight
  have hmem : ∀ b, b ∈ part ↔ b ∈ w' ∨ b ∈ part.trim ∨ b ∈ w := by
    intro b
    rw [← List.mem_append, ← List.mem_append, ← List.append_assoc, Text.trim, ← hfront, ← hback]
  obtain ⟨b, hb, hplain⟩ := Scan.exists_not_plain hpart ((hmem _).mpr (.inr (.inl hcomma)))
  obtain hb | hb | hb := (hmem b).mp hb
  · exact absurd (Scan.plain_of_blank hw' b hb) hplain
  · exact ⟨b, hb, hplain⟩
  · exact absurd (Scan.plain_of_blank hw b hb) hplain

theorem not_plain_iff {b : UInt8} :
    ¬ Scan.Plain b ↔ Scan.isQuoteMark b = true ∨ b = Text.openParen ∨ b = Text.closeParen := by
  rw [Scan.Plain, not_and_or, not_and_or, not_not, not_not, Bool.not_eq_false]

theorem plainNumber?_eq_none {t : Text} {b : UInt8} (hb : b ∈ t) (hplain : ¬ Scan.Plain b) :
    plainNumber? t = none := by
  have hmark : isNumberMark b = false := by
    simp only [not_plain_iff, Scan.isQuoteMark, Bool.or_eq_true, decide_eq_true_eq] at hplain
    obtain (rfl | rfl) | rfl | rfl := hplain <;> rfl
  refine if_neg fun h => ?_
  rw [List.all_eq_true.mp (Bool.and_eq_true_iff.mp h).1 b hb] at hmark
  cases hmark

theorem number?_eq_none {t : Text} {b : UInt8} (hb : b ∈ t) (hplain : ¬ Scan.Plain b) :
    number? t = none := by
  refine plainNumber?_eq_none (List.mem_map.mpr ⟨b, hb, if_neg ?_⟩) hplain
  rintro rfl
  exact hplain (by decide)

theorem listBy_plainNumber? (t : Text) : listBy plainNumber? t = listBy number? t := by
  refine List.map_congr_left fun token htoken => ?_
  have hread : plainNumber? token = number? token := by
    by_cases hcomma : Text.comma ∈ token
    · obtain ⟨b, hb, hplain⟩ := token_covered (List.mem_filter.mp htoken).1 hcomma
      rw [plainNumber?_eq_none hb hplain, number?_eq_none hb hplain]
    · exact (number?_of_not_mem hcomma).symm
  rw [classifyBy, classifyBy, hread]

end Parameter

section Reader

variable {number? : Text → Option Float}
  (h : ∀ t, Parameter.listBy number? t = Parameter.listBy Parameter.number? t)

include h

theorem Command.withParameters_congr (major params : Text) (line : Int64) :
    withParameters major params line number? = withParameters major params line := by
  rw [withParameters, withParameters, h]

theorem Command.parse_congr (text : Text) (line : Int64) :
    parse text line number? = parse text line := by
  simp only [parse, statement, withParameters_congr h]

namespace Lexer

theorem readLine_congr (l : Lexer) (raw : Text) (rest : List Text) :
    l.readLine raw rest number? = l.readLine raw rest := by
  simp only [readLine, Command.parse_congr h]

theorem finish_congr (l : Lexer) : l.finish number? = l.finish := by
  simp only [finish, Command.withParameters_congr h]

theorem readUntil_congr (stop : Nat → Bool) (i : Nat) (l : Lexer) (lines : List Text) :
    readUntil stop i l lines number? = readUntil stop i l lines := by
  induction lines generalizing i l with
  | nil => rw [readUntil, readUntil, finish_congr h]
  | cons raw rest ih => simp only [readUntil, readLine_congr h, ih]

theorem collect_congr (cancelled : Bool) (acc : List Command) (l : Lexer) (fuel : Nat) :
    collect cancelled acc l fuel number? = collect cancelled acc l fuel := by
  have hnext : ∀ l : Lexer, l.next cancelled number? = l.next cancelled := fun l => by
    rw [next, next, nextUnless, nextUnless, readUntil_congr h]
  induction fuel generalizing acc l with
  | zero => rfl
  | succ fuel ih => simp only [collect, hnext, ih]

end Lexer
end Reader

/-- Whether a comma may stand for a decimal point makes no difference to what a lexer reads:
a parameter with a comma is never read as a number, for its quotes or parentheses. -/
theorem Lexer.decimal_comma_never_read (l : Lexer) (cancelled : Bool) :
    l.all cancelled Parameter.plainNumber? = l.all cancelled ∧
      ∀ params : Text, ∀ token ∈ (Scan.splitTop Text.comma params).map Text.trim,
        Text.comma ∈ token →
          (∃ b ∈ token, Scan.isQuoteMark b = true ∨ b = Text.openParen ∨ b = Text.closeParen) ∧
            Parameter.number? token = none := by
  refine ⟨collect_congr Parameter.listBy_plainNumber? .., fun params token htoken hcomma => ?_⟩
  obtain ⟨b, hb, hplain⟩ := Parameter.token_covered htoken hcomma
  exact ⟨⟨b, hb, Parameter.not_plain_iff.mp hplain⟩, Parameter.number?_eq_none hb hplain⟩

end Toolpath
