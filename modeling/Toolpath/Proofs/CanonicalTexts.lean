import Toolpath.Proofs.LetterCase
import Toolpath.Proofs.Numerals
import Toolpath.Proofs.ParameterLists
import Toolpath.Proofs.PhysicalLines

/-!
# Canonical texts read back

The canonical text of a command is one statement on one line, and it is read as that command.
Each parameter of it is scanned without a trace: no comma in it cuts, no comment begins in it,
and behind it the scan stands where it stood.
-/

namespace Toolpath

open Text (newline dollar comma slash space singleQuote doubleQuote openParen closeParen)

-- Decided along the text: there are 256 octets to quantify over.
theorem Text.forall_mem_of_all {P : UInt8 → Prop} [DecidablePred P] {w : Text}
    (h : (w.all fun b => decide (P b)) = true) : ∀ b ∈ w, P b :=
  fun b hb => of_decide_eq_true (List.all_eq_true.mp h b hb)

variable {b : UInt8} {number? : Text → Option Float} {ps : List Text} {x : Float}

namespace Scan

/-- A text within a line that no comment begins in and that leaves the scan at top level. -/
structure Neutral (t : Text) : Prop where
  cursor : ({} : Cursor).after t = {}
  uncommented : beforeComment? .closed t = none
  seam : t.getLast? ≠ some dollar
  line : newline ∉ t

theorem Neutral.append {s t : Text} (hs : Neutral s) (ht : Neutral t) : Neutral (s ++ t) where
  cursor := by rw [Cursor.after_append, hs.cursor, ht.cursor]
  uncommented := by
    have hquotes : Quotes.closed.after s = .closed := by
      rw [← Cursor.quotes_after {} s, hs.cursor]
    rw [beforeComment?_append (.inl hs.seam), hs.uncommented, hquotes, ht.uncommented]
    rfl
  seam := by
    rw [List.getLast?_append]
    cases h : t.getLast? with
    | none => exact hs.seam
    | some b =>
      rw [Option.some_or, ← h]
      exact ht.seam
  line := by
    rw [List.mem_append, not_or]
    exact ⟨hs.line, ht.line⟩

theorem neutral_plain {w : Text} (hw : ∀ b ∈ w, Plain b) (hdollar : dollar ∉ w)
    (hline : newline ∉ w) : Neutral w where
  cursor := Cursor.after_plain {} hw
  uncommented := beforeComment?_of_not_mem hdollar
  seam := fun h => hdollar (List.mem_of_getLast? h)
  line := hline

theorem splitFrom_nil (sep : UInt8) (s : Cursor) : splitFrom sep s [] = [[]] := rfl

theorem splitFrom_uncut {w : Text} (hw : ∀ b ∈ w, Plain b) (hcomma : comma ∉ w) :
    splitFrom comma {} w = [w] := by
  have h := splitFrom_plain {} hw hcomma []
  rw [List.append_nil, splitFrom_nil, List.modifyHead_cons, List.append_nil] at h
  exact h

theorem cutTopFrom?_plain {sep : UInt8} (s : Cursor) {w : Text} (hw : ∀ b ∈ w, Plain b)
    (hsep : sep ∉ w) (z : Text) :
    cutTopFrom? sep s (w ++ z) = (cutTopFrom? sep s z).map fun p => (w ++ p.1, p.2) := by
  induction w with
  | nil => simp
  | cons b w ih =>
    simp only [List.mem_cons, not_or] at hsep
    have hcut : ¬ s.cuts sep b = true := fun h => hsep.1 (Cursor.eq_of_cuts h).symm
    rw [List.cons_append, cutTopFrom?, if_neg hcut, s.step_plain (hw b (List.mem_cons_self ..)),
      ih (fun c hc => hw c (List.mem_cons_of_mem _ hc)) hsep.2, Option.map_map]
    rfl

section Quoted

variable {t : Text}

def within : Cursor := { quotes := .single }

theorem step_within (hb : b ≠ singleQuote) : within.step b = within := by
  have hquotes : Quotes.single.step b = .single := if_neg hb
  simp [Cursor.step, Cursor.reads, hquotes, Quotes.isOpen, within]

theorem cuts_within (sep : UInt8) (hb : b ≠ singleQuote) : within.cuts sep b = false := by
  have hquotes : within.quotes.step b = .single := if_neg hb
  simp [Cursor.cuts, Cursor.reads, hquotes, Quotes.isOpen]

theorem after_within (ht : singleQuote ∉ t) : within.after t = within := by
  induction t with
  | nil => rfl
  | cons b t ih =>
    simp only [List.mem_cons, not_or] at ht
    rw [Cursor.after, List.foldl_cons, step_within (Ne.symm ht.1)]
    exact ih ht.2

theorem splitFrom_within (ht : singleQuote ∉ t) :
    splitFrom comma within (t ++ [singleQuote]) = [t ++ [singleQuote]] := by
  induction t with
  | nil => rfl
  | cons b t ih =>
    simp only [List.mem_cons, not_or] at ht
    rw [List.cons_append, splitFrom_cons, cuts_within _ (Ne.symm ht.1), if_neg (by simp),
      step_within (Ne.symm ht.1), ih ht.2]
    rfl

theorem beforeComment?_within (ht : singleQuote ∉ t) :
    beforeComment? .single (t ++ [singleQuote]) = none := by
  induction t with
  | nil => rfl
  | cons b t ih =>
    simp only [List.mem_cons, not_or] at ht
    have hstep : Quotes.single.step b = .single := if_neg (Ne.symm ht.1)
    rw [List.cons_append, beforeComment?_cons, if_neg (by simp [Quotes.isOpen]), hstep, ih ht.2]
    rfl

theorem neutral_quoted (ht : singleQuote ∉ t) (hline : newline ∉ t) :
    Neutral (Command.quotedString t) where
  cursor := by
    change within.after (t ++ [singleQuote]) = {}
    rw [Cursor.after_append, after_within ht]
    rfl
  uncommented := by
    change (beforeComment? .single (t ++ [singleQuote])).map _ = none
    rw [beforeComment?_within ht]
    rfl
  seam := by
    rw [Command.quotedString, List.getLast?_concat]
    decide
  line := by
    rw [Command.quotedString, List.mem_append, List.mem_cons, not_or, not_or]
    exact ⟨⟨by decide, hline⟩, by decide⟩

theorem splitFrom_quoted (ht : singleQuote ∉ t) :
    splitFrom comma {} (Command.quotedString t) = [Command.quotedString t] := by
  change (splitFrom comma within (t ++ [singleQuote])).modifyHead (singleQuote :: ·) = _
  rw [splitFrom_within ht]
  rfl

end Quoted

end Scan

namespace Parameter

/-- What a parameter must be for a list to keep it as it is. -/
structure Solid (p : Text) : Prop extends Scan.Neutral p where
  uncut : Scan.splitFrom comma {} p = [p]
  nonempty : p ≠ []
  trimmed : p.trim = p

theorem listBy_solid {p : Text} (hp : Solid p) : listBy number? p = [classifyBy number? p] := by
  rw [listBy_eq, hp.uncut]
  simp [hp.trimmed, hp.nonempty]

theorem join_singleton (p : Text) : Text.join ", " [p] = p := List.append_nil p

theorem join_cons (p q : Text) (ps : List Text) :
    Text.join ", " (p :: q :: ps) = p ++ comma :: space :: Text.join ", " (q :: ps) := rfl

theorem listBy_join (h : ∀ p ∈ ps, Solid p) :
    listBy number? (Text.join ", " ps) = ps.map (classifyBy number?) := by
  induction ps with
  | nil => rfl
  | cons p ps ih =>
    have hp := h p (List.mem_cons_self ..)
    have hrest := ih fun q hq => h q (List.mem_cons_of_mem _ hq)
    cases ps with
    | nil =>
      rw [join_singleton, listBy_solid hp]
      rfl
    | cons q ps =>
      have hspace : listBy number? ([space] ++ Text.join ", " (q :: ps)) = _ :=
        listBy_blanks (by decide) _
      rw [List.singleton_append] at hspace
      rw [join_cons, listBy_cut hp.cursor, hspace, hrest, listBy_solid hp]
      rfl

theorem neutral_join (h : ∀ p ∈ ps, Solid p) : Scan.Neutral (Text.join ", " ps) := by
  induction ps with
  | nil => exact Scan.neutral_plain (w := []) (by simp) (by simp) (by simp)
  | cons p ps ih =>
    have hp := (h p (List.mem_cons_self ..)).toNeutral
    have hrest := ih fun q hq => h q (List.mem_cons_of_mem _ hq)
    cases ps with
    | nil => rwa [join_singleton]
    | cons q ps =>
      have hgap : Scan.Neutral [comma, space] :=
        Scan.neutral_plain (Text.forall_mem_of_all (by decide)) (by decide) (by decide)
      exact hp.append (hgap.append hrest)

theorem trimRight_join (h : ∀ p ∈ ps, Solid p) (hne : ps ≠ []) :
    (Text.join ", " ps).trimRight = Text.join ", " ps ∧ Text.join ", " ps ≠ [] := by
  induction ps with
  | nil => exact absurd rfl hne
  | cons p ps ih =>
    have hp := h p (List.mem_cons_self ..)
    cases ps with
    | nil =>
      rw [join_singleton]
      exact ⟨Text.trimRight_of_trim hp.trimmed, hp.nonempty⟩
    | cons q ps =>
      obtain ⟨htrim, hrest⟩ := ih (fun q hq => h q (List.mem_cons_of_mem _ hq)) (by simp)
      have hwhole : Text.Whole (p ++ [comma] ++ [space]) := Text.whole_concat (by decide) _
      have hshape : Text.join ", " (p :: q :: ps) =
          p ++ [comma] ++ [space] ++ Text.join ", " (q :: ps) := by
        rw [join_cons]
        simp
      rw [hshape, hwhole.trimRight (Text.not_isAllBlank htrim hrest), htrim]
      exact ⟨rfl, by simp⟩

theorem isQuoted_of_plain {t : Text} (h : ∀ b ∈ t, Scan.Plain b) : isQuoted t = false := by
  cases t with
  | nil => rfl
  | cons b t => simp [isQuoted, (h b (List.mem_cons_self ..)).1]

theorem isParenthesised_of_plain {t : Text} (h : ∀ b ∈ t, Scan.Plain b) :
    isParenthesised t = false := by
  cases t with
  | nil => rfl
  | cons b t => simp [isParenthesised, (h b (List.mem_cons_self ..)).2.1]

theorem classifyBy_plain {t : Text} (h : ∀ b ∈ t, Scan.Plain b) :
    classifyBy number? t = match number? t with
      | some x => .number x
      | none => .minor t.lower := by
  rw [classifyBy, isQuoted_of_plain h, isParenthesised_of_plain h]
  rfl

theorem classifyBy_quoted (t : Text) : classifyBy number? (Command.quotedString t) = .string t := by
  have hquoted : isQuoted (Command.quotedString t) = true := by
    rw [isQuoted, Command.quotedString, List.getLast?_concat]
    simp [Scan.isQuoteMark]
  rw [classifyBy, if_pos hquoted, inner, Command.quotedString]
  simp

end Parameter

namespace Layout

theorem kindOf_neutral {t : Text} (h : Scan.Neutral t) (htrim : t.trimRight = t) (hne : t ≠ []) :
    kindOf t = .complete t := by
  unfold kindOf
  rw [htrim]
  dsimp only
  split
  next hlast => exact absurd (List.getLast?_eq_none_iff.mp hlast) hne
  next b hlast =>
    rw [if_neg]
    intro hb
    simp only [Bool.and_eq_true, decide_eq_true_eq] at hb
    exact h.seam (hb.1 ▸ hlast)

end Layout

namespace Command

theorem Lettered.unmarked {t : Text} (h : Lettered t) : ¬ Layout.byteOrderMark <+: t := by
  rintro ⟨rest, rfl⟩
  obtain ⟨r, hr, hletter⟩ := h
  have hmark : Layout.byteOrderMark = String.utf8EncodeChar (Char.ofNat 0xFEFF) := by decide
  rw [hmark, Text.symbols_encodeChar, List.head?_cons, Option.some.injEq] at hr
  subst hr
  exact absurd hletter (by decide +kernel)

theorem parseAll_line {t : Text} (h : Scan.Neutral t) (htrim : t.trimRight = t)
    (hletter : Lettered t) : parseAll t = ([ofStatement t 1], none) := by
  have hlines := Layout.physicalLines_single h.line hletter.ne_nil
  have hkind : Layout.kind t = .complete t := by
    rw [Layout.kind_eq, h.uncommented]
    exact Layout.kindOf_neutral h htrim hletter.ne_nil
  have hkinds : Layout.kindsFrom 0 (Layout.physicalLines t) = [.complete t] := by
    rw [hlines, Layout.kindsFrom_alike (Layout.alike_stripReturn t),
      Layout.kindsFrom_of_unmarked (by rintro l ⟨⟩; exact hletter.unmarked),
      List.map_singleton, hkind]
  rw [parseAll_eq t 1 (.inl (by rw [hlines, List.length_singleton]; decide)),
    Layout.statements, hkinds]
  rfl

/-! ## Canonical commands -/

/-- A word without these marks and without outer blanks, in the case that lower case gives. -/
structure Tidy (marks : List UInt8) (w : Text) : Prop where
  unmarked : ∀ b ∈ marks, b ∉ w
  trimmed : w.trim = w
  cased : w.upper.lower = w

def majorMarks : List UInt8 :=
  [singleQuote, doubleQuote, openParen, closeParen, slash, dollar, newline]

def minorMarks : List UInt8 :=
  [singleQuote, doubleQuote, openParen, closeParen, comma, dollar, newline]

/-- A command whose canonical text says all of it. -/
structure Canonical (c : Command) : Prop where
  statement : c.isContinuation = false
  letter : startsWithLetter c.major = true
  major : Tidy majorMarks c.major
  major_last : c.major.getLast? ≠ some comma
  minor : ∀ w ∈ c.minor, w ≠ [] ∧ Tidy minorMarks w ∧ Parameter.number? w = none
  numeric : ∀ x ∈ c.numeric, Number.isFinite x = true
  strings : ∀ t ∈ c.strings, singleQuote ∉ t ∧ newline ∉ t

section Words

variable {marks : List UInt8} {w : Text}

theorem Tidy.upper_unmarked (hw : Tidy marks w)
    (hmarks : (marks.all fun b => b.toNat < 128 ∧ isLetter (Char.ofNat b.toNat) = false) = true) :
    ∀ b ∈ marks, b ∉ w.upper := by
  intro b hb
  obtain ⟨hascii, hletter⟩ := Text.forall_mem_of_all hmarks b hb
  exact Text.not_mem_upper hascii hletter (hw.unmarked b hb)

theorem plain_of_unmarked (h : ∀ b ∈ [singleQuote, doubleQuote, openParen, closeParen], b ∉ w) :
    ∀ b ∈ w, Scan.Plain b := by
  simp only [List.mem_cons, List.not_mem_nil, or_false, forall_eq_or_imp, forall_eq] at h
  obtain ⟨hsingle, hdouble, hopen, hclose⟩ := h
  intro b hb
  refine ⟨?_, by rintro rfl; exact hopen hb, by rintro rfl; exact hclose hb⟩
  simp only [Scan.isQuoteMark, Bool.or_eq_false_iff, decide_eq_false_iff_not]
  exact ⟨by rintro rfl; exact hsingle hb, by rintro rfl; exact hdouble hb⟩

theorem normalMajor_upper (hw : Tidy majorMarks w) (hlast : w.getLast? ≠ some comma) :
    normalMajor w.upper = w := by
  have htrim := Text.trim_upper hw.trimmed
  have hcommas : w.upper.dropWhileBack (· = comma) = w.upper := by
    apply List.rdropWhile_eq_self_iff.mpr
    intro hne hcomma
    apply hlast
    apply Text.getLast?_of_upper (by decide) (by decide)
    rw [List.getLast?_eq_some_getLast hne, of_decide_eq_true hcomma]
  rw [normalMajor, htrim, hcommas, htrim, hw.cased]

theorem numberMark_low (hb : Parameter.isNumberMark b = true) :
    b.toNat < 128 ∧ isBlank (Char.ofNat b.toNat) = false := by
  have hmarks : ∀ n ∈ Parameter.numberMarks, n < 128 ∧ isBlank (Char.ofNat n) = false := by decide
  exact hmarks b.toNat (Parameter.mem_numberMarks hb)

theorem number?_upper (hw : Tidy minorMarks w) (h : Parameter.number? w = none) :
    Parameter.number? w.upper = none := by
  have hcomma := hw.unmarked comma (by decide)
  have hupper := hw.upper_unmarked (by decide) comma (by decide)
  rw [Parameter.number?_of_not_mem hcomma] at h
  rw [Parameter.number?_of_not_mem hupper, Option.eq_none_iff_forall_ne_some]
  intro x hx
  -- A number has ASCII octets only, and lower case does not change what it is.
  have hlow : ∀ b ∈ w.upper, b.toNat < 128 := fun b hb =>
    (numberMark_low (Parameter.isNumberMark_of_plainNumber? hx b hb)).1
  have hsame := Parameter.plainNumber?_asciiLower hx
  rw [← Text.lower_low hlow, hw.cased, h] at hsame
  cases hsame

theorem plain_minor (hw : Tidy minorMarks w) : ∀ b ∈ w.upper, Scan.Plain b := by
  have hmarks : ∀ b ∈ [singleQuote, doubleQuote, openParen, closeParen], b ∈ minorMarks :=
    Text.forall_mem_of_all (by decide)
  exact plain_of_unmarked fun b hb => hw.upper_unmarked (by decide) b (hmarks b hb)

theorem solid_minor (hne : w ≠ []) (hw : Tidy minorMarks w) : Parameter.Solid w.upper := by
  have hunmarked := hw.upper_unmarked (by decide)
  have hplain := plain_minor hw
  exact
    { Scan.neutral_plain hplain (hunmarked dollar (by decide)) (hunmarked newline (by decide)) with
      uncut := Scan.splitFrom_uncut hplain (hunmarked comma (by decide))
      nonempty := Text.upper_ne_nil hne
      trimmed := Text.trim_upper hw.trimmed }

theorem number_unmarked (hx : Number.isFinite x = true)
    (hb : Parameter.isNumberMark b = false) : b ∉ Number.shortest x := by
  intro hmem
  rw [(Number.shortest_marks hx).1 b hmem] at hb
  cases hb

theorem plain_number (hx : Number.isFinite x = true) : ∀ b ∈ Number.shortest x, Scan.Plain b := by
  have hmarks : ∀ b ∈ [singleQuote, doubleQuote, openParen, closeParen],
      Parameter.isNumberMark b = false := Text.forall_mem_of_all (by decide)
  exact plain_of_unmarked fun b hb => number_unmarked hx (hmarks b hb)

theorem solid_number (hx : Number.isFinite x = true) : Parameter.Solid (Number.shortest x) := by
  obtain ⟨hmarks, b, hb, -⟩ := Number.shortest_marks hx
  have hplain := plain_number hx
  exact
    { Scan.neutral_plain hplain (number_unmarked hx (by decide))
      (number_unmarked hx (by decide)) with
      uncut := Scan.splitFrom_uncut hplain (number_unmarked hx (by decide))
      nonempty := List.ne_nil_of_mem hb
      trimmed := Text.trim_of_low
        (fun b hb => numberMark_low (hmarks b (List.mem_of_mem_head? hb)))
        (fun b hb => numberMark_low (hmarks b (List.mem_of_getLast? hb))) }

theorem solid_string {t : Text} (ht : singleQuote ∉ t) (hline : newline ∉ t) :
    Parameter.Solid (quotedString t) :=
  { Scan.neutral_quoted ht hline with
    uncut := Scan.splitFrom_quoted ht
    nonempty := by simp [quotedString]
    trimmed := by
      apply Text.trim_of_low
      · rintro b ⟨⟩
        decide
      · intro b hb
        rw [quotedString, List.getLast?_concat, Option.some.injEq] at hb
        subst hb
        decide }

end Words

theorem Canonical.solid {c : Command} (h : c.Canonical) :
    ∀ p ∈ c.parameters, Parameter.Solid p := by
  intro p hp
  simp only [parameters, List.mem_append, List.mem_map] at hp
  obtain (⟨w, hw, rfl⟩ | ⟨x, hx, rfl⟩) | ⟨t, ht, rfl⟩ := hp
  · exact solid_minor (h.minor w hw).1 (h.minor w hw).2.1
  · exact solid_number (h.numeric x hx)
  · exact solid_string (h.strings t ht).1 (h.strings t ht).2

theorem Canonical.classify {c : Command} (h : c.Canonical) :
    c.parameters.map (Parameter.classifyBy Parameter.number?) =
      c.minor.map .minor ++ c.numeric.map .number ++ c.strings.map .string := by
  simp only [parameters, List.map_append, List.map_map]
  congr 1
  · congr 1
    · apply List.map_congr_left
      intro w hw
      obtain ⟨-, htidy, hnumber⟩ := h.minor w hw
      rw [Function.comp_apply, Parameter.classifyBy_plain (plain_minor htidy),
        number?_upper htidy hnumber]
      exact congrArg Parameter.minor htidy.cased
    · apply List.map_congr_left
      intro x hx
      have hfinite := h.numeric x hx
      rw [Function.comp_apply, Parameter.classifyBy_plain (plain_number hfinite),
        Parameter.number?_shortest hfinite]
  · apply List.map_congr_left
    intro t _
    exact Parameter.classifyBy_quoted t

theorem ofParameters_sorted (major : Text) (line : Int64) (ws : List Text) (xs : List Float)
    (ts : List Text) :
    ofParameters major line (ws.map .minor ++ xs.map .number ++ ts.map .string) =
      { major, minor := ws, numeric := xs, strings := ts, line } := by
  simp [ofParameters, List.filterMap_append, List.filterMap_map, Function.comp_def,
    Parameter.minor?, Parameter.value?, Parameter.string?]

theorem Canonical.withParameters_parameterList {c : Command} (h : c.Canonical) (line : Int64) :
    withParameters c.major c.parameterList line = { c with line } := by
  rw [withParameters, parameterList, Parameter.listBy_join h.solid, h.classify,
    ofParameters_sorted]

theorem Lettered.upper {w : Text} (h : Lettered w) : Lettered w.upper := by
  obtain ⟨r, hr, hletter⟩ := h
  refine ⟨.scalar (upperChar r.char), ?_, isLetter_upperChar hletter⟩
  rw [Text.symbols_upper, List.head?_map, hr]
  rfl

section Rendered

variable {c : Command}

theorem Canonical.plain_major (h : c.Canonical) : ∀ b ∈ c.major.upper, Scan.Plain b := by
  have hmarks : ∀ b ∈ [singleQuote, doubleQuote, openParen, closeParen], b ∈ majorMarks :=
    Text.forall_mem_of_all (by decide)
  exact plain_of_unmarked fun b hb => h.major.upper_unmarked (by decide) b (hmarks b hb)

theorem Canonical.neutral_major (h : c.Canonical) : Scan.Neutral c.major.upper :=
  Scan.neutral_plain h.plain_major (h.major.upper_unmarked (by decide) dollar (by decide))
    (h.major.upper_unmarked (by decide) newline (by decide))

theorem Canonical.lettered_major (h : c.Canonical) : Lettered c.major.upper :=
  (startsWithLetter_iff.mp h.letter).upper

theorem Canonical.render_cases (h : c.Canonical) :
    c.parameters = [] ∧ c.render = c.major.upper ∨
      c.parameters ≠ [] ∧ c.render = c.major.upper ++ [slash] ++ c.parameterList := by
  have hrender : c.render = if c.parameters.isEmpty then c.major.upper
      else c.major.upper ++ slash :: c.parameterList := by
    rw [render, if_neg (by simp [h.statement])]
  by_cases hnone : c.parameters = []
  · exact .inl ⟨hnone, by rw [hrender, hnone]; rfl⟩
  · exact .inr ⟨hnone, by rw [hrender, if_neg (by simpa using hnone)]; simp⟩

theorem Canonical.neutral_render (h : c.Canonical) : Scan.Neutral c.render := by
  obtain ⟨-, hrender⟩ | ⟨-, hrender⟩ := h.render_cases
  · rw [hrender]
    exact h.neutral_major
  · have hslash : Scan.Neutral [slash] :=
      Scan.neutral_plain (Text.forall_mem_of_all (by decide)) (by decide) (by decide)
    rw [hrender]
    exact (h.neutral_major.append hslash).append (Parameter.neutral_join h.solid)

theorem Canonical.trimRight_render (h : c.Canonical) : c.render.trimRight = c.render := by
  obtain ⟨-, hrender⟩ | ⟨hsome, hrender⟩ := h.render_cases
  · rw [hrender]
    exact Text.trimRight_of_trim (Text.trim_upper h.major.trimmed)
  · obtain ⟨htrim, hne⟩ := Parameter.trimRight_join h.solid hsome
    have hwhole : Text.Whole (c.major.upper ++ [slash]) := Text.whole_concat (by decide) _
    rw [hrender, parameterList, hwhole.trimRight (Text.not_isAllBlank htrim hne), htrim]

theorem Canonical.lettered_render (h : c.Canonical) : Lettered c.render := by
  obtain ⟨-, hrender⟩ | ⟨-, hrender⟩ := h.render_cases
  · rw [hrender]
    exact h.lettered_major
  · rw [hrender, List.append_assoc, List.singleton_append]
    exact h.lettered_major.append (by decide) _

theorem Canonical.halves_render (h : c.Canonical) :
    halves c.render = (c.major.upper, c.parameterList) := by
  have hslash := h.major.upper_unmarked (by decide) slash (by decide)
  obtain ⟨hnone, hrender⟩ | ⟨-, hrender⟩ := h.render_cases
  · have hcut := Scan.cutTopFrom?_plain {} h.plain_major hslash []
    rw [List.append_nil] at hcut
    rw [hrender, halves, Scan.cutTop?, hcut, parameterList, hnone]
    rfl
  · rw [hrender, List.append_assoc, List.singleton_append, halves, Scan.cutTop?,
      Scan.cutTopFrom?_plain {} h.plain_major hslash]
    change (c.major.upper ++ [], c.parameterList) = _
    rw [List.append_nil]

theorem Canonical.ofStatement_render (h : c.Canonical) (line : Int64) :
    ofStatement c.render line = { c with line } := by
  rw [ofStatement, sides, if_pos (startsWithLetter_iff.mpr h.lettered_render), h.halves_render]
  dsimp only
  rw [normalMajor_upper h.major h.major_last, h.withParameters_parameterList]

end Rendered

/-- The canonical text of a command is read as this one command, on the first line. -/
theorem parseAll_render {c : Command} (h : c.Canonical) :
    parseAll c.render = ([{ c with line := 1 }], none) := by
  rw [parseAll_line h.neutral_render h.trimRight_render h.lettered_render, h.ofStatement_render]

theorem parseAll_render_remark :
    let c : Command :=
      { major := "pprint", minor := ["on", "größe"], numeric := [-0.5, 1e-7],
        strings := ["a, (b $$ \"c/", ""], line := 9 }
    c.Canonical ∧ c.render = "PPRINT/ON, GRÖßE, -0.5, 0.0000001, 'a, (b $$ \"c/', ''" ∧
      parseAll c.render = ([{ c with line := 1 }], none) := by
  intro c
  have h : c.Canonical :=
    { statement := by decide +kernel
      letter := by decide +kernel
      major := ⟨by decide +kernel, by decide +kernel, by decide +kernel⟩
      major_last := by decide +kernel
      minor := by
        intro w hw
        obtain rfl | rfl : w = "on" ∨ w = "größe" := by
          simpa [c] using hw
        all_goals exact ⟨by decide +kernel, ⟨by decide +kernel, by decide +kernel,
          by decide +kernel⟩, by decide +kernel⟩
      numeric := by decide +kernel
      strings := by decide +kernel }
  exact ⟨h, by decide +kernel, parseAll_render h⟩

end Command

end Toolpath
