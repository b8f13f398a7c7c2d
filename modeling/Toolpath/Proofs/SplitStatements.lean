import Toolpath.Proofs.ParameterLists
import Toolpath.Proofs.PhysicalLines

/-!
# Statements over several lines

A statement may be broken behind any comma of its parameter list that is at top level: a `$` ends
the line, and the next line may be indented. Quotes are closed there, so the lines are scanned
one by one as the whole statement is. The blanks that are left of the breaks change no parameter.
-/

namespace Toolpath

open Text (newline carriageReturn dollar comma slash space)
open Scan (Cursor beforeComment?)

def EndsTop (u : Text) : Prop := ∃ x, u = x ++ [comma] ∧ ({} : Cursor).after x = {}

namespace EndsTop

variable {h u : Text}

theorem cursor (hu : EndsTop u) : ({} : Cursor).after u = {} := by
  obtain ⟨x, rfl, hx⟩ := hu
  exact Scan.after_comma hx

theorem append (hu : EndsTop u) (hh : ({} : Cursor).after h = {}) : EndsTop (h ++ u) := by
  obtain ⟨x, rfl, hx⟩ := hu
  refine ⟨h ++ x, by simp, ?_⟩
  rw [Cursor.after_append, hh, hx]

theorem getLast? (hu : EndsTop u) : u.getLast? = some comma := by
  obtain ⟨x, rfl, -⟩ := hu
  exact List.getLast?_concat

theorem whole (hu : EndsTop u) : Text.Whole u := by
  obtain ⟨x, rfl, -⟩ := hu
  exact Text.whole_concat (by decide) x

theorem trimRight (hu : EndsTop u) : u.trimRight = u := by
  obtain ⟨x, rfl, -⟩ := hu
  exact Text.trimRight_concat (by decide) (by decide) x

theorem listBy (hu : EndsTop u) {number? : Text → Option Float} (z : Text) :
    Parameter.listBy number? (u ++ z) =
      Parameter.listBy number? u ++ Parameter.listBy number? z := by
  obtain ⟨x, rfl, hx⟩ := hu
  have hnil : Parameter.listBy number? [] = [] := rfl
  rw [List.append_assoc, List.singleton_append, Parameter.listBy_cut hx, Parameter.listBy_cut hx,
    hnil, List.append_nil]

theorem trim_ne_nil (hu : EndsTop u) (z : Text) : (u ++ z).trim ≠ [] := by
  intro hblank
  have hcomma := Text.not_mem_blank (Text.trim_eq_nil.mp hblank) (b := comma)
    (by decide) (by decide)
  obtain ⟨x, rfl, -⟩ := hu
  exact hcomma (by simp)

end EndsTop

/-- A break: the piece of the statement before it, and the layout around it. -/
structure Break where
  piece : Text
  gap : Text
  returns : Bool
  indent : Text

namespace Break

def ending (b : Break) : Text := if b.returns then [carriageReturn] else []

def tail (b : Break) : Text := b.gap ++ dollar :: b.ending

theorem ending_blank (b : Break) : b.ending.isAllBlank = true := by
  unfold ending
  split <;> decide

/-- A break behind a comma at top level, with blanks around it. -/
structure Fits (b : Break) : Prop where
  piece : EndsTop b.piece
  gap : b.gap.isAllBlank = true
  gap_line : newline ∉ b.gap
  indent : b.indent.isAllBlank = true
  indent_line : newline ∉ b.indent

namespace Fits

variable {b : Break}

theorem not_mem_tail (hb : b.Fits) : newline ∉ b.tail := by
  have hrest : newline ∉ dollar :: b.ending := by
    unfold ending
    split <;> decide
  rw [tail, List.mem_append, not_or]
  exact ⟨hb.gap_line, hrest⟩

theorem tail_head (hb : b.Fits) : ∀ c, b.tail.head? = some c → c ∉ Layout.byteOrderMark := by
  intro c hc
  rw [tail] at hc
  cases hgap : b.gap with
  | nil =>
    rw [hgap] at hc
    obtain rfl := Option.some.inj hc
    decide
  | cons a gap =>
    rw [hgap] at hc
    exact Layout.blank_head hb.gap c (by rw [hgap]; exact hc)

end Fits

end Break

namespace Statement

def unbroken (bs : List Break) (last : Text) : Text := bs.flatMap (·.piece) ++ last

def broken : List Break → Text → Text
  | [], last => last
  | b :: bs, last => b.piece ++ (b.tail ++ newline :: (b.indent ++ broken bs last))

def brokenLines (h : Text) : List Break → Text → List Text
  | [], last => [h ++ last]
  | b :: bs, last => (h ++ b.piece ++ b.tail) :: brokenLines b.indent bs last

/-- What the lexer keeps of a broken statement before its last line. -/
def spread (h : Text) : List Break → Text
  | [] => []
  | b :: bs => h ++ b.piece ++ space :: spread b.indent bs

def lastIndent (h : Text) : List Break → Text
  | [] => h
  | b :: bs => lastIndent b.indent bs

def listHead? (t : Text) : Option Text :=
  if Command.startsWithLetter t then (Scan.cutTop? slash t).map (·.1 ++ [slash]) else some []

theorem unbroken_cons (b : Break) (bs : List Break) (last : Text) :
    unbroken (b :: bs) last = b.piece ++ unbroken bs last := by
  rw [unbroken, List.flatMap_cons, List.append_assoc]
  rfl

/-- What holds of a broken statement whose first line begins with `h`. -/
structure Breaks (h : Text) (bs : List Break) (last : Text) : Prop where
  fits : ∀ b ∈ bs, b.Fits
  cursor : ({} : Cursor).after h = {}
  uncommented : beforeComment? .closed (h ++ unbroken bs last) = none
  one_line : newline ∉ h ++ unbroken bs last
  unmarked : ¬ Layout.byteOrderMark <:+: unbroken bs last
  front : ¬ Layout.byteOrderMark <+: h ++ unbroken bs last

theorem closed_of_cursor {t : Text} (h : ({} : Cursor).after t = {}) :
    Quotes.closed.after t = .closed := by
  have hquotes := Cursor.quotes_after {} t
  rw [h] at hquotes
  exact hquotes.symm

theorem uncommented_blanks {w t : Text} (hw : w.isAllBlank = true)
    (ht : beforeComment? .closed t = none) : beforeComment? .closed (w ++ t) = none := by
  have hdollar : dollar ∉ w := Text.not_mem_blank hw (by decide) (by decide)
  have hlast : w.getLast? ≠ some dollar := fun h => hdollar (List.mem_of_getLast? h)
  have hclosed := closed_of_cursor (Cursor.after_plain {} (Scan.plain_of_blank hw))
  rw [Scan.beforeComment?_append (.inl hlast), Scan.beforeComment?_of_not_mem hdollar, hclosed, ht]
  rfl

namespace Breaks

variable {h last : Text} {b : Break} {bs : List Break}

theorem first (hbs : Breaks h (b :: bs) last) : b.Fits := hbs.fits b (List.mem_cons_self ..)

theorem endsTop (hbs : Breaks h (b :: bs) last) : EndsTop (h ++ b.piece) :=
  hbs.first.piece.append hbs.cursor

theorem closed (hbs : Breaks h (b :: bs) last) : Quotes.closed.after (h ++ b.piece) = .closed :=
  closed_of_cursor hbs.endsTop.cursor

theorem uncommented_around (hbs : Breaks h (b :: bs) last) :
    beforeComment? .closed (h ++ b.piece) = none ∧
      beforeComment? .closed (unbroken bs last) = none := by
  have hlast : (h ++ b.piece).getLast? ≠ some dollar := by
    rw [hbs.endsTop.getLast?]
    decide
  have hall := hbs.uncommented
  rw [unbroken_cons, ← List.append_assoc, Scan.beforeComment?_append (.inl hlast), hbs.closed,
    Option.or_eq_none_iff] at hall
  exact ⟨hall.1, by simpa using hall.2⟩

theorem next (hbs : Breaks h (b :: bs) last) : Breaks b.indent bs last where
  fits := fun c hc => hbs.fits c (List.mem_cons_of_mem _ hc)
  cursor := Cursor.after_plain {} (Scan.plain_of_blank hbs.first.indent)
  uncommented := uncommented_blanks hbs.first.indent hbs.uncommented_around.2
  one_line := by
    have hline := hbs.one_line
    rw [unbroken_cons] at hline
    simp only [List.mem_append, not_or] at hline ⊢
    exact ⟨hbs.first.indent_line, hline.2.2⟩
  unmarked := by
    intro hmark
    apply hbs.unmarked
    rw [unbroken_cons]
    exact hmark.trans (List.suffix_append ..).isInfix
  front := by
    rintro ⟨r, hr⟩
    cases hindent : b.indent with
    | nil =>
      apply hbs.unmarked
      rw [unbroken_cons]
      rw [hindent, List.nil_append] at hr
      exact ⟨b.piece, r, by rw [← hr, List.append_assoc]⟩
    | cons a w =>
      rw [hindent] at hr
      have hhead : a ∉ Layout.byteOrderMark :=
        Layout.blank_head hbs.first.indent a (by rw [hindent]; rfl)
      have ha : (Layout.byteOrderMark ++ r).head? = some a := by rw [hr]; rfl
      exact hhead (Option.some.inj ha ▸ by decide)

theorem physicalLines_broken (hbs : Breaks h bs last) (hlast : last ≠ []) :
    Layout.physicalLines (h ++ broken bs last) =
      (brokenLines h bs last).map Layout.stripReturn := by
  induction bs generalizing h with
  | nil => exact Layout.physicalLines_single hbs.one_line (by simp [broken, hlast])
  | cons b bs ih =>
    have hline : newline ∉ h ++ b.piece ++ b.tail := by
      have hfront := hbs.one_line
      rw [unbroken_cons] at hfront
      simp only [List.mem_append, not_or] at hfront ⊢
      exact ⟨⟨hfront.1, hfront.2.1⟩, hbs.first.not_mem_tail⟩
    rw [broken, ← List.append_assoc, ← List.append_assoc, Layout.physicalLines_cons hline,
      ih hbs.next]
    rfl

theorem unmarked_lines (hbs : Breaks h bs last) :
    ∀ l ∈ brokenLines h bs last, ¬ Layout.byteOrderMark <+: l := by
  induction bs generalizing h with
  | nil =>
    intro l hl
    obtain rfl := List.mem_singleton.mp hl
    exact hbs.front
  | cons b bs ih =>
    intro l hl
    obtain rfl | hl := List.mem_cons.mp hl
    · intro hmark
      apply hbs.front
      rw [unbroken_cons, ← List.append_assoc]
      exact (Layout.prefix_of_append hbs.first.tail_head hmark).trans (List.prefix_append ..)
    · exact ih hbs.next l hl

theorem kind_first (hbs : Breaks h (b :: bs) last) :
    Layout.kind (h ++ b.piece ++ b.tail) = .joined (h ++ b.piece) := by
  have hdollar : dollar ∉ b.gap := Text.not_mem_blank hbs.first.gap (by decide) (by decide)
  have hgap : Quotes.closed.after (h ++ b.piece ++ b.gap) = .closed := by
    apply closed_of_cursor
    rw [Cursor.after_append, hbs.endsTop.cursor]
    exact Cursor.after_plain {} (Scan.plain_of_blank hbs.first.gap)
  have hline : h ++ b.piece ++ b.tail = h ++ b.piece ++ b.gap ++ [dollar] ++ b.ending := by
    simp [Break.tail]
  have huncommented : beforeComment? .closed (h ++ b.piece ++ b.gap ++ [dollar]) = none := by
    have hlast : (h ++ b.piece).getLast? ≠ some dollar := by
      rw [hbs.endsTop.getLast?]
      decide
    have hend : beforeComment? .closed (b.gap ++ [dollar]) = none :=
      uncommented_blanks hbs.first.gap (by decide)
    rw [List.append_assoc, Scan.beforeComment?_append (.inl hlast), hbs.uncommented_around.1,
      hbs.closed, hend]
    rfl
  have hquotes : Scan.insideQuotes (h ++ b.piece ++ b.gap ++ [dollar])
      ((h ++ b.piece ++ b.gap ++ [dollar]).length - 1) = false := by
    rw [Scan.insideQuotes, List.length_append, List.length_singleton, Nat.add_sub_cancel,
      List.take_left, hgap]
    rfl
  rw [hline, Layout.kind_append _ b.ending_blank, Layout.kind_eq, huncommented, Option.getD_none,
    Layout.kindOf]
  rw [Text.trimRight_concat (by decide) (by decide), List.getLast?_concat]
  dsimp only
  rw [hquotes, List.dropLast_concat, Text.trimRight_append _ hbs.first.gap,
    hbs.endsTop.trimRight]
  rfl

theorem assemble_broken (hbs : Breaks h bs last) (pending : Text) (i : Nat) :
    assemble pending i ((brokenLines h bs last).map Layout.kind) =
      assemble (pending ++ spread h bs) (i + bs.length)
        [Layout.kind (lastIndent h bs ++ last)] := by
  induction bs generalizing h pending i with
  | nil =>
    rw [spread, List.append_nil]
    rfl
  | cons b bs ih =>
    rw [brokenLines, List.map_cons, hbs.kind_first, assemble, ih hbs.next, spread, lastIndent,
      List.length_cons]
    congr 1
    · simp
    · omega

end Breaks

theorem kindOf_last {last : Text} (hlast : last.isAllBlank = false) :
    (∃ body, last.trimRight = body ++ [dollar] ∧
      ∀ u, Text.Whole u → Quotes.closed.after u = .closed →
        Layout.kindOf (u ++ last) = .joined (Text.trimRight (u ++ body))) ∨
    ∀ u, Text.Whole u → Quotes.closed.after u = .closed →
      Layout.kindOf (u ++ last) = .complete (u ++ last.trimRight) := by
  have hne : last.trimRight ≠ [] := by
    intro hnil
    have htrim : last.trim = [] := by
      rw [Text.trim, hnil]
      rfl
    rw [Text.trim_eq_nil.mp htrim] at hlast
    cases hlast
  obtain ⟨body, c, hbody⟩ : ∃ body c, last.trimRight = body ++ [c] :=
    ⟨_, _, (List.dropLast_concat_getLast hne).symm⟩
  have hquotes : ∀ u, Quotes.closed.after u = .closed →
      Scan.insideQuotes (u ++ body ++ [c]) ((u ++ body ++ [c]).length - 1) =
        (Quotes.closed.after body).isOpen := by
    intro u hu
    rw [Scan.insideQuotes, List.length_append, List.length_singleton, Nat.add_sub_cancel,
      List.take_left, Quotes.after, List.foldl_append]
    rw [Quotes.after] at hu
    rw [hu]
    rfl
  have hkind : ∀ u, Text.Whole u → Quotes.closed.after u = .closed →
      Layout.kindOf (u ++ last) =
        if c = dollar && !(Quotes.closed.after body).isOpen then
          .joined (Text.trimRight (u ++ body)) else .complete (u ++ last.trimRight) := by
    intro u hwhole hu
    rw [Layout.kindOf]
    rw [hwhole.trimRight hlast, hbody, ← List.append_assoc, List.getLast?_concat]
    simp only [hquotes u hu, List.dropLast_concat]
  by_cases hjoined : (c = dollar && !(Quotes.closed.after body).isOpen) = true
  · have hc : c = dollar := by
      simp only [Bool.and_eq_true, decide_eq_true_eq] at hjoined
      exact hjoined.1
    refine .inl ⟨body, by rw [hbody, hc], fun u hwhole hu => ?_⟩
    rw [hkind u hwhole hu, if_pos hjoined]
  · exact .inr fun u hwhole hu => by rw [hkind u hwhole hu, if_neg hjoined]

/-! ## The joined statement -/

theorem endsTop_pieces {h : Text} (hh : ({} : Cursor).after h = {}) {b : Break} {bs : List Break}
    (hfits : ∀ c ∈ b :: bs, c.Fits) : EndsTop (h ++ (b :: bs).flatMap (·.piece)) := by
  have hb := (hfits b (List.mem_cons_self ..)).piece.append hh
  induction bs generalizing b h with
  | nil => simpa using hb
  | cons b' bs ih =>
    have hfits' : ∀ c ∈ b' :: bs, c.Fits := fun c hc => hfits c (List.mem_cons_of_mem _ hc)
    rw [List.flatMap_cons, ← List.append_assoc]
    exact ih hb.cursor hfits' ((hfits' b' (List.mem_cons_self ..)).piece.append hb.cursor)

theorem listBy_spread {number? : Text → Option Float} {h : Text}
    (hh : ({} : Cursor).after h = {}) {b : Break} {bs : List Break}
    (hfits : ∀ c ∈ b :: bs, c.Fits) (z : Text) :
    Parameter.listBy number? (spread h (b :: bs) ++ z) =
      Parameter.listBy number? (h ++ (b :: bs).flatMap (·.piece)) ++
        Parameter.listBy number? z := by
  have hb := (hfits b (List.mem_cons_self ..)).piece.append hh
  have hspace : ∀ z, Parameter.listBy number? (space :: z) = Parameter.listBy number? z :=
    Parameter.listBy_blanks (w := [space]) (by decide)
  induction bs generalizing b h with
  | nil =>
    rw [spread, spread, List.append_assoc, hb.listBy, List.singleton_append, hspace]
    simp
  | cons b' bs ih =>
    have hfits' : ∀ c ∈ b' :: bs, c.Fits := fun c hc => hfits c (List.mem_cons_of_mem _ hc)
    have hindent := (hfits b (List.mem_cons_self ..)).indent
    have hcursor := Cursor.after_plain {} (Scan.plain_of_blank hindent)
    have hpieces : h ++ (b :: b' :: bs).flatMap (·.piece) =
        h ++ b.piece ++ (b' :: bs).flatMap (·.piece) := by
      rw [List.flatMap_cons, List.append_assoc]
    rw [spread, List.append_assoc, hb.listBy, List.cons_append, hspace,
      ih hcursor hfits' ((hfits' b' (List.mem_cons_self ..)).piece.append hcursor),
      Parameter.listBy_blanks hindent, hpieces, hb.listBy, List.append_assoc]

theorem lastIndent_blank {h : Text} (hh : h.isAllBlank = true) {bs : List Break}
    (hfits : ∀ b ∈ bs, b.Fits) : (lastIndent h bs).isAllBlank = true := by
  induction bs generalizing h with
  | nil => exact hh
  | cons b bs ih =>
    exact ih (hfits b (List.mem_cons_self ..)).indent
      fun c hc => hfits c (List.mem_cons_of_mem _ hc)

namespace Breaks

variable {h last : Text} {bs : List Break}

theorem uncommented_last (hbs : Breaks h bs last) :
    beforeComment? .closed (lastIndent h bs ++ last) = none := by
  induction bs generalizing h with
  | nil => exact hbs.uncommented
  | cons b bs ih => exact ih hbs.next

theorem parseAll_broken (hbs : Breaks h bs last) (hlast : last ≠ []) (first : Int64) :
    Command.parseAll (h ++ broken bs last) first =
      ((assemble (spread h bs) bs.length [Layout.kindOf (lastIndent h bs ++ last)]).map
        (Statement.command first), none) := by
  have hlines := hbs.physicalLines_broken hlast
  have hunmarked : ∀ l ∈ Layout.physicalLines (h ++ broken bs last),
      ¬ Layout.byteOrderMark <+: l := by
    intro l hl
    rw [hlines] at hl
    obtain ⟨raw, hraw, rfl⟩ := List.mem_map.mp hl
    exact fun hmark => hbs.unmarked_lines raw hraw (hmark.trans (Layout.stripReturn_front raw))
  have hkinds : Layout.kindsFrom 0 (Layout.physicalLines (h ++ broken bs last)) =
      (brokenLines h bs last).map Layout.kind := by
    rw [Layout.kindsFrom_of_unmarked fun l hl => hunmarked l (List.mem_of_mem_head? hl), hlines,
      List.map_map]
    apply List.map_congr_left
    intro l _
    exact (Layout.alike_stripReturn l).inside
  rw [Command.parseAll_eq _ _ (.inr hunmarked), Layout.statements, hkinds, hbs.assemble_broken,
    Layout.kind_eq, hbs.uncommented_last, Nat.zero_add]
  rfl

end Breaks

theorem cursor_listHead {t head : Text} (h : listHead? t = some head) :
    ({} : Cursor).after head = {} := by
  unfold listHead? at h
  split_ifs at h
  · obtain ⟨⟨x, y⟩, hcut, rfl⟩ := Option.map_eq_some_iff.mp h
    obtain ⟨hcuts, -⟩ := Scan.cutTopFrom?_some hcut
    have hslash : Scan.Plain slash := by decide
    rw [Cursor.after_append, Cursor.eq_top hslash hcuts]
    rfl
  · obtain rfl := Option.some.inj h
    rfl

theorem sides_listHead {t head u : Text} (h : listHead? t = some head) (hu : EndsTop u)
    (ht : head ++ u <+: t) : ∃ major, ∀ z, Command.sides (head ++ (u ++ z)) = (major, u ++ z) := by
  unfold listHead? at h
  split_ifs at h with hletter
  · obtain ⟨⟨x, y⟩, hcut, rfl⟩ := Option.map_eq_some_iff.mp h
    obtain ⟨-, hcuts⟩ := Scan.cutTopFrom?_some hcut
    rw [Command.startsWithLetter_iff, Scan.cutTopFrom?_eq hcut] at hletter
    have hx := hletter.of_append (by decide) (by decide)
    refine ⟨Command.normalMajor x, fun z => ?_⟩
    have hhalves : Command.halves (x ++ slash :: (u ++ z)) = (x, u ++ z) := by
      rw [Command.halves, Scan.cutTop?, hcuts]
      rfl
    rw [List.append_assoc, List.singleton_append, Command.sides,
      if_pos (Command.startsWithLetter_iff.mpr (hx.append (by decide) _)), hhalves]
  · obtain rfl := Option.some.inj h
    obtain ⟨x, rfl, -⟩ := hu
    obtain ⟨r, rfl⟩ := ht
    refine ⟨Command.continuationWord, fun z => ?_⟩
    rw [List.nil_append, Command.sides, if_neg]
    intro hz
    apply hletter
    rw [Command.startsWithLetter_iff, List.append_assoc, List.singleton_append] at hz
    have hx := hz.of_append (by decide) (by decide)
    rw [Command.startsWithLetter_iff]
    simpa using hx.append (by decide : comma.toNat < 128) r

theorem withParameters_moved {major params params' : Text}
    (h : Parameter.listBy Parameter.number? params' = Parameter.listBy Parameter.number? params)
    (line line' : Int64) :
    Command.withParameters major params' line' =
      { Command.withParameters major params line with line := line' } := by
  simp only [Command.withParameters, h]
  rfl

theorem assemble_last_joined {pending body : Text} {n : Nat}
    (h : (pending ++ body ++ [space]).trim ≠ []) :
    assemble pending n [.joined body] =
      [{ text := (pending ++ body ++ [space]).trim, last := n, dangling := true }] := by
  rw [assemble, assemble, if_neg h]
  rfl

/-- A statement `t` of one line, and breaks in its parameter list. -/
structure BrokenAs (t head : Text) (bs : List Break) (last : Text) : Prop where
  text : t = head ++ unbroken bs last
  one_line : newline ∉ t
  uncommented : beforeComment? .closed t = none
  unmarked : ¬ Layout.byteOrderMark <:+: t
  not_blank : t.isAllBlank = false
  not_dollar : t.trim ≠ [dollar]
  head : bs ≠ [] → listHead? t = some head
  fits : ∀ b ∈ bs, b.Fits
  last_not_blank : bs ≠ [] → last.isAllBlank = false

namespace BrokenAs

variable {t head last : Text} {b : Break} {bs : List Break}

theorem ne_nil (h : BrokenAs t head bs last) : t ≠ [] := by
  rintro rfl
  cases h.not_blank

theorem parseAll_line (h : BrokenAs t head bs last) (first : Int64) :
    Command.parseAll t first =
      ((assemble [] 0 [Layout.kindOf t]).map (Statement.command first), none) := by
  have hline : Breaks [] [] t :=
    { fits := by simp
      cursor := rfl
      uncommented := h.uncommented
      one_line := h.one_line
      unmarked := h.unmarked
      front := fun hmark => h.unmarked hmark.isInfix }
  exact hline.parseAll_broken h.ne_nil first

theorem breaks (h : BrokenAs t head (b :: bs) last) : Breaks head (b :: bs) last where
  fits := h.fits
  cursor := cursor_listHead (h.head (by simp))
  uncommented := h.text ▸ h.uncommented
  one_line := h.text ▸ h.one_line
  unmarked := by
    intro hmark
    apply h.unmarked
    rw [h.text]
    exact hmark.trans (List.suffix_append ..).isInfix
  front := by
    intro hmark
    apply h.unmarked
    rw [h.text]
    exact hmark.isInfix

theorem one_command (h : BrokenAs t head bs last) (first : Int64) :
    ∃ c, Command.parseAll t first = ([c], none) ∧ c.line = first := by
  have hzero : first + Int64.ofNat 0 = first := by simp
  have hnil : Quotes.closed.after [] = .closed := rfl
  rw [h.parseAll_line first]
  obtain ⟨body, hbody, hkind⟩ | hkind := kindOf_last h.not_blank
  · have hne : Text.trim ([] ++ Text.trimRight ([] ++ body) ++ [space]) ≠ [] := by
      rw [Text.trim_append _ (by decide), List.nil_append, List.nil_append, Text.trim_trimRight, Ne,
        Text.trim_eq_nil]
      intro hblank
      apply h.not_dollar
      have htrim : (body ++ [dollar]).trim = t.trim := by rw [← hbody, Text.trim_trimRight]
      rw [← htrim, Text.append_trim hblank]
      decide
    rw [← List.nil_append t, hkind [] Text.Utf8.nil.whole hnil, assemble_last_joined hne]
    exact ⟨_, rfl, (Statement.command_line ..).trans hzero⟩
  · rw [← List.nil_append t, hkind [] Text.Utf8.nil.whole hnil]
    exact ⟨_, rfl, (Statement.command_line ..).trans hzero⟩

theorem endsTop (h : BrokenAs t head (b :: bs) last) :
    EndsTop (head ++ (b :: bs).flatMap (·.piece)) :=
  endsTop_pieces h.breaks.cursor h.fits

theorem lastIndent_blank (h : BrokenAs t head (b :: bs) last) :
    (lastIndent head (b :: bs)).isAllBlank = true :=
  Statement.lastIndent_blank (h.fits b (List.mem_cons_self ..)).indent
    fun c hc => h.fits c (List.mem_cons_of_mem _ hc)

theorem dangling_moved (h : BrokenAs t head (b :: bs) last) {indent : Text}
    (hindent : indent.isAllBlank = true) (body : Text) (first : Int64) (n : Nat) :
    ∃ s s', assemble [] 0 [.joined (Text.trimRight (head ++ (b :: bs).flatMap (·.piece) ++ body))] =
        [s] ∧
      assemble (spread head (b :: bs)) n [.joined (Text.trimRight (indent ++ body))] = [s'] ∧
      Statement.command first s' = { s.command first with line := first + Int64.ofNat n } := by
  have hspread : EndsTop (head ++ b.piece) := h.breaks.endsTop
  have hne : Text.trim ([] ++ Text.trimRight (head ++ (b :: bs).flatMap (·.piece) ++ body) ++
      [space]) ≠ [] := by
    rw [Text.trim_append _ (by decide), List.nil_append, Text.trim_trimRight]
    exact h.endsTop.trim_ne_nil body
  have hne' : Text.trim (spread head (b :: bs) ++ Text.trimRight (indent ++ body) ++ [space]) ≠
      [] := by
    rw [Text.trim_append _ (by decide), spread, List.append_assoc]
    exact hspread.trim_ne_nil _
  have hspace : ∀ t : Text, Parameter.listBy Parameter.number? (t ++ [space]) =
      Parameter.listBy Parameter.number? t :=
    fun t => Parameter.listBy_append_blanks t (by decide)
  refine ⟨_, _, assemble_last_joined hne, assemble_last_joined hne', ?_⟩
  apply withParameters_moved
  rw [Parameter.listBy_trim, Parameter.listBy_trim, hspace, hspace, List.nil_append,
    Parameter.listBy_trimRight, listBy_spread h.breaks.cursor h.fits, h.endsTop.listBy,
    Parameter.listBy_trimRight, Parameter.listBy_blanks hindent]

theorem complete_moved (h : BrokenAs t head (b :: bs) last) {indent : Text}
    (hindent : indent.isAllBlank = true) (body : Text) (first : Int64) (n : Nat) :
    ∃ s s', assemble [] 0 [.complete (head ++ (b :: bs).flatMap (·.piece) ++ body)] = [s] ∧
      assemble (spread head (b :: bs)) n [.complete (indent ++ body)] = [s'] ∧
      Statement.command first s' = { s.command first with line := first + Int64.ofNat n } := by
  have hpiece := (h.fits b (List.mem_cons_self ..)).piece
  obtain ⟨major, hmajor⟩ := sides_listHead (h.head (by simp)) hpiece (by
    rw [h.text, unbroken_cons, ← List.append_assoc]
    exact List.prefix_append ..)
  have hpieces : EndsTop ([] ++ (b :: bs).flatMap (·.piece)) := endsTop_pieces rfl h.fits
  have hone : Command.sides (joined [] (head ++ (b :: bs).flatMap (·.piece) ++ body)) =
      (major, (b :: bs).flatMap (·.piece) ++ body) := by
    rw [joined, if_pos rfl, List.flatMap_cons, List.append_assoc, List.append_assoc, hmajor]
  have hmany : Command.sides (joined (spread head (b :: bs)) (indent ++ body)) =
      (major, spread [] (b :: bs) ++ Text.trimLeft (indent ++ body)) := by
    have hspread : spread head (b :: bs) = head ++ spread [] (b :: bs) := by
      simp [spread]
    have hne : spread head (b :: bs) ≠ [] := by simp [spread]
    rw [joined, if_neg hne, hspread, List.append_assoc, spread, List.nil_append, List.append_assoc,
      hmajor]
  have hcommand : ∀ (text : Text) (k : Nat), Statement.command first { text, last := k } =
      Command.ofStatement text (first + Int64.ofNat k) := fun _ _ => rfl
  refine ⟨_, _, rfl, rfl, ?_⟩
  rw [hcommand, hcommand, Command.ofStatement, Command.ofStatement, hone, hmany]
  apply withParameters_moved
  rw [listBy_spread rfl h.fits, Parameter.listBy_trimLeft, Parameter.listBy_blanks hindent]
  exact (hpieces.listBy body).symm

end BrokenAs

end Statement

/-- A statement that is broken over several lines is one command, the one that it is on
one line, but on the last of the lines. -/
theorem broken_statement_unchanged {t head last : Text} {bs : List Break}
    (h : Statement.BrokenAs t head bs last) (first : Int64) :
    ∃ c, Command.parseAll t first = ([c], none) ∧
      Command.parseAll (head ++ Statement.broken bs last) first =
        ([{ c with line := first + Int64.ofNat bs.length }], none) := by
  cases bs with
  | nil =>
    obtain ⟨c, hc, hline⟩ := h.one_command first
    have hsource : head ++ Statement.broken [] last = t := h.text.symm
    have hzero : first + Int64.ofNat ([] : List Break).length = c.line := by simp [hline]
    exact ⟨c, hc, by rw [hsource, hc, hzero]⟩
  | cons b bs =>
    have hlast : last.isAllBlank = false := h.last_not_blank (by simp)
    have hne : last ≠ [] := by
      rintro rfl
      cases hlast
    have hindent := h.lastIndent_blank
    have hwhole := (Text.utf8_of_blank hindent).whole
    have hclosed := Statement.closed_of_cursor
      (Cursor.after_plain {} (Scan.plain_of_blank hindent))
    have htext : t = head ++ (b :: bs).flatMap (·.piece) ++ last := by
      rw [h.text, Statement.unbroken, List.append_assoc]
    have hfront := Statement.closed_of_cursor h.endsTop.cursor
    rw [h.parseAll_line first, h.breaks.parseAll_broken hne first, htext]
    obtain ⟨body, -, hkind⟩ | hkind := Statement.kindOf_last hlast
    · rw [hkind _ h.endsTop.whole hfront, hkind _ hwhole hclosed]
      obtain ⟨s, s', hs, hs', hmoved⟩ := h.dangling_moved hindent body first (b :: bs).length
      exact ⟨s.command first, by rw [hs]; rfl, by rw [hs', ← hmoved]; rfl⟩
    · rw [hkind _ h.endsTop.whole hfront, hkind _ hwhole hclosed]
      obtain ⟨s, s', hs, hs', hmoved⟩ :=
        h.complete_moved hindent last.trimRight first (b :: bs).length
      exact ⟨s.command first, by rw [hs]; rfl, by rw [hs', ← hmoved]; rfl⟩

/-- Breaks behind a string with commas and dollars in it and behind parentheses. -/
theorem broken_statement_unchanged_quoted :
    let t := Text.ofString "PPRINT/'a, $$ b', (1,2) , 3"
    let bs := [⟨Text.ofString "'a, $$ b',", [], true, [Text.space]⟩,
      ⟨Text.ofString " (1,2) ,", [Text.space], false, []⟩]
    Statement.BrokenAs t (Text.ofString "PPRINT/") bs (Text.ofString " 3") ∧
      ∃ c, Command.parseAll t 1 = ([c], none) ∧
        Command.parseAll (Text.ofString "PPRINT/'a, $$ b',$\r\n  (1,2) , $\n 3") 1 =
          ([{ c with line := 3 }], none) := by
  have hstring : EndsTop "'a, $$ b'," :=
    ⟨Text.ofString "'a, $$ b'", by decide, by decide⟩
  have hparens : EndsTop " (1,2) ," :=
    ⟨Text.ofString " (1,2) ", by decide, by decide⟩
  have hfits : ∀ b ∈ [(⟨Text.ofString "'a, $$ b',", [], true, [Text.space]⟩ : Break),
      ⟨Text.ofString " (1,2) ,", [Text.space], false, []⟩], b.Fits := by
    intro b hb
    simp only [List.mem_cons, List.not_mem_nil, or_false] at hb
    obtain rfl | rfl := hb
    · exact ⟨hstring, by decide, by decide, by decide, by decide⟩
    · exact ⟨hparens, by decide, by decide, by decide, by decide⟩
  have h : Statement.BrokenAs "PPRINT/'a, $$ b', (1,2) , 3"
      (Text.ofString "PPRINT/") [⟨Text.ofString "'a, $$ b',", [], true, [Text.space]⟩,
        ⟨Text.ofString " (1,2) ,", [Text.space], false, []⟩] (Text.ofString " 3") :=
    { text := by decide
      one_line := by decide
      uncommented := by decide
      unmarked := by decide
      not_blank := by decide
      not_dollar := by decide
      head := fun _ => by decide
      fits := hfits
      last_not_blank := fun _ => by decide }
  exact ⟨h, broken_statement_unchanged h 1⟩

end Toolpath
