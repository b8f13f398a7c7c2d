import Toolpath.Proofs.Lexing
import Toolpath.Proofs.Symbols

/-!
# The statements of a program

What a lexer reads from a program, told without the lexer: the physical lines are sorted into
kinds, lines are joined into statements, and each statement is a command of its own. No statement
is refused, since one that begins with a letter has a major word.
-/

namespace Toolpath

variable {t : Text} {i : Nat} {l : Lexer}

namespace Command

theorem startsWithLetter_cons (a : UInt8) (t : Text) :
    startsWithLetter (a :: t) = isLetter (Text.firstSymbol a t).char := rfl

def Lettered (t : Text) : Prop :=
  ∃ r, (Text.symbols t).head? = some r ∧ isLetter r.char = true

theorem startsWithLetter_iff : startsWithLetter t = true ↔ Lettered t := by
  cases t with
  | nil => simp [startsWithLetter, Lettered]
  | cons a t => simp [startsWithLetter_cons, Lettered, Text.symbols_cons]

theorem Lettered.ne_nil (h : Lettered t) : t ≠ [] := by
  rintro rfl
  obtain ⟨r, hr, -⟩ := h
  cases hr

theorem Lettered.trim (h : Lettered t) : Lettered t.trim := by
  obtain ⟨r, hr, hletter⟩ := h
  refine ⟨r, Text.head?_trim hr ?_, hletter⟩
  rw [Text.symbolIsBlank, Bool.eq_false_iff]
  intro hblank
  rw [Text.isLetter_of_isBlank hblank] at hletter
  cases hletter

theorem Lettered.of_append {b : UInt8} (hb : b.toNat < 128)
    (hletter : isLetter (Char.ofNat b.toNat) = false) {s t : Text} (h : Lettered (s ++ b :: t)) :
    Lettered s := by
  obtain ⟨r, hr, hrl⟩ := h
  rw [Text.symbols_append (Text.begins_low hb t), Text.symbols_low hb, List.head?_append] at hr
  cases hs : (Text.symbols s).head? with
  | some q =>
    rw [hs, Option.some_or, Option.some.injEq] at hr
    exact ⟨r, by rw [hs, hr], hrl⟩
  | none =>
    rw [hs, Option.none_or, List.head?_cons, Option.some.injEq] at hr
    rw [← hr, Symbol.char, hletter] at hrl
    cases hrl

theorem Lettered.append {s : Text} (h : Lettered s) {b : UInt8} (hb : b.toNat < 128) (t : Text) :
    Lettered (s ++ b :: t) := by
  obtain ⟨r, hr, hletter⟩ := h
  refine ⟨r, ?_, hletter⟩
  rw [Text.symbols_append (Text.begins_low hb t), List.head?_append, hr]
  rfl

theorem Lettered.dropWhileBack_comma (h : Lettered t) :
    Lettered (t.dropWhileBack (· = Text.comma)) := by
  induction t using List.reverseRecOn with
  | nil => exact h
  | append_singleton t b ih =>
    rw [Text.dropWhileBack, List.reverse_append, List.reverse_singleton, List.singleton_append]
    by_cases hb : b = Text.comma
    · subst hb
      rw [List.dropWhile_cons_of_pos (by simp)]
      exact ih (Lettered.of_append (by decide) (by decide) h)
    · rw [List.dropWhile_cons_of_neg (by simpa using hb)]
      simpa using h

theorem normalMajor_ne_nil (h : Lettered t) : normalMajor t ≠ [] :=
  Text.lower_ne_nil h.trim.dropWhileBack_comma.trim.ne_nil

theorem statement_ok {major params text : Text} {line : Int64} (h : normalMajor major ≠ []) :
    statement major params text line = .ok (withParameters (normalMajor major) params line) :=
  if_neg h

/-- What stands before and behind the first slash; all stands before it when there is none. -/
def halves (text : Text) : Text × Text := (Scan.cutTop? Text.slash text).getD (text, [])

theorem Lettered.halves {text : Text} (h : Lettered text) : Lettered (halves text).1 := by
  unfold Command.halves
  cases hcut : Scan.cutTop? Text.slash text with
  | none => exact h
  | some p =>
    rw [Scan.cutTopFrom?_eq hcut] at h
    exact h.of_append (by decide) (by decide)

def sides (text : Text) : Text × Text :=
  if startsWithLetter text then (normalMajor (halves text).1, (halves text).2)
  else (continuationWord, text)

theorem sides_ne_nil (text : Text) : (sides text).1 ≠ [] := by
  by_cases h : startsWithLetter text = true
  · rw [sides, if_pos h]
    dsimp only
    exact normalMajor_ne_nil (startsWithLetter_iff.mp h).halves
  · rw [sides, if_neg h]
    exact (by decide : continuationWord ≠ [])

def ofStatement (text : Text) (line : Int64) : Command :=
  withParameters (sides text).1 (sides text).2 line

theorem parse_eq (text : Text) (line : Int64) : parse text line = .ok (ofStatement text line) := by
  by_cases h : startsWithLetter text = true
  · have hmajor := normalMajor_ne_nil (startsWithLetter_iff.mp h).halves
    rw [parse, if_pos h, ofStatement, sides, if_pos h]
    dsimp only
    exact statement_ok hmajor
  · rw [parse, if_neg h, ofStatement, sides, if_neg h]

end Command

structure Statement where
  text : Text
  last : Nat
  dangling : Bool := false
deriving DecidableEq

namespace Statement

def command (first : Int64) (s : Statement) : Command :=
  if s.dangling then
    Command.withParameters Command.continuationWord s.text (first + Int64.ofNat s.last)
  else Command.ofStatement s.text (first + Int64.ofNat s.last)

theorem command_line (first : Int64) (s : Statement) :
    (s.command first).line = first + Int64.ofNat s.last := by
  unfold command
  split
  · rfl
  · rfl

def joined (pending body : Text) : Text :=
  if pending = [] then body else pending ++ body.trimLeft

/-- The statements of lines of these kinds, when `pending` was read of a
statement and `i` is the index of the next line. -/
def assemble (pending : Text) (i : Nat) : List LineKind → List Statement
  | [] => if pending.trim = [] then [] else
    [{ text := pending.trim, last := i - 1, dangling := true }]
  | .blank :: ks => assemble pending (i + 1) ks
  | .joined body :: ks => assemble (pending ++ body ++ [Text.space]) (i + 1) ks
  | .complete body :: ks => { text := joined pending body, last := i } :: assemble [] (i + 1) ks

end Statement

namespace Layout

def kind (line : Text) : LineKind := (content line).kind

def unmarked : List Text → List Text
  | [] => []
  | raw :: rest => raw.dropFront byteOrderMark :: rest

def kindsFrom (i : Nat) (lines : List Text) : List LineKind :=
  (if i = 0 then unmarked lines else lines).map kind

theorem kindsFrom_cons (i : Nat) (raw : Text) (rest : List Text) :
    kindsFrom i (raw :: rest) =
      kind (if i = 0 then raw.dropFront byteOrderMark else raw) ::
        kindsFrom (i + 1) rest := by
  cases i <;> rfl

/-- From index `i` on no line counts as the first: the line numbers do not come
round to it, or no line has a byte order mark to lose. -/
def MarkedOnce (i : Nat) (lines : List Text) : Prop :=
  i + lines.length ≤ 2 ^ 64 ∨ ∀ l ∈ lines, ¬ byteOrderMark <+: l

theorem dropFront_unchanged {t front : Text} (h : ¬ front <+: t) : t.dropFront front = t := by
  rw [Text.dropFront, Text.dropFront?, if_neg fun hp => h (List.isPrefixOf_iff_prefix.mp hp)]
  rfl

def statements (source : Text) : List Statement :=
  Statement.assemble [] 0 (kindsFrom 0 (physicalLines source))

end Layout

def Telemetry.seen (t : Telemetry) (commented : Bool) : Telemetry :=
  { t with lines := t.lines + 1, comments := t.comments + commented.toNat }

def Telemetry.answered (t : Telemetry) (c : Command) : Telemetry :=
  { t with
    commands := t.commands + 1
    continuations := if c.isContinuation then t.continuations + 1 else t.continuations }

namespace Lexer

open Statement (assemble)

structure Before (i : Nat) (l : Lexer) : Prop where
  line : l.line + 1 = l.first + Int64.ofNat i
  unbroken : l.broken = none
  unfinished : l.finished = false
  marked : Layout.MarkedOnce i l.rest
  begun : i = 0 → l.pending = []

def ahead (i : Nat) (l : Lexer) : List Statement :=
  assemble l.pending i (Layout.kindsFrom i l.rest)

/-- What one call of `next` answers, and what it leaves, when `ss` are the
statements ahead and `n` lines are left. -/
inductive Answers (first : Int64) (n : Nat) : List Statement → LexerReply × Lexer → Prop
  | ended {l : Lexer} (hl : l.finished = true) : Answers first n [] (.ended, l)
  | dangling {s : Statement} {l : Lexer} (hs : s.dangling = true) (hl : l.finished = true) :
      Answers first n [s] (.dangling (s.command first), l)
  | command {s : Statement} {i : Nat} {l : Lexer} (hs : s.dangling = false) (hl : l.Before i)
      (hfirst : l.first = first) (hrest : l.rest.length < n) :
      Answers first n (s :: l.ahead i) (.command (s.command first) s.text, l)

theorem ofNat_eq_zero (h : i < 2 ^ 64) : Int64.ofNat i = 0 ↔ i = 0 := by
  constructor
  · intro hi
    have hbits : i % 2 ^ 64 = 0 := congrArg (fun x : Int64 => x.toBitVec.toNat) hi
    rwa [Nat.mod_eq_of_lt h] at hbits
  · rintro rfl
    rfl

theorem advance_text (hl : l.Before i) {raw : Text} {rest : List Text}
    (hrest : l.rest = raw :: rest) :
    (l.advance raw rest).1 = if i = 0 then raw.dropFront Layout.byteOrderMark else raw := by
  have hmarked := hl.marked
  rw [hrest] at hmarked
  unfold advance
  dsimp only
  obtain hfits | hunmarked := hmarked
  · have hfirst : l.line + 1 = l.first ↔ i = 0 := by
      rw [List.length_cons] at hfits
      rw [hl.line, ← ofNat_eq_zero (i := i) (by omega)]
      exact Int64.add_eq_left
    simp only [hfirst]
  · rw [Layout.dropFront_unchanged (hunmarked raw (List.mem_cons_self ..)), ite_self, ite_self]

/-- The lexer behind its next line, but for what it keeps of a statement. -/
def passed (l : Lexer) (rest : List Text) (t : Telemetry) : Lexer :=
  { l with line := l.line + 1, rest, telemetry := t }

theorem readLine_cases (l : Lexer) (raw : Text) (rest : List Text) :
    ∃ commented, l.readLine raw rest =
      match Layout.kind (l.advance raw rest).1 with
      | .blank => (none, l.passed rest
          { l.telemetry.seen commented with blank := l.telemetry.blank + 1 })
      | .joined body => (none, { l.passed rest
          { l.telemetry.seen commented with joined := l.telemetry.joined + 1 } with
            pending := l.pending ++ body ++ [Text.space] })
      | .complete body =>
        (some (.command (Command.ofStatement (Statement.joined l.pending body) (l.line + 1))
          (Statement.joined l.pending body)), { l.passed rest ((l.telemetry.seen commented).answered
            (Command.ofStatement (Statement.joined l.pending body) (l.line + 1)))
              with pending := [] }) := by
  unfold readLine Layout.kind
  generalize hp : l.advance raw rest = p
  have hpassed : ∃ commented, (if (Layout.content p.1).commented then
      p.2.count fun t => { t with comments := t.comments + 1 } else p.2) =
        l.passed rest (l.telemetry.seen commented) := by
    subst hp
    split
    · exact ⟨true, rfl⟩
    · exact ⟨false, rfl⟩
  obtain ⟨commented, hl⟩ := hpassed
  refine ⟨commented, ?_⟩
  simp only [hl]
  cases (Layout.content p.1).kind with
  | blank => rfl
  | joined body => rfl
  | complete body =>
    simp only [Command.parse_eq]
    rfl

theorem Before.passed (hl : l.Before i) {raw : Text} {rest : List Text}
    (hrest : l.rest = raw :: rest) (t : Telemetry) (pending : Text) :
    ({ l.passed rest t with pending } : Lexer).Before (i + 1) where
  line := by
    change l.line + 1 + 1 = l.first + Int64.ofNat (i + 1)
    rw [hl.line, Int64.ofNat_add, ← Int64.add_assoc]
    rfl
  unbroken := hl.unbroken
  unfinished := hl.unfinished
  marked := by
    have hmarked := hl.marked
    rw [hrest] at hmarked
    obtain hfits | hunmarked := hmarked
    · rw [List.length_cons, Nat.add_comm rest.length, ← Nat.add_assoc] at hfits
      exact .inl hfits
    · exact .inr fun r hr => hunmarked r (List.mem_cons_of_mem _ hr)
  begun := by simp

theorem Before.line_eq (hl : l.Before i) (hi : i ≠ 0) : l.line = l.first + Int64.ofNat (i - 1) := by
  obtain ⟨k, rfl⟩ := Nat.exists_eq_succ_of_ne_zero hi
  have hline := hl.line
  rw [Nat.succ_eq_add_one, Int64.ofNat_add, ← Int64.add_assoc] at hline
  exact (Int64.add_left_inj _).mp hline

theorem finish_answers {i n : Nat} (hl : l.Before i) (hrest : l.rest = []) :
    Answers l.first n (l.ahead i) l.finish := by
  have hnone : Layout.kindsFrom i l.rest = [] := by
    rw [hrest]
    cases i <;> rfl
  rw [ahead, hnone, assemble, finish, hl.unbroken]
  dsimp only
  by_cases hpending : l.pending.trim = []
  · rw [if_pos hpending, if_pos hpending]
    exact .ended rfl
  · rw [if_neg hpending, if_neg hpending, hl.line_eq]
    · exact .dangling rfl rfl
    · intro hi
      exact hpending (by rw [hl.begun hi]; rfl)

theorem readUntil_answers {i j n : Nat} (hl : l.Before i) {lines : List Text}
    (hrest : l.rest = lines) (hn : lines.length ≤ n) :
    Answers l.first n (l.ahead i) (readUntil (fun _ => false) j l lines) := by
  induction lines generalizing i j l with
  | nil =>
    have hsame : { l with rest := [] } = l := by rw [← hrest]
    rw [readUntil, if_neg (by simp), hsame]
    exact finish_answers hl hrest
  | cons raw rest ih =>
    rw [List.length_cons] at hn
    obtain ⟨t, ht⟩ := readLine_cases l raw rest
    rw [advance_text hl hrest] at ht
    rw [readUntil, if_neg (by simp), ht, ahead, hrest, Layout.kindsFrom_cons]
    cases Layout.kind (if i = 0 then raw.dropFront Layout.byteOrderMark else raw) with
    | blank => exact ih (hl.passed hrest _ l.pending) rfl (by omega)
    | joined body => exact ih (hl.passed hrest _ _) rfl (by omega)
    | complete body =>
      dsimp only
      rw [hl.line]
      exact .command (s := { text := Statement.joined l.pending body, last := i }) rfl
        (hl.passed hrest _ []) rfl hn

theorem next_answers {i n : Nat} (hl : l.Before i) (hn : l.rest.length ≤ n) :
    Answers l.first n (l.ahead i) l.next := by
  rw [next, nextUnless, if_neg (by simp [hl.unfinished])]
  exact readUntil_answers hl rfl hn

theorem collect_finished (acc : List Command) (hl : l.finished = true) (fuel : Nat) :
    collect false acc l (fuel + 1) = (acc.reverse, none, l) := by
  rw [collect, next, nextUnless, if_pos hl]
  rfl

theorem collect_ahead (acc : List Command) {i fuel : Nat} (hl : l.Before i)
    (hfuel : l.rest.length + 2 ≤ fuel) :
    ∃ l', l'.finished = true ∧ collect false acc l fuel =
      (acc.reverse ++ (l.ahead i).map (Statement.command l.first), none, l') := by
  induction fuel generalizing acc i l with
  | zero => omega
  | succ fuel ih =>
    have hnext := next_answers hl (n := l.rest.length) le_rfl
    rw [collect]
    generalize l.ahead i = ss at hnext ⊢
    cases h : l.next with
    | mk reply l' =>
      rw [h] at hnext
      cases hnext with
      | ended hl' => exact ⟨l', hl', by simp⟩
      | @dangling s _ _ hl' =>
        obtain ⟨fuel, rfl⟩ := Nat.exists_eq_succ_of_ne_zero (n := fuel) (by omega)
        exact ⟨l', hl', by simp [collect_finished _ hl']⟩
      | @command s _ _ _ hl' hfirst hrest =>
        obtain ⟨l'', hfinished, hcollect⟩ := ih (s.command l.first :: acc) hl' (by omega)
        refine ⟨l'', hfinished, ?_⟩
        dsimp only
        rw [hcollect, hfirst]
        simp

theorem ofText_before (source : Text) (first : Int64)
    (h : Layout.MarkedOnce 0 (Layout.physicalLines source)) : (ofText source first).Before 0 where
  line := by simp [ofText]
  unbroken := rfl
  unfinished := rfl
  marked := h
  begun := fun _ => rfl

theorem all_eq (source : Text) (first : Int64)
    (h : Layout.MarkedOnce 0 (Layout.physicalLines source)) :
    ∃ l, l.finished = true ∧ (ofText source first).all =
      ((Layout.statements source).map (Statement.command first), none, l) :=
  collect_ahead [] (ofText_before source first h) le_rfl

end Lexer

theorem Command.parseAll_eq (source : Text) (first : Int64)
    (h : Layout.MarkedOnce 0 (Layout.physicalLines source)) :
    Command.parseAll source first =
      ((Layout.statements source).map (Statement.command first), none) := by
  obtain ⟨l, -, hall⟩ := Lexer.all_eq source first h
  rw [parseAll, hall]

end Toolpath
