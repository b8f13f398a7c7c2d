import Toolpath.Proofs.Statements

/-!
# What the counters of a lexer say

Each physical line is blank, joined to the next one or completes a command, and
is counted as that and as a line. Only the statement that a program leaves
unfinished is answered with a command and no line of its own; nothing is
answered behind it.
-/

namespace Toolpath

namespace LexerReply

def command? : LexerReply → Option Command
  | command c _ => some c
  | dangling c => some c
  | _ => none

def isDangling : LexerReply → Bool
  | dangling _ => true
  | _ => false

/-- The commands answered whose last is one that was never completed: one, or none. -/
def dangled (replies : List LexerReply) : Nat :=
  if (replies.filter fun r => r.command?.isSome).getLast?.any isDangling then 1 else 0

theorem dangled_concat (replies : List LexerReply) (r : LexerReply) :
    dangled (replies ++ [r]) = if r.command?.isSome then r.isDangling.toNat else
      dangled replies := by
  cases h : r.command?.isSome with
  | false => simp [dangled, h]
  | true => cases hr : r.isDangling <;> simp [dangled, h, hr]

end LexerReply

open LexerReply (dangled)

/-- The counters of a lexer that answered the commands `cs`, `k` of them never completed. -/
structure Telemetry.Balanced (t : Telemetry) (cs : List Command) (k : Nat) : Prop where
  lines : t.lines + k = t.blank + t.joined + t.commands
  comments : t.comments ≤ t.lines
  commands : t.commands = cs.length
  continuations : t.continuations = cs.countP Command.isContinuation

namespace Telemetry.Balanced

variable {t : Telemetry} {cs : List Command} {k : Nat}

theorem blank (h : t.Balanced cs k) (commented : Bool) :
    Balanced { t.seen commented with blank := t.blank + 1 } cs k where
  lines := by have := h.lines; simp only [seen]; omega
  comments := Nat.add_le_add h.comments commented.toNat_le
  commands := h.commands
  continuations := h.continuations

theorem joined (h : t.Balanced cs k) (commented : Bool) :
    Balanced { t.seen commented with joined := t.joined + 1 } cs k where
  lines := by have := h.lines; simp only [seen]; omega
  comments := Nat.add_le_add h.comments commented.toNat_le
  commands := h.commands
  continuations := h.continuations

theorem answered (h : t.Balanced cs k) (c : Command) (commented : Bool) :
    ((t.seen commented).answered c).Balanced (cs ++ [c]) k where
  lines := by have := h.lines; simp only [seen, Telemetry.answered]; omega
  comments := Nat.add_le_add h.comments commented.toNat_le
  commands := by simp [seen, Telemetry.answered, h.commands]
  continuations := by
    cases hc : c.isContinuation <;> simp [seen, Telemetry.answered, h.continuations, hc]

theorem flushed (h : t.Balanced cs 0) (c : Command) : (t.answered c).Balanced (cs ++ [c]) 1 where
  lines := by have := h.lines; simp only [Telemetry.answered]; omega
  comments := h.comments
  commands := by simp [Telemetry.answered, h.commands]
  continuations := by cases hc : c.isContinuation <;> simp [Telemetry.answered, h.continuations, hc]

end Telemetry.Balanced

namespace Lexer

/-- A lexer for `total` lines behind the replies it gave. -/
structure Accounted (total : Nat) (replies : List LexerReply) (l : Lexer) : Prop where
  balanced : l.telemetry.Balanced (replies.filterMap LexerReply.command?) (dangled replies)
  read : l.telemetry.lines + l.rest.length = total
  going : l.finished = false → dangled replies = 0
  ended : l.finished = true → l.rest = []

variable {total : Nat} {replies : List LexerReply} {l : Lexer}

theorem Accounted.silent (h : l.Accounted total replies) {r : LexerReply} (hr : r.command? = none) :
    l.Accounted total (replies ++ [r]) := by
  have hdangled : dangled (replies ++ [r]) = dangled replies := by
    simp [LexerReply.dangled_concat, hr]
  refine ⟨?_, h.read, fun hgoing => hdangled.trans (h.going hgoing), h.ended⟩
  rw [hdangled, List.filterMap_append, List.filterMap_cons_none hr, List.filterMap_nil,
    List.append_nil]
  exact h.balanced

theorem Accounted.finish (h : l.Accounted total replies) (hgoing : l.finished = false)
    (hrest : l.rest = []) : l.finish.2.Accounted total (replies ++ [l.finish.1]) := by
  unfold Lexer.finish
  cases l.broken with
  | some reason => exact h.silent rfl
  | none =>
    dsimp only
    split
    next =>
      have hended : Accounted total replies
          { l with broken := none, finished := true, pending := [] } :=
        ⟨h.balanced, h.read, fun hf => absurd hf (by simp), fun _ => hrest⟩
      exact hended.silent (r := .ended) rfl
    next =>
      -- the only command without a line of its own; the lexer is finished behind it
      generalize Command.withParameters Command.continuationWord l.pending.trim l.line = c
      have hbalanced := h.balanced
      rw [h.going hgoing] at hbalanced
      have hdangled : dangled (replies ++ [.dangling c]) = 1 := LexerReply.dangled_concat ..
      refine ⟨?_, h.read, fun hf => absurd hf (by simp [countCommand, count]), fun _ => hrest⟩
      rw [hdangled, List.filterMap_append]
      exact hbalanced.flushed c

theorem Accounted.passed (h : l.Accounted total replies) (hgoing : l.finished = false) {raw : Text}
    {rest : List Text} (hrest : l.rest = raw :: rest) {replies' : List LexerReply} {t : Telemetry}
    (hbalanced : t.Balanced (replies'.filterMap LexerReply.command?) (dangled replies'))
    (hdangled : dangled replies' = 0) (ht : t.lines = l.telemetry.lines + 1) (pending : Text) :
    ({ l.passed rest t with pending } : Lexer).Accounted total replies' := by
  refine ⟨hbalanced, ?_, fun _ => hdangled, fun hf => absurd (hf.symm.trans hgoing) (by simp)⟩
  have hread := h.read
  rw [hrest, List.length_cons] at hread
  change t.lines + rest.length = total
  omega

theorem Accounted.readUntil (h : l.Accounted total replies) (hgoing : l.finished = false)
    (stop : Nat → Bool) (i : Nat) {lines : List Text} (hlines : l.rest = lines) :
    (l.readUntil stop i lines).2.Accounted total (replies ++ [(l.readUntil stop i lines).1]) := by
  induction lines generalizing i l with
  | nil =>
    have hl : { l with rest := [] } = l := by rw [← hlines]
    rw [Lexer.readUntil, hl]
    split
    · exact h.silent rfl
    · exact h.finish hgoing hlines
  | cons raw rest ih =>
    rw [Lexer.readUntil]
    split
    · rw [← hlines]
      exact h.silent rfl
    · obtain ⟨commented, hread⟩ := readLine_cases l raw rest
      rw [hread]
      -- a line that completes nothing is passed for the same replies
      cases Layout.kind (l.advance raw rest).1 with
      | blank =>
        exact ih (h.passed hgoing hlines (h.balanced.blank commented) (h.going hgoing) rfl _)
          hgoing _ rfl
      | joined body =>
        exact ih (h.passed hgoing hlines (h.balanced.joined commented) (h.going hgoing) rfl _)
          hgoing _ rfl
      | complete body =>
        dsimp only
        generalize hs : Statement.joined l.pending body = text
        generalize Command.ofStatement text (l.line + 1) = c
        have hdangled : dangled (replies ++ [.command c text]) = 0 := LexerReply.dangled_concat ..
        refine h.passed hgoing hlines ?_ hdangled rfl []
        have hbalanced := h.balanced
        rw [h.going hgoing] at hbalanced
        rw [hdangled, List.filterMap_append]
        exact hbalanced.answered c commented

theorem Accounted.nextUnless (h : l.Accounted total replies) (stop : Nat → Bool) :
    (l.nextUnless stop).2.Accounted total (replies ++ [(l.nextUnless stop).1]) := by
  unfold Lexer.nextUnless
  cases hfinished : l.finished with
  | true =>
    refine h.silent ?_
    cases hstop : stop 0 <;> rfl
  | false => exact h.readUntil hfinished stop 0 rfl

def repliesTo (l : Lexer) : List (Nat → Bool) → List LexerReply × Lexer
  | [] => ([], l)
  | stop :: stops =>
    let (reply, l) := l.nextUnless stop
    let (replies, l) := l.repliesTo stops
    (reply :: replies, l)

theorem Accounted.repliesTo (h : l.Accounted total replies) (stops : List (Nat → Bool)) :
    (l.repliesTo stops).2.Accounted total (replies ++ (l.repliesTo stops).1) := by
  induction stops generalizing l replies with
  | nil => rwa [Lexer.repliesTo, List.append_nil]
  | cons stop stops ih =>
    have hrest := ih (h.nextUnless stop)
    rwa [List.append_assoc, List.singleton_append] at hrest

/-- Whatever was read of a program, its lines are the blank ones, the joined ones and those that
completed a command, which are all commands but one that was never completed. -/
theorem lines_accounted (source : Text) (first : Int64) (stops : List (Nat → Bool)) :
    let replies := ((ofText source first).repliesTo stops).1
    let l := ((ofText source first).repliesTo stops).2
    let commands := replies.filterMap LexerReply.command?
    (l.telemetry.lines : Int) =
        l.telemetry.blank + l.telemetry.joined + l.telemetry.commands - dangled replies ∧
      l.telemetry.comments ≤ l.telemetry.lines ∧
      l.telemetry.commands = commands.length ∧
      l.telemetry.continuations = commands.countP Command.isContinuation ∧
      (l.finished = true → l.telemetry.lines = (Layout.physicalLines source).length) := by
  have hstart : (ofText source first).Accounted (Layout.physicalLines source).length [] :=
    ⟨⟨rfl, le_rfl, rfl, rfl⟩, Nat.zero_add _, fun _ => rfl, fun h => absurd h (by simp [ofText])⟩
  have h := hstart.repliesTo stops
  rw [List.nil_append] at h
  have hlines := h.balanced.lines
  refine ⟨by omega, h.balanced.comments, h.balanced.commands, h.balanced.continuations, ?_⟩
  intro hfinished
  have hread := h.read
  rwa [h.ended hfinished] at hread

end Lexer
end Toolpath
