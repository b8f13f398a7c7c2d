import Mathlib.Algebra.Order.Ring.Int
import Toolpath.Proofs.LayoutEdits

/-!
# A program behind another

A program may be cut at every line end behind which no statement goes on. Read one after the
other, its two parts say what the whole says, when the second part is numbered on from the first.
-/

namespace Toolpath

open Text (newline)

variable {i : Nat} {t : Text}

namespace Statement

/-- What lines of these kinds leave of a statement that goes on behind them. -/
def unfinished (pending : Text) : List LineKind → Text
  | [] => pending
  | .blank :: ks => unfinished pending ks
  | .joined body :: ks => unfinished (pending ++ body ++ [Text.space]) ks
  | .complete _ :: ks => unfinished [] ks

/-- Where no statement goes on, the statements of the lines before are complete. -/
theorem assemble_append {pending : Text} {ks : List LineKind} (ks' : List LineKind)
    (h : unfinished pending ks = []) :
    assemble pending i (ks ++ ks') = assemble pending i ks ++ assemble [] (i + ks.length) ks' := by
  induction ks generalizing pending i with
  | nil =>
    obtain rfl : pending = [] := h
    rfl
  | cons k ks ih =>
    rw [List.cons_append, List.length_cons, Nat.add_comm ks.length, ← Nat.add_assoc]
    cases k with
    | blank => exact ih h
    | joined body => exact ih h
    | complete body => exact congrArg (List.cons _) (ih h)

theorem assemble_renumbered (first : Int64) (k : Nat) (pending : Text) (ks : List LineKind)
    (hbegun : i = 0 → pending = []) :
    (assemble pending (k + i) ks).map (command first) =
      (assemble pending i ks).map (command (first + Int64.ofNat k)) := by
  induction ks generalizing pending i with
  | nil =>
    rw [assemble, assemble]
    split
    case isTrue => rfl
    case isFalse hpending =>
      obtain ⟨j, rfl⟩ : ∃ j, i = j + 1 := by
        refine Nat.exists_eq_succ_of_ne_zero fun hi => hpending ?_
        rw [hbegun hi]
        rfl
      have hline : Int64.ofNat (k + (j + 1) - 1) = Int64.ofNat k + Int64.ofNat (j + 1 - 1) :=
        Int64.ofNat_add k j
      simp only [List.map_cons, List.map_nil, command, if_true, hline, Int64.add_assoc]
  | cons kind ks ih =>
    have hlater (pending : Text) : i + 1 = 0 → pending = [] := fun h => absurd h i.succ_ne_zero
    cases kind with
    | blank => exact ih pending (hlater _)
    | joined body => exact ih _ (hlater _)
    | complete body =>
      rw [assemble, assemble, List.map_cons, List.map_cons]
      refine congrArg₂ List.cons ?_ (ih [] (hlater _))
      simp only [command, Bool.false_eq_true, if_false, Int64.ofNat_add, Int64.add_assoc]

end Statement

namespace Lexer

def readOn (l : Lexer) : List Text → Lexer
  | [] => l
  | raw :: rest => (l.readLine raw rest).2.readOn rest

theorem readOn_pending {l : Lexer} (hl : l.Before i) {lines : List Text} (hrest : l.rest = lines) :
    (l.readOn lines).pending = Statement.unfinished l.pending (Layout.kindsFrom i lines) := by
  induction lines generalizing i l with
  | nil => cases i <;> rfl
  | cons raw rest ih =>
    obtain ⟨t, ht⟩ := readLine_cases l raw rest
    rw [advance_text hl hrest] at ht
    rw [readOn, ht, Layout.kindsFrom_cons]
    cases Layout.kind (if i = 0 then raw.dropFront Layout.byteOrderMark else raw) with
    | blank => exact ih (hl.passed hrest _ l.pending) rfl
    | joined body => exact ih (hl.passed hrest _ _) rfl
    | complete body => exact ih (hl.passed hrest _ []) rfl

end Lexer

namespace Layout

theorem Lines.getLast? {front : Text} (h : Lines front) (hne : front ≠ []) :
    front.getLast? = some newline := by
  induction h with
  | nil => exact absurd rfl hne
  | @cons t u _ _ ih =>
    by_cases hu : u = []
    · rw [hu, List.getLast?_append_cons, List.getLast?_singleton]
    · rw [List.getLast?_append_cons, List.getLast?_cons_of_ne_nil hu, ih hu]

theorem physicalLines_ne_nil (hne : t ≠ []) : physicalLines t ≠ [] := by
  obtain ⟨front, x, rfl, hfront, hx⟩ := exists_lines t
  cases hfront with
  | nil =>
    rw [List.nil_append, physicalLines_single hx hne]
    exact List.cons_ne_nil _ _
  | cons ht _ =>
    rw [List.append_assoc, List.cons_append, physicalLines_cons ht]
    exact List.cons_ne_nil _ _

/-- The lines of a text once a line end is put behind it: an empty text becomes an empty line. -/
def closedLines (t : Text) : List Text := if t = [] then [[]] else physicalLines t

theorem closedLines_of_ne_nil (h : t ≠ []) : closedLines t = physicalLines t := if_neg h

theorem length_closedLines (t : Text) :
    (closedLines t).length = max 1 (physicalLines t).length := by
  by_cases h : t = []
  · rw [h]
    rfl
  · rw [closedLines_of_ne_nil h, max_eq_right (List.length_pos_iff.mpr (physicalLines_ne_nil h))]

theorem physicalLines_append_newline (h : t.getLast? ≠ some newline) (v : Text) :
    physicalLines (t ++ newline :: v) = closedLines t ++ physicalLines v := by
  by_cases hne : t = []
  · rw [hne, physicalLines_cons (by simp)]
    rfl
  rw [closedLines_of_ne_nil hne]
  obtain ⟨front, x, rfl, hfront, hx⟩ := exists_lines t
  have hopen : x ≠ [] := by
    rintro rfl
    rw [List.append_nil] at h hne
    exact h (hfront.getLast? hne)
  rw [List.append_assoc, physicalLines_append hfront, physicalLines_cons hx,
    physicalLines_append hfront, physicalLines_single hx hopen, List.append_assoc,
    List.singleton_append]

theorem statements_eq (t : Text) :
    statements t = Statement.assemble [] 0 (kindsFrom 0 (closedLines t)) := by
  by_cases h : t = []
  · rw [h]
    rfl
  · rw [closedLines_of_ne_nil h, statements]

end Layout

theorem Lexer.unfinished_eq_nil {first : Int64}
    (hlines : Layout.MarkedOnce 0 (Layout.physicalLines t))
    (h : ((ofText t first).readOn (Layout.physicalLines t)).pending = []) :
    Statement.unfinished [] (Layout.kindsFrom 0 (Layout.closedLines t)) = [] := by
  by_cases hne : t = []
  · rw [hne]
    rfl
  · rw [Layout.closedLines_of_ne_nil hne]
    exact (readOn_pending (ofText_before t first hlines) rfl).symm.trans h

open Layout (physicalLines closedLines byteOrderMark) in
/-- A text without a final line end, behind which no statement goes on, and a text without a
byte order mark in front are read as one text just as they are read one by one, when the
second is numbered on from the first. -/
theorem appended_texts_read_apart {s₁ s₂ : Text} {n : Int64} (hopen : s₁.getLast? ≠ some newline)
    (hwhole : ((Lexer.ofText s₁ n).readOn (physicalLines s₁)).pending = [])
    (hmark : ¬ byteOrderMark <+: s₂)
    (hn : n.toInt + (physicalLines (s₁ ++ newline :: s₂)).length ≤ 2 ^ 63) :
    ∃ cs₁ cs₂, Command.parseAll s₁ n = (cs₁, none) ∧
      Command.parseAll s₂ (n + Int64.ofNat (max 1 (physicalLines s₁).length)) = (cs₂, none) ∧
      Command.parseAll (s₁ ++ newline :: s₂) n = (cs₁ ++ cs₂, none) := by
  have hlow := n.le_toInt
  have hlines := Layout.physicalLines_append_newline hopen s₂
  have hclosed := Layout.length_closedLines s₁
  have hlength := congrArg List.length hlines
  rw [List.length_append] at hlength
  have hmarked₁ : Layout.MarkedOnce 0 (physicalLines s₁) := .inl (by omega)
  have hunmarked : ∀ i,
      Layout.kindsFrom i (physicalLines s₂) = (physicalLines s₂).map Layout.kind :=
    Layout.kindsFrom_of_unmarked fun l hl h => hmark (h.trans (Layout.prefix_of_head? hl))
  have hstatements : Layout.statements (s₁ ++ newline :: s₂) = Layout.statements s₁ ++
      Statement.assemble [] (max 1 (physicalLines s₁).length + 0)
        (Layout.kindsFrom 0 (physicalLines s₂)) := by
    rw [Layout.statements, hlines, Layout.kindsFrom_append,
      Statement.assemble_append _ (Lexer.unfinished_eq_nil hmarked₁ hwhole), ← Layout.statements_eq,
      Layout.length_kindsFrom, hclosed, hunmarked, hunmarked, Nat.zero_add, Nat.add_zero]
  refine ⟨_, _, Command.parseAll_eq s₁ n hmarked₁, Command.parseAll_eq s₂ _ (.inl (by omega)), ?_⟩
  rw [Command.parseAll_eq _ n (.inl (by omega)), hstatements, List.map_append,
    Statement.assemble_renumbered n _ [] _ fun _ => rfl]
  rfl

/-- A marked text with a statement over two lines, and one that ends where a statement was
to go on. -/
theorem appended_texts_read_apart_marked :
    let s₁ := Layout.byteOrderMark ++ Text.ofString "GOTO/1,$\n  2,3\r\n$$ end\nFINI"
    let s₂ := Text.ofString "\nPARTNO bracket\nGOTO/4 $"
    s₁.getLast? ≠ some newline ∧
      ((Lexer.ofText s₁ 7).readOn (Layout.physicalLines s₁)).pending = [] ∧
      ¬ Layout.byteOrderMark <+: s₂ ∧
      (7 : Int64).toInt + (Layout.physicalLines (s₁ ++ newline :: s₂)).length ≤ 2 ^ 63 ∧
      (Command.parseAll (s₁ ++ newline :: s₂) 7).1.map (·.line) = [8, 10, 12, 13] ∧
      ∃ cs₁ cs₂, Command.parseAll s₁ 7 = (cs₁, none) ∧ Command.parseAll s₂ (7 + 4) = (cs₂, none) ∧
        Command.parseAll (s₁ ++ newline :: s₂) 7 = (cs₁ ++ cs₂, none) := by
  intro s₁ s₂
  have hopen : s₁.getLast? ≠ some newline := by decide
  have hwhole : ((Lexer.ofText s₁ 7).readOn (Layout.physicalLines s₁)).pending = [] := by
    decide +kernel
  have hmark : ¬ Layout.byteOrderMark <+: s₂ := by decide
  have hn : (7 : Int64).toInt + (Layout.physicalLines (s₁ ++ newline :: s₂)).length ≤ 2 ^ 63 := by
    decide +kernel
  have hcount : Int64.ofNat (max 1 (Layout.physicalLines s₁).length) = 4 := by decide +kernel
  have h := appended_texts_read_apart hopen hwhole hmark hn
  rw [hcount] at h
  exact ⟨hopen, hwhole, hmark, hn, by decide +kernel, h⟩

end Toolpath
