import Toolpath.Proofs.PhysicalLines

/-!
# Layout does not matter

A line end may get a carriage return, a line may get blanks or a comment at its end, and lines
that are blank but for a comment may be put in anywhere, also inside a statement. The commands
stay what they are. Only their line numbers follow the physical lines.
-/

namespace Toolpath

open Text (newline carriageReturn dollar)

def Command.content (c : Command) : Text × List Text × List Float × List Text :=
  (c.major, c.minor, c.numeric, c.strings)

variable {move : Nat → Nat} {b source source' : Text}

namespace Statement

def behind (k i : Nat) : Nat := if i < k then i else i + 1

/-- The statement in a new layout of `n` lines, where line `i` is now line `move i`. -/
def moved (move : Nat → Nat) (n : Nat) (s : Statement) : Statement :=
  { s with last := if s.dangling then n - 1 else move s.last }

theorem assemble_moved_id (pending : Text) (i : Nat) (ks : List LineKind) :
    assemble pending i ks = (assemble pending i ks).map (moved id (i + ks.length)) := by
  induction ks generalizing pending i with
  | nil =>
    rw [assemble]
    split_ifs
    · rfl
    · rfl
  | cons k ks ih =>
    rw [List.length_cons, Nat.add_comm ks.length, ← Nat.add_assoc]
    cases k with
    | blank => exact ih pending (i + 1)
    | joined body => exact ih _ (i + 1)
    | complete body => exact congrArg (List.cons _) (ih [] (i + 1))

theorem assemble_succ (pending : Text) {i : Nat} (ks : List LineKind)
    (hmove : ∀ j, i ≤ j → move j = j + 1) :
    assemble pending (i + 1) ks = (assemble pending i ks).map (moved move (i + 1 + ks.length)) := by
  induction ks generalizing pending i with
  | nil =>
    rw [assemble, assemble]
    split_ifs
    · rfl
    · rfl
  | cons k ks ih =>
    have hnext : ∀ j, i + 1 ≤ j → move j = j + 1 := fun j hj => hmove j (by omega)
    rw [List.length_cons, Nat.add_comm ks.length, ← Nat.add_assoc]
    cases k with
    | blank => exact ih pending hnext
    | joined body => exact ih _ hnext
    | complete body =>
      rw [assemble, assemble, ih [] hnext, List.map_cons, moved, if_neg (by simp),
        hmove i le_rfl]

/-- A blank line adds no statement and moves those that end behind it. -/
theorem assemble_insert (pending : Text) (i : Nat) (ks ks' : List LineKind) :
    assemble pending i (ks ++ .blank :: ks') =
      (assemble pending i (ks ++ ks')).map
        (moved (behind (i + ks.length)) (i + (ks ++ ks').length + 1)) := by
  induction ks generalizing pending i with
  | nil =>
    rw [List.nil_append, List.nil_append, assemble, Nat.add_right_comm]
    apply assemble_succ
    intro j hj
    exact if_neg (by simpa using hj)
  | cons k ks ih =>
    have hlength : i + ((k :: ks) ++ ks').length = i + 1 + (ks ++ ks').length := by
      rw [List.cons_append, List.length_cons]
      omega
    have hbehind : i + (k :: ks).length = i + 1 + ks.length := by
      rw [List.length_cons]
      omega
    rw [hlength, hbehind, List.cons_append, List.cons_append]
    cases k with
    | blank => exact ih pending (i + 1)
    | joined body => exact ih _ (i + 1)
    | complete body =>
      have hkept : behind (i + 1 + ks.length) i = i := if_pos (by omega)
      rw [assemble, assemble, ih, List.map_cons, moved, if_neg (by simp), hkept]

theorem content_moved (move : Nat → Nat) (n : Nat) (first : Int64) (s : Statement) :
    ((s.moved move n).command first).content = (s.command first).content := by
  unfold command moved
  split
  · rfl
  · rfl

end Statement

namespace Layout

def lastLine (u : Text) : Text := (Text.split newline u).getLastD []

structure LineEnd (u v : Text) : Prop where
  ends : v = [] ∨ [newline] <+: v ∨ [carriageReturn, newline] <+: v
  exists_line : v = [] → lastLine u ≠ []

def Idle (b : Text) : Prop :=
  newline ∉ b ∧
    (b.isAllBlank = true ∨ ∃ w c, w.isAllBlank = true ∧ b = w ++ dollar :: dollar :: c)

/-- One change of layout from a source to another, and where it moves the lines. -/
inductive Relaid : Text → Text → (Nat → Nat) → Prop
  | carriageReturn (u v : Text) :
      Relaid (u ++ newline :: v) (u ++ carriageReturn :: newline :: v) id
  | blanks {u v w : Text} (hline : LineEnd u v) (hw : w.isAllBlank = true) (hn : newline ∉ w) :
      Relaid (u ++ v) (u ++ (w ++ v)) id
  | comment {u v w c : Text} (hline : LineEnd u v) (hw : w.isAllBlank = true) (hn : newline ∉ w)
      (hc : newline ∉ c) (hu : Commentable (lastLine u))
      (hgap : w ≠ [] ∨ (lastLine u).getLast? ≠ some dollar) :
      Relaid (u ++ v) (u ++ (w ++ dollar :: dollar :: c ++ v)) id
  | line {u v b : Text} (hb : Idle b) (hu : lastLine u = [])
      (hmark : u = [] → ¬ byteOrderMark <+: v) :
      Relaid (u ++ v) (u ++ (b ++ newline :: v)) (Statement.behind (u.count newline))
  | openLine {u b : Text} (hb : Idle b) (hne : b ≠ []) (hu : lastLine u = []) :
      Relaid u (u ++ b) (Statement.behind (u.count newline))
  | lineBehind {u b t : Text} (hb : Idle b) (hu : lastLine u ≠ [])
      (ht : t = [newline] ∨ t = [] ∧ b ≠ []) :
      Relaid u (u ++ newline :: (b ++ t)) (Statement.behind (u.count newline + 1))

theorem lastLine_append {front x : Text} (hfront : Lines front) (hx : newline ∉ x) :
    lastLine (front ++ x) = x := by
  induction hfront with
  | nil => simp [lastLine, Text.split_of_not_mem hx]
  | @cons t u _ _ ih =>
    have hne := Text.split_ne_nil newline (u ++ x)
    rw [lastLine, List.append_assoc, List.cons_append, Text.split_append_cons]
    rw [lastLine] at ih
    rw [List.getLastD_eq_getLast?,
      List.getLast?_append_of_ne_nil _ hne, ← List.getLastD_eq_getLast?, ih]

theorem lines_of_lastLine {u : Text} (h : lastLine u = []) : Lines u := by
  obtain ⟨front, x, rfl, hfront, hx⟩ := exists_lines u
  rw [lastLine_append hfront hx] at h
  rw [h, List.append_nil]
  exact hfront

theorem length_physicalLines {front : Text} (h : Lines front) :
    (physicalLines front).length = front.count newline := by
  induction h with
  | nil => rfl
  | @cons t u ht _ ih =>
    rw [physicalLines_cons ht, List.length_cons, ih, List.count_append, List.count_cons_self,
      List.count_eq_zero.mpr ht, Nat.zero_add]

theorem Idle.alike (hb : Idle b) : Alike [] b := by
  obtain ⟨-, hw | ⟨w, c, hw, rfl⟩⟩ := hb
  · exact alike_blanks [] hw
  · exact alike_comment (.inl rfl) hw (.inr (by simp)) c

theorem kindsFrom_idle (hb : Idle b) (i : Nat) (rest : List Text) :
    kindsFrom i (stripReturn b :: rest) = .blank :: kindsFrom (i + 1) rest := by
  rw [← kindsFrom_alike (hb.alike.trans (alike_stripReturn b).symm), kindsFrom_cons]
  split
  · rfl
  · rfl

theorem kinds_alike {front z z' : Text} (back : Text) (hfront : Lines front) (hz : newline ∉ z)
    (hz' : newline ∉ z') (h : Alike z z')
    (hback : back = [] ∧ z ≠ [] ∧ z' ≠ [] ∨ ∃ r, back = newline :: r) :
    kindsFrom 0 (physicalLines (front ++ (z' ++ back))) =
      kindsFrom 0 (physicalLines (front ++ (z ++ back))) := by
  have halike : Alike (stripReturn z') (stripReturn z) :=
    ((alike_stripReturn z').trans h.symm).trans (alike_stripReturn z).symm
  rw [physicalLines_append hfront, physicalLines_append hfront, kindsFrom_append, kindsFrom_append]
  obtain ⟨rfl, hne, hne'⟩ | ⟨r, rfl⟩ := hback
  · rw [List.append_nil, List.append_nil, physicalLines_single hz hne,
      physicalLines_single hz' hne', kindsFrom_alike halike]
  · rw [physicalLines_cons hz, physicalLines_cons hz', kindsFrom_alike halike]

theorem kinds_at_end {u v w : Text} (hline : LineEnd u v) (hw : newline ∉ w)
    (h : ∀ y, y.isAllBlank = true → newline ∉ y →
      Alike (lastLine u ++ y) (lastLine u ++ (w ++ y))) :
    kindsFrom 0 (physicalLines (u ++ (w ++ v))) = kindsFrom 0 (physicalLines (u ++ v)) := by
  obtain ⟨front, x, rfl, hfront, hx⟩ := exists_lines u
  have hends := hline.ends
  have hexists := hline.exists_line
  rw [lastLine_append hfront hx] at h hexists
  obtain rfl | ⟨r, rfl⟩ | ⟨r, rfl⟩ := hends
  · -- the last line has no line end
    have hne : x ≠ [] := hexists rfl
    have hkinds := kinds_alike [] hfront (by simpa using hx) (by simp [hx, hw])
      (h [] rfl (by simp)) (.inl ⟨rfl, by simp [hne]⟩)
    simpa using hkinds
  · have hkinds := kinds_alike (newline :: r) hfront (by simpa using hx) (by simp [hx, hw])
      (h [] rfl (by simp)) (.inr ⟨r, rfl⟩)
    simpa using hkinds
  · have hreturn : newline ∉ [carriageReturn] := by decide
    have hkinds := kinds_alike (newline :: r) hfront (by simp [hx, hreturn])
      (by simp [hx, hw, hreturn]) (h _ (by decide) hreturn) (.inr ⟨r, rfl⟩)
    simpa using hkinds

theorem prefix_of_head? {v l : Text} (h : (physicalLines v).head? = some l) : l <+: v := by
  obtain ⟨front, x, rfl, hfront, hx⟩ := exists_lines v
  cases hfront with
  | nil =>
    rw [List.nil_append] at h ⊢
    by_cases hne : x = []
    · rw [hne] at h
      cases h
    · rw [physicalLines_single hx hne] at h
      obtain rfl := Option.some.inj h
      exact stripReturn_front x
  | @cons t u ht _ =>
    rw [List.append_assoc, List.cons_append] at h ⊢
    rw [physicalLines_cons ht] at h
    obtain rfl := Option.some.inj h
    exact (stripReturn_front t).trans (List.prefix_append ..)

/-- The lines of the second source are those of the first by their kinds, but for a blank
one behind the first `n`. -/
def Gains (source source' : Text) (n : Nat) : Prop :=
  ∃ ks ks', ks.length = n ∧ kindsFrom 0 (physicalLines source) = ks ++ ks' ∧
    kindsFrom 0 (physicalLines source') = ks ++ .blank :: ks'

theorem gains_of_lines (ls rs : List Text) (hb : Idle b)
    (h : physicalLines source = ls ++ rs) (h' : physicalLines source' = ls ++ stripReturn b :: rs)
    (hrs : ls = [] → kindsFrom 0 rs = rs.map kind) : Gains source source' ls.length := by
  refine ⟨kindsFrom 0 ls, kindsFrom (0 + ls.length) rs, length_kindsFrom 0 ls, ?_, ?_⟩
  · rw [h, kindsFrom_append]
  · rw [h', kindsFrom_append, kindsFrom_idle hb]
    congr 2
    cases ls with
    | nil => exact (hrs rfl).symm
    | cons l ls => rfl

theorem gains_line {u v b : Text} (hb : Idle b) (hu : lastLine u = [])
    (hmark : u = [] → ¬ byteOrderMark <+: v) :
    Gains (u ++ v) (u ++ (b ++ newline :: v)) (u.count newline) := by
  have hlines := lines_of_lastLine hu
  have hcount := length_physicalLines hlines
  have hnew : physicalLines (u ++ (b ++ newline :: v)) =
      physicalLines u ++ stripReturn b :: physicalLines v := by
    rw [physicalLines_append hlines, physicalLines_cons hb.1]
  rw [← hcount]
  refine gains_of_lines _ _ hb (physicalLines_append hlines v) hnew fun hnil => ?_
  rw [hnil] at hcount
  -- Only in front of the first line does it matter whether that line has a mark.
  cases hlines with
  | nil => exact kindsFrom_of_unmarked (fun l hl h => hmark rfl (h.trans (prefix_of_head? hl))) 0
  | cons => simp at hcount

theorem gains_openLine {u b : Text} (hb : Idle b) (hne : b ≠ []) (hu : lastLine u = []) :
    Gains u (u ++ b) (u.count newline) := by
  have hlines := lines_of_lastLine hu
  have hnew : physicalLines (u ++ b) = physicalLines u ++ [stripReturn b] := by
    rw [physicalLines_append hlines, physicalLines_single hb.1 hne]
  rw [← length_physicalLines hlines]
  exact gains_of_lines _ [] hb (List.append_nil _).symm hnew fun _ => rfl

theorem gains_lineBehind {u b t : Text} (hb : Idle b) (hu : lastLine u ≠ [])
    (ht : t = [newline] ∨ t = [] ∧ b ≠ []) :
    Gains u (u ++ newline :: (b ++ t)) (u.count newline + 1) := by
  obtain ⟨front, x, rfl, hfront, hx⟩ := exists_lines u
  rw [lastLine_append hfront hx] at hu
  have hold : physicalLines (front ++ x) = physicalLines front ++ [stripReturn x] := by
    rw [physicalLines_append hfront, physicalLines_single hx hu]
  have hlast : physicalLines (b ++ t) = [stripReturn b] := by
    obtain rfl | ⟨rfl, hne⟩ := ht
    · rw [physicalLines_cons hb.1, physicalLines_nil]
    · rw [List.append_nil, physicalLines_single hb.1 hne]
  have hnew : physicalLines (front ++ x ++ newline :: (b ++ t)) =
      physicalLines front ++ [stripReturn x] ++ [stripReturn b] := by
    rw [List.append_assoc, physicalLines_append hfront, physicalLines_cons hx, hlast,
      List.append_assoc]
    rfl
  have hcount : (physicalLines front ++ [stripReturn x]).length =
      (front ++ x).count newline + 1 := by
    rw [List.length_append, length_physicalLines hfront, List.count_append,
      List.count_eq_zero.mpr hx]
    rfl
  rw [← hcount]
  exact gains_of_lines _ [] hb (hold.trans (List.append_nil _).symm) hnew fun h => by simp at h

theorem Relaid.kinds (h : Relaid source source' move) :
    move = id ∧ kindsFrom 0 (physicalLines source') = kindsFrom 0 (physicalLines source) ∨
      ∃ n, move = Statement.behind n ∧ Gains source source' n := by
  have hblanks : ∀ {w : Text}, w.isAllBlank = true → ∀ x y, y.isAllBlank = true →
      Alike (x ++ y) (x ++ (w ++ y)) := fun hw x y hy =>
    (alike_blanks x hy).symm.trans (alike_blanks x (Text.isAllBlank_append hw hy))
  cases h with
  | carriageReturn u v =>
    have hline : LineEnd u (newline :: v) := ⟨.inr (.inl ⟨v, rfl⟩), fun h => by cases h⟩
    exact .inl ⟨rfl, kinds_at_end hline (w := [Text.carriageReturn]) (by decide)
      fun y hy _ => hblanks (by decide) _ y hy⟩
  | blanks hline hw hn =>
    exact .inl ⟨rfl, kinds_at_end hline hn fun y hy _ => hblanks hw _ y hy⟩
  | @comment u v w c hline hw hn hc hu hgap =>
    have hn' : newline ∉ w ++ dollar :: dollar :: c := by simp [hn, hc]; decide
    refine .inl ⟨rfl, kinds_at_end hline hn' fun y hy _ => ?_⟩
    rw [List.append_assoc, List.cons_append, List.cons_append]
    exact (alike_blanks _ hy).symm.trans (alike_comment hu hw hgap (c ++ y))
  | line hb hu hmark => exact .inr ⟨_, rfl, gains_line hb hu hmark⟩
  | openLine hb hne hu => exact .inr ⟨_, rfl, gains_openLine hb hne hu⟩
  | lineBehind hb hu ht => exact .inr ⟨_, rfl, gains_lineBehind hb hu ht⟩

theorem Relaid.statements (h : Relaid source source' move) :
    statements source' = (statements source).map
      (Statement.moved move (physicalLines source').length) := by
  have hlength := length_kindsFrom 0 (physicalLines source')
  unfold Layout.statements
  obtain ⟨rfl, hkinds⟩ | ⟨_, rfl, ks, ks', rfl, hkinds, hkinds'⟩ := h.kinds
  · rw [hkinds, ← hlength, hkinds, ← Nat.zero_add (List.length _)]
    exact Statement.assemble_moved_id [] 0 _
  · rw [hkinds, hkinds', Statement.assemble_insert, ← hlength, hkinds']
    simp only [List.length_append, List.length_cons, Nat.zero_add, Nat.add_assoc]

theorem Relaid.length_le (h : Relaid source source' move) :
    (physicalLines source).length ≤ (physicalLines source').length := by
  rw [← length_kindsFrom 0, ← length_kindsFrom 0]
  obtain ⟨-, hkinds⟩ | ⟨_, -, ks, ks', -, hkinds, hkinds'⟩ := h.kinds
  · rw [hkinds]
  · rw [hkinds, hkinds', List.length_append, List.length_append, List.length_cons]
    omega

end Layout

/-- A change of layout leaves the contents of all commands. Each command is on
the line on which its statement ends in the new layout, a statement that the end
of the program leaves unfinished on the last one. -/
theorem layout_ignored {source source' : Text} {move : Nat → Nat}
    (h : Layout.Relaid source source' move) (first : Int64)
    (hfits : (Layout.physicalLines source').length ≤ 2 ^ 64) :
    (Command.parseAll source first).2 = none ∧ (Command.parseAll source' first).2 = none ∧
      (Command.parseAll source' first).1.map Command.content =
        (Command.parseAll source first).1.map Command.content ∧
      (Command.parseAll source first).1.map (·.line) =
        (Layout.statements source).map (fun s => first + Int64.ofNat s.last) ∧
      (Command.parseAll source' first).1.map (·.line) =
        (Layout.statements source).map (fun s => first + Int64.ofNat
          (if s.dangling then (Layout.physicalLines source').length - 1 else move s.last)) := by
  have hlength := h.length_le
  rw [Command.parseAll_eq source first (.inl (by omega)),
    Command.parseAll_eq source' first (.inl (by omega)), h.statements]
  refine ⟨rfl, rfl, ?_, ?_, ?_⟩
  · simp only [List.map_map]
    apply List.map_congr_left
    intro s _
    exact Statement.content_moved move _ first s
  · simp only [List.map_map]
    apply List.map_congr_left
    intro s _
    exact Statement.command_line first s
  · simp only [List.map_map]
    apply List.map_congr_left
    intro s _
    exact Statement.command_line first _

/-- A comment line inside a statement that runs over two lines, behind a byte order mark. -/
theorem layout_ignored_inside :
    let front := Layout.byteOrderMark ++ Text.ofString "GOTO/1, $\n"
    let source := front ++ Text.ofString "2\n"
    let source' := front ++ (Text.ofString " $$ note" ++ newline :: Text.ofString "2\n")
    Layout.Relaid source source' (Statement.behind 1) ∧
      (Layout.physicalLines source').length ≤ 2 ^ 64 ∧
      (Command.parseAll source' 1).1.map Command.content =
        (Command.parseAll source 1).1.map Command.content ∧
      (Command.parseAll source 1).1.map (·.line) = [2] ∧
      (Command.parseAll source' 1).1.map (·.line) = [3] := by
  have hidle : Layout.Idle " $$ note" :=
    ⟨by decide, .inr ⟨[Text.space], Text.ofString " note", by decide, by decide⟩⟩
  have hrelaid := Layout.Relaid.line (u := Layout.byteOrderMark ++ "GOTO/1, $\n")
    (v := "2\n") hidle (by decide) (by decide)
  obtain ⟨-, -, hcontent, hlines, hlines'⟩ := layout_ignored hrelaid 1 (by decide)
  exact ⟨hrelaid, by decide, hcontent, hlines.trans (by decide +kernel),
    hlines'.trans (by decide +kernel)⟩

end Toolpath
