import Toolpath.Proofs.Statements

/-!
# Physical lines and their kinds

The physical lines of a text that is put together from lines are those lines.
The kind of a line does not depend on the blanks at its end, nor on a comment
that is put behind it where quotes are closed; and neither can turn a line into
one that carries a byte order mark.
-/

namespace Toolpath

variable {t w : Text} {q : Quotes}

namespace Text

/-- One octet of `split`, given the piece that is being read and those before it, both backwards. -/
def splitStep (sep : UInt8) (s : Text × List Text) (b : UInt8) : Text × List Text :=
  if b = sep then ([], s.1.reverse :: s.2) else (b :: s.1, s.2)

theorem splitStep_fold (sep : UInt8) (t piece : Text) (pieces : List Text) :
    ((t.foldl (splitStep sep) (piece, pieces)).1.reverse ::
        (t.foldl (splitStep sep) (piece, pieces)).2).reverse =
      pieces.reverse ++ (t.splitOn sep).modifyHead (piece.reverse ++ ·) := by
  induction t generalizing piece pieces with
  | nil => simp
  | cons b t ih =>
    obtain ⟨p, ps, hps⟩ := List.exists_cons_of_ne_nil (List.splitOn_ne_nil sep t)
    rw [List.foldl_cons, splitStep]
    by_cases hb : b = sep
    · rw [if_pos hb, ih]
      simp [List.splitOn_cons_eq_if_modifyHead, hb, hps]
    · rw [if_neg hb, ih]
      simp [List.splitOn_cons_eq_if_modifyHead, hb, hps]

theorem split_eq_splitOn (sep : UInt8) (t : Text) : split sep t = t.splitOn sep := by
  obtain ⟨p, ps, hps⟩ := List.exists_cons_of_ne_nil (List.splitOn_ne_nil sep t)
  have h := splitStep_fold sep t [] []
  rw [hps] at h ⊢
  exact h

theorem split_append_cons (sep : UInt8) (s t : Text) :
    split sep (s ++ sep :: t) = split sep s ++ split sep t := by
  simp only [split_eq_splitOn, List.splitOn_eq_splitOnP]
  exact List.splitOnP_append_cons s t (by simp)

theorem split_of_not_mem {sep : UInt8} (h : sep ∉ t) : split sep t = [t] := by
  rw [split_eq_splitOn, List.splitOn_eq_splitOnP]
  apply List.splitOnP_eq_singleton
  intro b hb
  simp only [beq_eq_false_iff_ne]
  rintro rfl
  exact h hb

theorem split_ne_nil (sep : UInt8) (t : Text) : split sep t ≠ [] := by
  rw [split_eq_splitOn]
  exact List.splitOn_ne_nil sep t

end Text

namespace Layout

open Text (newline carriageReturn dollar)

theorem physicalLines_nil : physicalLines [] = [] := rfl

theorem physicalLines_single (h : newline ∉ t) (hne : t ≠ []) :
    physicalLines t = [stripReturn t] := by
  rw [physicalLines, Text.split_of_not_mem h]
  simp [hne]

theorem physicalLines_cons (h : newline ∉ t) (v : Text) :
    physicalLines (t ++ newline :: v) = stripReturn t :: physicalLines v := by
  have hlast : ([t] ++ Text.split newline v).getLast? = (Text.split newline v).getLast? := by
    rw [List.getLast?_append_of_ne_nil _ (Text.split_ne_nil newline v)]
  have hdrop : ([t] ++ Text.split newline v).dropLast = t :: (Text.split newline v).dropLast := by
    rw [List.dropLast_append_of_ne_nil (Text.split_ne_nil newline v)]
    rfl
  rw [physicalLines, physicalLines, Text.split_append_cons, Text.split_of_not_mem h, hlast, hdrop]
  split <;> rfl

inductive Lines : Text → Prop
  | nil : Lines []
  | cons {t u : Text} (ht : newline ∉ t) (hu : Lines u) : Lines (t ++ newline :: u)

theorem exists_lines (u : Text) : ∃ front x, u = front ++ x ∧ Lines front ∧ newline ∉ x := by
  induction u with
  | nil => exact ⟨[], [], rfl, .nil, by simp⟩
  | cons b u ih =>
    obtain ⟨front, x, rfl, hfront, hx⟩ := ih
    by_cases hb : b = newline
    · subst hb
      exact ⟨newline :: front, x, rfl, .cons (t := []) (by simp) hfront, hx⟩
    · cases hfront with
      | nil => exact ⟨[], b :: x, rfl, .nil, by simp [hx, Ne.symm hb]⟩
      | @cons t v ht hv =>
        exact ⟨b :: t ++ newline :: v, x, rfl, .cons (by simp [ht, Ne.symm hb]) hv, hx⟩

theorem physicalLines_append {front : Text} (h : Lines front) (v : Text) :
    physicalLines (front ++ v) = physicalLines front ++ physicalLines v := by
  induction h with
  | nil => rfl
  | cons ht _ ih =>
    rw [List.append_assoc, List.cons_append, physicalLines_cons ht, physicalLines_cons ht, ih]
    rfl

end Layout

namespace Scan

theorem beforeComment?_cons (q : Quotes) (b : UInt8) (t : Text) :
    beforeComment? q (b :: t) =
      if !q.isOpen && b = Text.dollar && t.head? = some Text.dollar then some []
      else (beforeComment? (q.step b) t).map (b :: ·) := rfl

theorem beforeComment?_append_some {x front : Text}
    (h : beforeComment? q x = some front) (z : Text) : beforeComment? q (x ++ z) = some front := by
  induction x generalizing q front with
  | nil => cases h
  | cons b x ih =>
    rw [beforeComment?_cons] at h
    rw [List.cons_append, beforeComment?_cons]
    split_ifs at h with hb
    · have hhead : (x ++ z).head? = some Text.dollar := by
        simp only [Bool.and_eq_true, decide_eq_true_eq] at hb
        rw [List.head?_append, hb.2]
        rfl
      simp only [Bool.and_eq_true, decide_eq_true_eq] at hb
      rw [if_pos (by simp [hb.1, hhead]), h]
    · obtain ⟨front', hfront, rfl⟩ := Option.map_eq_some_iff.mp h
      have hhead : (x ++ z).head? = x.head? := by
        cases x with
        | nil => cases hfront
        | cons => rfl
      rw [hhead, if_neg hb, ih hfront]
      rfl

/-- No comment begins across the seam of two texts unless a `$` stands on both sides. -/
theorem beforeComment?_append {x z : Text}
    (h : x.getLast? ≠ some Text.dollar ∨ z.head? ≠ some Text.dollar) :
    beforeComment? q (x ++ z) =
      (beforeComment? q x).or ((beforeComment? (q.after x) z).map (x ++ ·)) := by
  induction x generalizing q with
  | nil =>
    change beforeComment? q z = Option.or none ((beforeComment? q z).map id)
    simp
  | cons b x ih =>
    have hseam : (b = Text.dollar ∧ (x ++ z).head? = some Text.dollar) ↔
        (b = Text.dollar ∧ x.head? = some Text.dollar) := by
      cases x with
      | nil =>
        simp only [List.nil_append, List.head?_nil, reduceCtorEq, and_false, iff_false, not_and]
        rintro rfl
        simpa using h
      | cons c x => rfl
    have hrest : x.getLast? ≠ some Text.dollar ∨ z.head? ≠ some Text.dollar := by
      cases x with
      | nil => simp
      | cons c x => simpa using h
    have hafter : q.after (b :: x) = (q.step b).after x := rfl
    rw [List.cons_append, beforeComment?_cons, beforeComment?_cons, ih hrest, hafter]
    simp only [Bool.and_eq_true, decide_eq_true_eq, and_assoc, hseam]
    split_ifs
    · rfl
    · cases beforeComment? (q.step b) x <;> simp [Function.comp_def]

theorem beforeComment?_of_not_mem (h : Text.dollar ∉ t) : beforeComment? q t = none := by
  induction t generalizing q with
  | nil => rfl
  | cons b t ih =>
    simp only [List.mem_cons, not_or] at h
    rw [beforeComment?_cons, if_neg (by simp [Ne.symm h.1]), ih h.2]
    rfl

theorem after_of_not_mem (hs : Text.singleQuote ∉ t) (hd : Text.doubleQuote ∉ t) :
    Quotes.closed.after t = .closed := by
  induction t with
  | nil => rfl
  | cons b t ih =>
    simp only [List.mem_cons, not_or] at hs hd
    have hstep : Quotes.closed.step b = .closed := by
      rw [Quotes.step, if_neg (Ne.symm hs.1), if_neg (Ne.symm hd.1)]
    rw [Quotes.after, List.foldl_cons, hstep]
    exact ih hs.2 hd.2

end Scan

namespace Layout

open Text (newline carriageReturn dollar)

theorem kind_eq (t : Text) : kind t = kindOf ((Scan.beforeComment? .closed t).getD t) := by
  unfold kind content
  cases Scan.beforeComment? .closed t <;> rfl

theorem kindOf_append (t : Text) (hw : w.isAllBlank = true) : kindOf (t ++ w) = kindOf t := by
  unfold kindOf
  rw [Text.trimRight_append t hw]

theorem kind_append (t : Text) (hw : w.isAllBlank = true) : kind (t ++ w) = kind t := by
  have hdollar : dollar ∉ w := Text.not_mem_blank hw (by decide) (by decide)
  have hseam : w.head? ≠ some dollar := fun h => hdollar (List.mem_of_mem_head? h)
  rw [kind_eq, kind_eq, Scan.beforeComment?_append (.inr hseam),
    Scan.beforeComment?_of_not_mem hdollar]
  cases Scan.beforeComment? .closed t with
  | none => exact kindOf_append t hw
  | some front => rfl

/-- Where a comment may be put behind a line: quotes are closed there, or a
comment has begun already. -/
def Commentable (t : Text) : Prop :=
  Quotes.closed.after t = .closed ∨ (Scan.beforeComment? .closed t).isSome = true

theorem kind_comment (ht : Commentable t) (hw : w.isAllBlank = true)
    (hgap : w ≠ [] ∨ t.getLast? ≠ some dollar) (c : Text) :
    kind (t ++ (w ++ dollar :: dollar :: c)) = kind t := by
  rw [kind_eq, kind_eq]
  cases hcomment : Scan.beforeComment? .closed t with
  | some front =>
    rw [Scan.beforeComment?_append_some hcomment]
    rfl
  | none =>
    have hclosed : Quotes.closed.after t = .closed := by simpa [Commentable, hcomment] using ht
    have hdollar : dollar ∉ w := Text.not_mem_blank hw (by decide) (by decide)
    have hblank : Quotes.closed.after w = .closed :=
      Scan.after_of_not_mem (Text.not_mem_blank hw (by decide) (by decide))
        (Text.not_mem_blank hw (by decide) (by decide))
    have hlast : w.getLast? ≠ some dollar := fun h => hdollar (List.mem_of_getLast? h)
    have hseam : t.getLast? ≠ some dollar ∨ (w ++ dollar :: dollar :: c).head? ≠ some dollar := by
      cases w with
      | nil => exact .inl (by simpa using hgap)
      | cons b w => exact .inr fun h => hdollar (by simp [← Option.some.inj h])
    have hopen : Scan.beforeComment? .closed (dollar :: dollar :: c) = some [] := rfl
    rw [Scan.beforeComment?_append hseam, hcomment, hclosed,
      Scan.beforeComment?_append (.inl hlast),
      Scan.beforeComment?_of_not_mem hdollar, hblank, hopen]
    change kindOf (t ++ (w ++ [])) = kindOf t
    rw [List.append_nil, kindOf_append t hw]

theorem dropFront_append_front (front t : Text) : (front ++ t).dropFront front = t := by
  rw [Text.dropFront, Text.dropFront?,
    if_pos (List.isPrefixOf_iff_prefix.mpr (List.prefix_append front t))]
  simp

theorem prefix_of_append {front t z : Text} (hz : ∀ b, z.head? = some b → b ∉ front)
    (h : front <+: t ++ z) : front <+: t := by
  obtain ⟨r, hr⟩ := h
  obtain ⟨v, rfl, -⟩ | ⟨v, rfl, hv⟩ := List.append_eq_append_iff.mp hr
  · exact List.prefix_append front v
  · cases v with
    | nil => simp
    | cons b v => exact absurd (by simp) (hz b (by rw [hv]; rfl))

theorem dropFront_append {front z : Text} (hz : ∀ b, z.head? = some b → b ∉ front) (t : Text) :
    (t ++ z).dropFront front = t.dropFront front ++ z := by
  by_cases ht : front <+: t
  · obtain ⟨r, rfl⟩ := ht
    rw [List.append_assoc, dropFront_append_front, dropFront_append_front]
  · rw [dropFront_unchanged ht, dropFront_unchanged fun h => ht (prefix_of_append hz h)]

theorem blank_head (hw : w.isAllBlank = true) : ∀ b, w.head? = some b → b ∉ byteOrderMark := by
  have hcodes : ∀ n ∈ Text.blankCodes, ∀ b ∈ (String.utf8EncodeChar (Char.ofNat n)).head?,
      b ∉ byteOrderMark := by decide +kernel
  intro b hb
  cases Text.utf8_of_blank hw with
  | nil => cases hb
  | @cons a u t hu _ =>
    obtain ⟨c, hc, hsymbols⟩ := Text.symbols_spelled hu
    have hblank := Text.mem_blank hw (.scalar c) (by rw [hsymbols]; exact List.mem_cons_self ..)
    obtain ⟨n, hn, rfl⟩ := Text.mem_blankCodes hblank
    exact hcodes n hn b (by rw [hc]; exact hb)

structure Alike (t t' : Text) : Prop where
  inside : kind t = kind t'
  first : kind (t.dropFront byteOrderMark) = kind (t'.dropFront byteOrderMark)

theorem Alike.symm {t t' : Text} (h : Alike t t') : Alike t' t := ⟨h.inside.symm, h.first.symm⟩

theorem Alike.trans {t t' t'' : Text} (h : Alike t t') (h' : Alike t' t'') : Alike t t'' :=
  ⟨h.inside.trans h'.inside, h.first.trans h'.first⟩

theorem alike_blanks (t : Text) (hw : w.isAllBlank = true) : Alike t (t ++ w) where
  inside := (kind_append t hw).symm
  first := by rw [dropFront_append (blank_head hw), kind_append _ hw]

theorem commentable_dropFront (h : Commentable t) : Commentable (t.dropFront byteOrderMark) := by
  by_cases ht : byteOrderMark <+: t
  · obtain ⟨r, rfl⟩ := ht
    rw [dropFront_append_front]
    refine h.imp id fun hr => ?_
    have hmark : Scan.beforeComment? .closed (byteOrderMark ++ r) =
        (Scan.beforeComment? .closed r).map (byteOrderMark ++ ·) :=
      Scan.beforeComment?_append (.inl (by decide))
    rw [hmark] at hr
    simpa using hr
  · rwa [dropFront_unchanged ht]

theorem alike_comment (ht : Commentable t) (hw : w.isAllBlank = true)
    (hgap : w ≠ [] ∨ t.getLast? ≠ some dollar) (c : Text) :
    Alike t (t ++ (w ++ dollar :: dollar :: c)) where
  inside := (kind_comment ht hw hgap c).symm
  first := by
    have hhead : ∀ b, (w ++ dollar :: dollar :: c).head? = some b → b ∉ byteOrderMark := by
      cases w with
      | nil =>
        rintro b ⟨⟩
        decide
      | cons a w => exact fun b hb => blank_head hw b hb
    have hgap' : w ≠ [] ∨ (t.dropFront byteOrderMark).getLast? ≠ some dollar := by
      refine hgap.imp id fun hlast h => hlast ?_
      by_cases ht : byteOrderMark <+: t
      · obtain ⟨r, rfl⟩ := ht
        rw [dropFront_append_front] at h
        rw [List.getLast?_append, h]
        rfl
      · rwa [dropFront_unchanged ht] at h
    rw [dropFront_append hhead, kind_comment (commentable_dropFront ht) hw hgap']

theorem stripReturn_spec (t : Text) : ∃ y, y.isAllBlank = true ∧ t = stripReturn t ++ y := by
  by_cases h : [carriageReturn] <:+ t
  · obtain ⟨s, rfl⟩ := h
    refine ⟨[carriageReturn], by decide, ?_⟩
    simp [stripReturn, Text.dropBack, Text.dropBack?]
  · refine ⟨[], rfl, ?_⟩
    rw [stripReturn, Text.dropBack, Text.dropBack?,
      if_neg fun hs => h (List.isSuffixOf_iff_suffix.mp hs), List.append_nil]
    rfl

theorem alike_stripReturn (t : Text) : Alike (stripReturn t) t := by
  obtain ⟨y, hy, ht⟩ := stripReturn_spec t
  nth_rewrite 2 [ht]
  exact alike_blanks _ hy

theorem stripReturn_front (t : Text) : stripReturn t <+: t := by
  obtain ⟨y, -, ht⟩ := stripReturn_spec t
  exact ⟨y, ht.symm⟩

theorem kindsFrom_append (i : Nat) (ls rs : List Text) :
    kindsFrom i (ls ++ rs) = kindsFrom i ls ++ kindsFrom (i + ls.length) rs := by
  induction ls generalizing i with
  | nil => cases i <;> rfl
  | cons l ls ih =>
    rw [List.cons_append, kindsFrom_cons, kindsFrom_cons, ih, List.length_cons,
      Nat.add_right_comm i 1, Nat.add_assoc]
    rfl

theorem kindsFrom_alike {t t' : Text} (h : Alike t t') (i : Nat) (rest : List Text) :
    kindsFrom i (t :: rest) = kindsFrom i (t' :: rest) := by
  rw [kindsFrom_cons, kindsFrom_cons]
  split
  · rw [h.first]
  · rw [h.inside]

theorem kindsFrom_of_unmarked {lines : List Text}
    (h : ∀ l, lines.head? = some l → ¬ byteOrderMark <+: l) (i : Nat) :
    kindsFrom i lines = lines.map kind := by
  cases lines with
  | nil => cases i <;> rfl
  | cons l ls =>
    have hl := dropFront_unchanged (h l rfl)
    cases i with
    | zero => rw [kindsFrom, if_pos rfl, unmarked, hl]
    | succ i => rfl

theorem length_kindsFrom (i : Nat) (lines : List Text) :
    (kindsFrom i lines).length = lines.length := by
  induction lines generalizing i with
  | nil => cases i <;> rfl
  | cons l ls ih => rw [kindsFrom_cons, List.length_cons, List.length_cons, ih]

end Layout

end Toolpath
