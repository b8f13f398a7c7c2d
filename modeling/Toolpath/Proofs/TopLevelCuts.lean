import Toolpath.Proofs.ParameterLists

/-!
# Cuts at top level

Splitting at a separator loses nothing: the parts joined again are the text. It is cut where the
separator stands outside quotes and all parentheses, so every part but the last is closed by
itself.
-/

namespace Toolpath.Scan

/-- How often an octet stands outside quotes. -/
def outside (b : UInt8) (t : Text) : Nat :=
  (List.range t.length).countP fun i => t[i]? = some b && !insideQuotes t i

/-- The parentheses opened less those closed. -/
def nesting (t : Text) : Int := outside Text.openParen t - outside Text.closeParen t

theorem outside_concat (c : UInt8) (t : Text) (b : UInt8) :
    outside c (t ++ [b]) =
      outside c t + if b = c ∧ Quotes.closed.after t = .closed then 1 else 0 := by
  have hsame : ∀ i ∈ List.range t.length,
      ((t ++ [b])[i]? = some c && !insideQuotes (t ++ [b]) i) =
        (t[i]? = some c && !insideQuotes t i : Bool) := by
    intro i hi
    have hi := List.mem_range.mp hi
    rw [insideQuotes, insideQuotes, List.take_append_of_le_length hi.le,
      List.getElem?_append_left hi]
  rw [outside, List.length_append, List.length_singleton, List.range_succ, List.countP_append,
    List.countP_congr fun i hi => by rw [hsame i hi], List.countP_singleton]
  simp [outside, insideQuotes, Quotes.isOpen]

theorem Cursor.depth_step (s : Cursor) (b : UInt8) :
    (s.step b).depth = s.depth + (if b = Text.openParen ∧ s.quotes = .closed then 1 else 0) -
      if b = Text.closeParen ∧ s.quotes = .closed then 1 else 0 := by
  obtain ⟨quotes, depth⟩ := s
  by_cases hopen : b = Text.openParen
  · subst hopen
    cases quotes with
    | closed => exact (Int.sub_zero _).symm
    | _ => exact (Int.add_zero depth).symm.trans (Int.sub_zero _).symm
  · by_cases hclose : b = Text.closeParen
    · subst hclose
      cases quotes with
      | closed => exact congrArg (· - 1) (Int.add_zero depth).symm
      | _ => exact (Int.add_zero depth).symm.trans (Int.sub_zero _).symm
    · simp [Cursor.step, hopen, hclose]

theorem depth_after (t : Text) : (({} : Cursor).after t).depth = nesting t := by
  induction t using List.reverseRecOn with
  | nil => rfl
  | append_singleton t b ih =>
    have hstep : ({} : Cursor).after (t ++ [b]) = (({} : Cursor).after t).step b :=
      Cursor.after_append _ t [b]
    rw [hstep, Cursor.depth_step, Cursor.quotes_after, ih, nesting, nesting, outside_concat,
      outside_concat]
    split_ifs <;> omega

theorem after_take_eq_top {t : Text} {i : Nat} :
    ({} : Cursor).after (t.take i) = {} ↔ insideQuotes t i = false ∧ nesting (t.take i) = 0 := by
  have hquotes : (({} : Cursor).after (t.take i)).quotes = Quotes.closed.after (t.take i) :=
    Cursor.quotes_after ..
  rw [← depth_after, insideQuotes, ← hquotes]
  generalize ({} : Cursor).after (t.take i) = s
  obtain ⟨quotes, depth⟩ := s
  simp [Quotes.isOpen]

variable {sep : UInt8}

theorem cuts_iff (hsep : Plain sep) {s : Cursor} : s.cuts sep sep = true ↔ s = {} := by
  refine ⟨Cursor.eq_top hsep, ?_⟩
  rintro rfl
  have hquotes : Quotes.closed.step sep = .closed :=
    congrArg Cursor.quotes (Cursor.step_plain {} hsep)
  simp [Cursor.cuts, Cursor.reads, hquotes, hsep.1, Quotes.isOpen]

theorem join_cons_cons (sep : UInt8) (p q : Text) (ps : List Text) :
    Text.join [sep] (p :: q :: ps) = p ++ sep :: Text.join [sep] (q :: ps) := by
  rw [Text.join, List.intercalate_cons_cons, List.append_assoc]
  rfl

theorem join_cons (sep b : UInt8) (p : Text) (ps : List Text) :
    Text.join [sep] ((b :: p) :: ps) = b :: Text.join [sep] (p :: ps) := by
  cases ps with
  | nil => rfl
  | cons q ps => rw [join_cons_cons, join_cons_cons, List.cons_append]

theorem join_splitFrom (sep : UInt8) (s : Cursor) (t : Text) :
    Text.join [sep] (splitFrom sep s t) = t := by
  induction t generalizing s with
  | nil => rfl
  | cons b t ih =>
    rw [splitFrom_cons]
    split
    next hcut =>
      rw [Cursor.eq_of_cuts hcut, splitFrom, join_cons_cons, ← splitFrom, ih, List.nil_append]
    next => rw [splitFrom, List.modifyHead_cons, join_cons, ← splitFrom, ih]

theorem join_append {front back : List Text} (hfront : front ≠ []) (hback : back ≠ []) :
    Text.join [sep] (front ++ back) = Text.join [sep] front ++ sep :: Text.join [sep] back := by
  obtain ⟨q, qs, rfl⟩ := List.exists_cons_of_ne_nil hback
  induction front with
  | nil => contradiction
  | cons p ps ih =>
    cases ps with
    | nil => exact (join_cons_cons sep p q qs).trans (by simp [Text.join])
    | cons r ps =>
      rw [List.cons_append, List.cons_append, join_cons_cons, ← List.cons_append, ih (by simp),
        join_cons_cons, List.append_assoc, List.cons_append]

/-- A cut finds the cursor where it began, so what was read since the last cut is closed. -/
theorem closed_partsFrom (hsep : Plain sep) (s : Cursor) (t : Text) :
    ((partsFrom sep s t).2 ≠ [] → s.after (partsFrom sep s t).1 = {}) ∧
      ∀ part ∈ (partsFrom sep s t).2.dropLast, ({} : Cursor).after part = {} := by
  induction t generalizing s with
  | nil => exact ⟨fun h => absurd rfl h, fun _ h => absurd h List.not_mem_nil⟩
  | cons b t ih =>
    obtain ⟨hfirst, hparts⟩ := ih (s.step b)
    rw [partsFrom_cons]
    split
    next hcut =>
      obtain rfl := Cursor.eq_of_cuts hcut
      obtain rfl := Cursor.eq_top hsep hcut
      rw [Cursor.step_plain _ hsep] at hfirst hparts ⊢
      refine ⟨fun _ => rfl, ?_⟩
      dsimp only
      generalize (partsFrom b {} t).2 = parts at hfirst hparts ⊢
      cases parts with
      | nil => exact fun _ h => absurd h List.not_mem_nil
      | cons q qs => exact List.forall_mem_cons.mpr ⟨hfirst (by simp), hparts⟩
    next => exact ⟨hfirst, hparts⟩

theorem closed_of_mem (hsep : Plain sep) (t : Text) :
    ∀ part ∈ (splitFrom sep {} t).dropLast, ({} : Cursor).after part = {} := by
  have hparts := (closed_partsFrom hsep {} (sep :: t)).2
  rwa [partsFrom_cons, if_pos ((cuts_iff hsep).mpr rfl), Cursor.step_plain _ hsep] at hparts

theorem after_join (hsep : Plain sep) {parts : List Text}
    (h : ∀ part ∈ parts, ({} : Cursor).after part = {}) :
    ({} : Cursor).after (Text.join [sep] parts) = {} := by
  induction parts with
  | nil => rfl
  | cons p ps ih =>
    obtain ⟨hp, hps⟩ := List.forall_mem_cons.mp h
    cases ps with
    | nil => rwa [Text.join, List.intercalate_singleton]
    | cons q ps =>
      rw [join_cons_cons, Cursor.after_append, hp]
      change (Cursor.step {} sep).after _ = {}
      rw [Cursor.step_plain _ hsep, ih hps]

theorem cutTopFrom?_eq_splitFrom (sep : UInt8) (s : Cursor) (t : Text) :
    cutTopFrom? sep s t = if (partsFrom sep s t).2 = [] then none
      else some ((partsFrom sep s t).1, Text.join [sep] (partsFrom sep s t).2) := by
  induction t generalizing s with
  | nil => rfl
  | cons b t ih =>
    rw [cutTopFrom?, partsFrom_cons]
    split
    next => rw [if_neg (by simp)]; exact congrArg (fun u => some ([], u)) (join_splitFrom ..).symm
    next =>
      rw [ih]
      split
      next => rfl
      next => rfl

/-- A text is split at the separators that stand outside quotes and where no parenthesis is
left open, and nowhere else. -/
theorem splitTop_exact {sep : UInt8} (hsep : sep = Text.comma ∨ sep = Text.slash) (t : Text) :
    Text.join [sep] (splitTop sep t) = t ∧
      (∀ i, (∃ front back, front ≠ [] ∧ back ≠ [] ∧ splitTop sep t = front ++ back ∧
          (Text.join [sep] front).length = i) ↔
        t[i]? = some sep ∧ insideQuotes t i = false ∧ nesting (t.take i) = 0) ∧
      (∀ part ∈ (splitTop sep t).dropLast,
        insideQuotes part part.length = false ∧ nesting part = 0) ∧
      ∃ part parts, splitTop sep t = part :: parts ∧
        cutTop? sep t = if parts = [] then none else some (part, Text.join [sep] parts) := by
  have hplain : Plain sep := by obtain rfl | rfl := hsep <;> decide
  have hclosed := closed_of_mem hplain t
  refine ⟨join_splitFrom sep {} t, fun i => ⟨?_, ?_⟩, fun part hpart => ?_, _, _, rfl,
    cutTopFrom?_eq_splitFrom sep {} t⟩
  · rintro ⟨front, back, hfront, hback, h, rfl⟩
    have ht : t = Text.join [sep] front ++ sep :: Text.join [sep] back := by
      rw [← join_append hfront hback, ← h]
      exact (join_splitFrom sep {} t).symm
    rw [show splitFrom sep {} t = front ++ back from h,
      List.dropLast_append_of_ne_nil hback] at hclosed
    have htop := after_join hplain fun p hp => hclosed p (List.mem_append_left _ hp)
    rw [← after_take_eq_top, ht, List.take_left, List.getElem?_append_right le_rfl, Nat.sub_self]
    exact ⟨rfl, htop⟩
  · rintro ⟨hget, htop⟩
    obtain ⟨hi, hsep⟩ := List.getElem?_eq_some_iff.mp hget
    have ht : t = t.take i ++ sep :: t.drop (i + 1) := by
      rw [← hsep, List.getElem_cons_drop, List.take_append_drop]
    have hcut := (cuts_iff hplain).mpr (after_take_eq_top.mpr htop)
    refine ⟨splitFrom sep {} (t.take i), _, by simp [splitFrom], by simp [splitFrom],
      (congrArg _ ht).trans (splitFrom_cut hcut _), ?_⟩
    rw [join_splitFrom, List.length_take_of_le hi.le]
  · have htop := hclosed part hpart
    rwa [← List.take_length (l := part), after_take_eq_top, List.take_length] at htop

theorem splitTop_exact_unbalanced :
    splitTop Text.comma (Text.ofString "a,',)',),b") =
        [Text.ofString "a", Text.ofString "',)'", Text.ofString "),b"] ∧
      ∀ part ∈ (splitTop Text.comma (Text.ofString "a,',)',),b")).dropLast,
        insideQuotes part part.length = false ∧ nesting part = 0 :=
  ⟨by decide, (splitTop_exact (.inl rfl) _).2.2.1⟩

end Toolpath.Scan
