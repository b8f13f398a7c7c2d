import Toolpath.Proofs.Records
import Toolpath.Proofs.Utf8Texts
import Toolpath.Statement.Lexer

/-!
# Commands of well formed programs

The commands of a program in well formed UTF-8 have well formed texts. All
that a program is cut at are octets below 128: line ends, dollar signs,
slashes, commas, quote marks and parentheses. What is left between the cuts
is trimmed, put in lower case and joined.
-/

namespace Toolpath

open Text (Utf8)

variable {t : Text} {sep : UInt8} {line : Int64} {l : Lexer}

namespace Text

theorem utf8_dropLast (h : Utf8 t) (hlast : ∀ b, t.getLast? = some b → b.toNat < 128) :
    Utf8 t.dropLast := by
  cases hb : t.getLast? with
  | none =>
    rw [List.getLast?_eq_none_iff.mp hb]
    exact .nil
  | some b =>
    obtain ⟨s, rfl⟩ := List.getLast?_eq_some_iff.mp hb
    rw [List.dropLast_concat]
    exact (Utf8.cut (hlast b hb) h).1

theorem utf8_tail (h : Utf8 t) (hhead : ∀ b, t.head? = some b → b.toNat < 128) : Utf8 t.tail := by
  cases t with
  | nil => exact .nil
  | cons b t => exact (Utf8.cut (s := []) (hhead b rfl) h).2

theorem utf8_dropFront {t front : Text} (hf : Utf8 front) (h : Utf8 t) :
    Utf8 (t.dropFront front) := by
  unfold dropFront dropFront?
  split
  · next hfront =>
    obtain ⟨r, rfl⟩ := List.isPrefixOf_iff_prefix.mp hfront
    simpa using Utf8.of_append hf h
  · exact h

theorem utf8_splitFold (hsep : sep.toNat < 128) (t : Text) (s : Text × List Text)
    (hs : Utf8 (s.1.reverse ++ t)) (hpieces : ∀ piece ∈ s.2, Utf8 piece) :
    Utf8 (t.foldl (fun s b => if b = sep then ([], s.1.reverse :: s.2) else (b :: s.1, s.2))
        s).1.reverse ∧
      ∀ piece ∈ (t.foldl (fun s b => if b = sep then ([], s.1.reverse :: s.2)
        else (b :: s.1, s.2)) s).2, Utf8 piece := by
  induction t generalizing s with
  | nil => exact ⟨by simpa using hs, hpieces⟩
  | cons b t ih =>
    rw [List.foldl_cons]
    split
    · next hb =>
      subst hb
      obtain ⟨hpiece, ht⟩ := Utf8.cut hsep hs
      refine ih _ ht fun piece hp => ?_
      rcases List.mem_cons.mp hp with rfl | hp
      · exact hpiece
      · exact hpieces piece hp
    · exact ih _ (by simpa using hs) hpieces

theorem utf8_split (hsep : sep.toNat < 128) (h : Utf8 t) : ∀ piece ∈ split sep t, Utf8 piece := by
  obtain ⟨hlast, hpieces⟩ := utf8_splitFold hsep t ([], []) h (by simp)
  intro piece hpiece
  rcases List.mem_cons.mp (List.mem_reverse.mp hpiece) with rfl | hpiece
  · exact hlast
  · exact hpieces piece hpiece

end Text

theorem Layout.utf8_physicalLines (h : Utf8 t) : ∀ line ∈ Layout.physicalLines t, Utf8 line := by
  have hpieces := Text.utf8_split (show Text.newline.toNat < 128 by decide) h
  have hstrip : ∀ s : Text, Utf8 s → Utf8 (Layout.stripReturn s) := by
    intro s hs
    unfold stripReturn Text.dropBack Text.dropBack?
    split
    · next hback =>
      obtain ⟨r, rfl⟩ := List.isSuffixOf_iff_suffix.mp hback
      simpa using (Utf8.cut (b := Text.carriageReturn) (by decide) hs).1
    · exact hs
  intro line hline
  obtain ⟨piece, hpiece, rfl⟩ := List.mem_map.mp hline
  refine hstrip piece (hpieces piece ?_)
  split at hpiece
  · exact List.dropLast_subset _ hpiece
  · exact hpiece

namespace Scan

theorem beforeComment?_eq {q : Quotes} {t front : Text} (h : beforeComment? q t = some front) :
    ∃ r, t = front ++ Text.dollar :: r := by
  induction t generalizing q front with
  | nil => cases h
  | cons b t ih =>
    rw [beforeComment?] at h
    split at h
    · next hb =>
      simp only [Bool.and_eq_true, decide_eq_true_eq] at hb
      obtain rfl := Option.some.inj h
      exact ⟨t, by rw [hb.1.2, List.nil_append]⟩
    · obtain ⟨front', hfront, rfl⟩ := Option.map_eq_some_iff.mp h
      obtain ⟨r, rfl⟩ := ih hfront
      exact ⟨r, rfl⟩

theorem Cursor.eq_of_cuts {s : Cursor} {sep b : UInt8} (h : s.cuts sep b = true) : b = sep := by
  simp only [cuts, Bool.and_eq_true, decide_eq_true_eq] at h
  exact h.1.2

theorem cutTopFrom?_eq {s : Cursor} {t x y : Text}
    (h : cutTopFrom? sep s t = some (x, y)) : t = x ++ sep :: y := by
  induction t generalizing s x with
  | nil => cases h
  | cons b t ih =>
    rw [cutTopFrom?] at h
    split at h
    · next hb =>
      cases h
      rw [Cursor.eq_of_cuts hb, List.nil_append]
    · obtain ⟨⟨x', y'⟩, hcut, heq⟩ := Option.map_eq_some_iff.mp h
      cases heq
      rw [ih hcut, List.cons_append]

theorem partsFrom_cons (sep b : UInt8) (s : Cursor) (t : Text) :
    partsFrom sep s (b :: t) =
      if s.cuts sep b then
        ([], (partsFrom sep (s.step b) t).1 :: (partsFrom sep (s.step b) t).2)
      else (b :: (partsFrom sep (s.step b) t).1, (partsFrom sep (s.step b) t).2) := rfl

theorem utf8_partsFrom (hsep : sep.toNat < 128) (s : Cursor) (front : Text)
    (h : Utf8 (front ++ t)) :
    Utf8 (front ++ (partsFrom sep s t).1) ∧ ∀ part ∈ (partsFrom sep s t).2, Utf8 part := by
  induction t generalizing s front with
  | nil => exact ⟨h, by simp [partsFrom]⟩
  | cons b t ih =>
    rw [partsFrom_cons]
    by_cases hb : s.cuts sep b = true
    · obtain rfl := Cursor.eq_of_cuts hb
      obtain ⟨hfront, ht⟩ := Utf8.cut hsep h
      obtain ⟨hpart, hparts⟩ := ih (s.step b) [] ht
      rw [if_pos hb]
      refine ⟨by simpa using hfront, fun part hp => ?_⟩
      rcases List.mem_cons.mp hp with rfl | hp
      · exact hpart
      · exact hparts part hp
    · have hjoined : Utf8 (front ++ [b] ++ t) := by simpa using h
      obtain ⟨hpart, hparts⟩ := ih (s.step b) _ hjoined
      rw [if_neg hb]
      exact ⟨by simpa using hpart, hparts⟩

theorem utf8_splitTop (hsep : sep.toNat < 128) (h : Utf8 t) :
    ∀ part ∈ splitTop sep t, Utf8 part := by
  obtain ⟨hpart, hparts⟩ := utf8_partsFrom hsep {} [] h
  intro part hp
  rcases List.mem_cons.mp hp with rfl | hp
  · exact hpart
  · exact hparts part hp

end Scan

namespace Parameter

def WellFormed : Parameter → Prop
  | minor word => Utf8 word
  | number _ => True
  | string text => Utf8 text

theorem isQuoteMark_low {b : UInt8} (h : Scan.isQuoteMark b = true) : b.toNat < 128 := by
  simp only [Scan.isQuoteMark, Bool.or_eq_true, decide_eq_true_eq] at h
  rcases h with rfl | rfl <;> decide

theorem utf8_inner (h : Utf8 t) (hhead : ∀ b, t.head? = some b → b.toNat < 128)
    (hlast : ∀ b, t.getLast? = some b → b.toNat < 128) : Utf8 (inner t) := by
  refine Text.utf8_dropLast (Text.utf8_tail h hhead) fun b hb => ?_
  cases t with
  | nil => cases hb
  | cons a t =>
    rw [List.tail_cons] at hb
    exact hlast b (by rw [List.getLast?_cons, hb]; rfl)

theorem utf8_inner_of_isQuoted (h : Utf8 t) (hq : isQuoted t = true) : Utf8 (inner t) := by
  simp only [isQuoted, Bool.and_eq_true, decide_eq_true_eq] at hq
  have hlow : ∀ b, t.head? = some b → b.toNat < 128 := by
    intro b hb
    refine isQuoteMark_low ?_
    simpa [hb] using hq.1.2
  exact utf8_inner h hlow fun b hb => hlow b (hq.2.trans hb)

theorem utf8_inner_of_isParenthesised (h : Utf8 t) (hp : isParenthesised t = true) :
    Utf8 (inner t) := by
  simp only [isParenthesised, Bool.and_eq_true, decide_eq_true_eq] at hp
  refine utf8_inner h (fun b hb => ?_) fun b hb => ?_
  · obtain rfl := Option.some.inj (hp.1.2.symm.trans hb)
    decide
  · obtain rfl := Option.some.inj (hp.2.symm.trans hb)
    decide

theorem classifyBy_wellFormed (number? : Text → Option Float) (h : Utf8 t) :
    (classifyBy number? t).WellFormed := by
  unfold classifyBy
  split
  · next hq => exact utf8_inner_of_isQuoted h hq
  · split
    · next hp => exact (utf8_inner_of_isParenthesised h hp).trim
    · split
      · trivial
      · exact Utf8.lower t

theorem listBy_wellFormed (number? : Text → Option Float) (h : Utf8 t) :
    ∀ p ∈ listBy number? t, p.WellFormed := by
  intro p hp
  obtain ⟨part, hpart, rfl⟩ := List.mem_map.mp hp
  obtain ⟨raw, hraw, rfl⟩ := List.mem_map.mp (List.mem_filter.mp hpart).1
  exact classifyBy_wellFormed number? (Scan.utf8_splitTop (by decide) h raw hraw).trim

end Parameter

namespace Command

theorem ofParameters_wellFormed {major : Text} {ps : List Parameter}
    (hne : major ≠ []) (hmajor : Utf8 major) (hps : ∀ p ∈ ps, p.WellFormed) :
    (ofParameters major line ps).WellFormed := by
  refine ⟨hne, fun t ht => Text.isUtf8_iff.mpr ?_⟩
  rcases List.mem_cons.mp ht with rfl | ht
  · exact hmajor
  rcases List.mem_append.mp ht with ht | ht
  · obtain ⟨p, hp, hword⟩ := List.mem_filterMap.mp ht
    cases p <;> simp only [Parameter.minor?, Option.some.injEq, reduceCtorEq] at hword
    subst hword
    exact hps _ hp
  · obtain ⟨p, hp, htext⟩ := List.mem_filterMap.mp ht
    cases p <;> simp only [Parameter.string?, Option.some.injEq, reduceCtorEq] at htext
    subst htext
    exact hps _ hp

theorem continuation_wellFormed {text : Text} (h : Utf8 text) (line : Int64) :
    (withParameters continuationWord text line).WellFormed :=
  ofParameters_wellFormed (by decide) (Text.isUtf8_iff.mp (by decide))
    (Parameter.listBy_wellFormed _ h)

theorem statement_wellFormed {major params text : Text} {c : Command}
    (hparams : Utf8 params) (h : statement major params text line = .ok c) : c.WellFormed := by
  unfold statement at h
  split at h
  · cases h
  · next hne =>
    obtain rfl := Except.ok.inj h
    exact ofParameters_wellFormed hne (Utf8.lower _) (Parameter.listBy_wellFormed _ hparams)

theorem parse_wellFormed {text : Text} {c : Command} (h : Utf8 text)
    (hc : parse text line = .ok c) : c.WellFormed := by
  unfold parse at hc
  split at hc
  · refine statement_wellFormed ?_ hc
    cases hcut : Scan.cutTop? Text.slash text with
    | none => exact .nil
    | some p =>
      rw [Scan.cutTopFrom?_eq hcut] at h
      exact (Utf8.cut (by decide) h).2
  · obtain rfl := Except.ok.inj hc
    exact continuation_wellFormed h line

end Command

/-! ## Lexers -/

theorem Layout.utf8_kindOf (h : Utf8 t) :
    ∀ body, Layout.kindOf t = .joined body ∨ Layout.kindOf t = .complete body → Utf8 body := by
  intro body hbody
  unfold kindOf at hbody
  simp only at hbody
  split at hbody
  · simp at hbody
  · next b hb =>
    split at hbody
    · next hjoined =>
      simp only [Bool.and_eq_true, decide_eq_true_eq] at hjoined
      simp only [LineKind.joined.injEq, reduceCtorEq, or_false] at hbody
      subst hbody
      refine (Text.utf8_dropLast h.trimRight fun b' hb' => ?_).trimRight
      obtain rfl := Option.some.inj (hb.symm.trans hb')
      rw [hjoined.1]
      decide
    · simp only [LineKind.complete.injEq, reduceCtorEq, false_or] at hbody
      subst hbody
      exact h.trimRight

theorem Layout.utf8_content {line : Text} (h : Utf8 line) :
    ∀ body, (Layout.content line).kind = .joined body ∨
      (Layout.content line).kind = .complete body → Utf8 body := by
  unfold content
  split
  · next front hfront =>
    obtain ⟨r, rfl⟩ := Scan.beforeComment?_eq hfront
    exact utf8_kindOf (Utf8.cut (by decide) h).1
  · exact utf8_kindOf h

namespace Lexer

structure WellFormed (l : Lexer) : Prop where
  rest : ∀ line ∈ l.rest, Utf8 line
  pending : Utf8 l.pending

def Sound : LexerReply → Prop
  | .command c _ => c.WellFormed
  | .dangling c => c.WellFormed
  | _ => True

theorem advance_wellFormed {raw : Text} {rest : List Text} (hl : l.WellFormed)
    (hraw : Utf8 raw) (hrest : ∀ line ∈ rest, Utf8 line) :
    Utf8 (l.advance raw rest).1 ∧ (l.advance raw rest).2.WellFormed := by
  refine ⟨?_, hrest, hl.pending⟩
  unfold advance
  simp only
  split
  · exact Text.utf8_dropFront (Text.isUtf8_iff.mp (by decide)) hraw
  · exact hraw

theorem completed_utf8 {body : Text} (hl : l.WellFormed) (h : Utf8 body) :
    Utf8 (l.completed body) := by
  unfold completed
  split
  · exact h
  · exact hl.pending.append h.trimLeft

theorem count_wellFormed (f : Telemetry → Telemetry) (hl : l.WellFormed) :
    (l.count f).WellFormed := ⟨hl.rest, hl.pending⟩

theorem readLine_sound {l l' : Lexer} {raw : Text} {rest : List Text}
    {reply : Option LexerReply} (hl : l.WellFormed) (hraw : Utf8 raw)
    (hrest : ∀ line ∈ rest, Utf8 line) (h : l.readLine raw rest = (reply, l')) :
    l'.WellFormed ∧ ∀ r, reply = some r → Sound r := by
  obtain ⟨htext, hl₁⟩ := advance_wellFormed hl hraw hrest
  have hbody := Layout.utf8_content htext
  unfold readLine at h
  generalize l.advance raw rest = p at htext hl₁ hbody h
  have hl₂ : (if (Layout.content p.1).commented then
      p.2.count fun t => { t with comments := t.comments + 1 } else p.2).WellFormed := by
    split
    · exact count_wellFormed _ hl₁
    · exact hl₁
  simp only at h
  generalize (if (Layout.content p.1).commented then _ else _) = l₂ at hl₂ h
  split at h
  · cases h
    exact ⟨count_wellFormed _ hl₂, by simp⟩
  · next body hk =>
    cases h
    have hspace : Utf8 [Text.space] := Text.isUtf8_iff.mp (by decide)
    refine ⟨count_wellFormed _ ⟨hl₂.rest, ?_⟩, by simp⟩
    exact (hl₂.pending.append (hbody body (.inl hk))).append hspace
  · next body hk =>
    have hstatement := completed_utf8 hl₂ (hbody body (.inr hk))
    have hcleared : ({ l₂ with pending := [] } : Lexer).WellFormed := ⟨hl₂.rest, .nil⟩
    split at h
    · next c hc =>
      cases h
      refine ⟨count_wellFormed _ hcleared, fun r hr => ?_⟩
      obtain rfl := Option.some.inj hr
      exact Command.parse_wellFormed hstatement hc
    · cases h
      refine ⟨hcleared, fun r hr => ?_⟩
      obtain rfl := Option.some.inj hr
      trivial

theorem finish_sound (hl : l.WellFormed) : l.finish.2.WellFormed ∧ Sound l.finish.1 := by
  unfold finish
  split
  · exact ⟨hl, trivial⟩
  · simp only
    split
    · exact ⟨⟨hl.rest, .nil⟩, trivial⟩
    · exact ⟨⟨hl.rest, .nil⟩, Command.continuation_wellFormed hl.pending.trim _⟩

theorem readUntil_sound {stop : Nat → Bool} {i : Nat} {lines : List Text}
    (hl : l.WellFormed) (hlines : ∀ line ∈ lines, Utf8 line) :
    (readUntil stop i l lines).2.WellFormed ∧ Sound (readUntil stop i l lines).1 := by
  induction lines generalizing i l with
  | nil =>
    unfold readUntil
    split
    · exact ⟨⟨hlines, hl.pending⟩, trivial⟩
    · exact finish_sound ⟨hlines, hl.pending⟩
  | cons raw rest ih =>
    have hraw : Utf8 raw := hlines raw (List.mem_cons_self ..)
    have hrest : ∀ line ∈ rest, Utf8 line := fun t ht => hlines t (List.mem_cons_of_mem _ ht)
    unfold readUntil
    split
    · exact ⟨⟨hlines, hl.pending⟩, trivial⟩
    · split
      · next reply l' hline =>
        obtain ⟨hl', hreply⟩ := readLine_sound hl hraw hrest hline
        exact ⟨hl', hreply reply rfl⟩
      · next l' hline => exact ih (readLine_sound hl hraw hrest hline).1 hrest

theorem next_sound (hl : l.WellFormed) (cancelled : Bool) :
    (l.next cancelled).2.WellFormed ∧ Sound (l.next cancelled).1 := by
  unfold next nextUnless
  split
  · refine ⟨hl, ?_⟩
    simp only
    split <;> trivial
  · exact readUntil_sound hl hl.rest

theorem collect_wellFormed {cancelled : Bool} {acc : List Command} {fuel : Nat}
    (hl : l.WellFormed) (hacc : ∀ c ∈ acc, c.WellFormed) :
    ∀ c ∈ (collect cancelled acc l fuel).1, c.WellFormed := by
  induction fuel generalizing acc l with
  | zero => exact fun c hc => hacc c (List.mem_reverse.mp hc)
  | succ fuel ih =>
    have hnext := next_sound hl cancelled
    unfold collect
    have hcons : ∀ {c : Command}, c.WellFormed → ∀ d ∈ c :: acc, d.WellFormed := by
      intro c hc d hd
      rcases List.mem_cons.mp hd with rfl | hd
      · exact hc
      · exact hacc d hd
    have hstop : ∀ c ∈ acc.reverse, c.WellFormed := fun c hc => hacc c (List.mem_reverse.mp hc)
    split
    · next h =>
      rw [h] at hnext
      exact ih hnext.1 (hcons hnext.2)
    · next h =>
      rw [h] at hnext
      exact ih hnext.1 (hcons hnext.2)
    all_goals exact hstop

theorem ofText_wellFormed {source : Text} (first : Int64) (h : Utf8 source) :
    (ofText source first).WellFormed :=
  ⟨Layout.utf8_physicalLines h, .nil⟩

end Lexer

theorem Command.parseAll_wellFormed {source : Text} (first : Int64)
    (h : source.isUtf8 = true) : ∀ c ∈ (Command.parseAll source first).1, c.WellFormed :=
  Lexer.collect_wellFormed (Lexer.ofText_wellFormed first (Text.isUtf8_iff.mp h)) (by simp)

end Toolpath
