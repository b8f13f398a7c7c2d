import Toolpath.Proofs.Registers

/-!
# The words of a block

A block holds the queued words and the tracked words that are flagged. Reading a register for a
block may take its flag and changes nothing else. So all the words of one register in a block are
the same, and a register that is neither flagged nor queued has none.
-/

namespace Toolpath

open Registers (normalName)

def Origin.isOf (r : Text) : Origin → Bool
  | .queued (.shared (.register a)) => normalName a = normalName r
  | .tracked (.register a) => normalName a = normalName r
  | _ => false

def Token.isOf (r : Text) (t : Token) : Bool := t.origin.isOf r

/-- The word that a block holds for a register; the last one counts. -/
def Block.word? (r : Text) (b : Block) : Option Text :=
  (b.tokens.filter (Token.isOf r)).getLast?.map Token.text

def Numeric.settled (n : Numeric) : Numeric := if n.modal then { n with changed := false } else n

namespace Numeric

variable (n : Numeric)

theorem settled_settled : n.settled.settled = n.settled := by
  unfold settled
  cases hm : n.modal <;> simp [hm]

theorem value_settled : n.settled.value = n.value := by
  unfold settled
  split <;> rfl

theorem format_settled : n.settled.format = n.format := by
  unfold settled
  split <;> rfl

theorem render_settled : n.settled.render = n.render := by
  rw [render, render, value_settled, format_settled]

end Numeric

namespace Word

theorem token_numeric {n : Numeric} (h : n.changed = true) :
    (numeric n).token = (n.render, numeric n.settled) := by
  simp only [token, shouldOutput, changed, h, Bool.true_or, if_true, render, written,
    Numeric.settled]

theorem forcedToken_numeric (n : Numeric) :
    (numeric n).forcedToken = (n.render, numeric n.settled) := by
  obtain ⟨address, modal, changed, value, previous, initial, format⟩ := n
  cases modal <;> cases changed <;> rfl

theorem forcedToken_code (t : Text) : (code t).forcedToken.1 = t := by
  simp [code, forcedToken, token, shouldOutput, changed, render, Remark.render, Remark.body]

end Word

namespace BlockWriter

variable {rack rack' rack'' : Rack} {a r : Text} {n : Numeric}

theorem queuedText_register (h : rack.registers.find? a = some n) :
    queuedText rack (.shared (.register a)) =
      (n.render, { rack with registers := rack.registers.modify a Numeric.settled }) := by
  simp only [queuedText, Rack.emit, Rack.get?, h, Option.map_some, Word.forcedToken_numeric,
    Rack.set_register]
  rw [Registers.modify_const (f := Numeric.settled) h]

theorem queuedText_missing (h : rack.registers.find? a = none) :
    queuedText rack (.shared (.register a)) = ([], rack) := by
  simp only [queuedText, Rack.emit, Rack.get?, h, Option.map_none]

theorem queuedText_code (rack : Rack) (c : Code) : queuedText rack (.code c) = (c.text, rack) := by
  rw [queuedText, Word.forcedToken_code]

theorem trackedText_flagged (h : rack.registers.find? a = some n) (hc : n.changed = true) :
    trackedText rack (.register a) =
      (n.render, { rack with registers := rack.registers.modify a Numeric.settled }) := by
  simp only [trackedText, Rack.emit, Rack.get?, h, Option.map_some, Word.changed, hc, if_true,
    Word.token_numeric hc, Rack.set_register]
  rw [Registers.modify_const (f := Numeric.settled) h]

theorem trackedText_unflagged (h : rack.registers.find? a = some n) (hc : n.changed = false) :
    trackedText rack (.register a) = ([], rack) := by
  simp [trackedText, Rack.get?, h, Word.changed, hc]

theorem trackedText_missing (h : rack.registers.find? a = none) :
    trackedText rack (.register a) = ([], rack) := by
  simp [trackedText, Rack.get?, h]

/-- What reading some words for a block, with the tokens `ts` as the result, may
do to the register of this name. -/
structure Reads (r : Text) (ts : List Token) (rack rack' : Rack) : Prop where
  indexed : rack.registers.Indexed → rack'.registers.Indexed
  missing : rack.registers.find? r = none → rack'.registers.find? r = none
  found : ∀ n, rack.registers.find? r = some n →
    rack'.registers.find? r = some n ∨
      rack'.registers.find? r = some n.settled ∧ ∃ t ∈ ts, t.isOf r ∧ t.text = n.render
  texts : ∀ t ∈ ts, t.isOf r → t.text ≠ [] →
    ∃ n, rack.registers.find? r = some n ∧ t.text = n.render

variable {t : Token} {w : BlockWriter}

namespace Reads

variable {ts us : List Token}

theorem none_read (rack : Rack) : Reads r [] rack rack :=
  ⟨id, id, fun _ h => .inl h, by simp⟩

theorem unread (h : t.isOf r → t.text = []) (hregs : rack'.registers = rack.registers) :
    Reads r [t] rack rack' := by
  refine ⟨fun hi => hregs ▸ hi, fun hn => hregs ▸ hn, fun n hn => .inl (hregs ▸ hn),
    fun u hu hof hne => ?_⟩
  rw [List.mem_singleton.mp hu] at hof hne
  exact absurd (h hof) hne

theorem append (hi : rack.registers.Indexed) (h : Reads r ts rack rack')
    (h' : rack'.registers.Indexed → Reads r us rack' rack'') : Reads r (ts ++ us) rack rack'' := by
  have h' := h' (h.indexed hi)
  refine ⟨fun hi => h'.indexed (h.indexed hi), fun hn => h'.missing (h.missing hn), fun n hn => ?_,
    fun t ht hof hne => ?_⟩
  · rcases h.found n hn with hn' | ⟨hn', t, ht, htn⟩
    · rcases h'.found n hn' with hn'' | ⟨hn'', t, ht, htn⟩
      · exact .inl hn''
      · exact .inr ⟨hn'', t, List.mem_append_right ts ht, htn⟩
    · have htn : ∃ t ∈ ts ++ us, t.isOf r ∧ t.text = n.render :=
        ⟨t, List.mem_append_left us ht, htn⟩
      rcases h'.found _ hn' with hn'' | ⟨hn'', -⟩
      · exact .inr ⟨hn'', htn⟩
      · exact .inr ⟨n.settled_settled ▸ hn'', htn⟩
  · rcases List.mem_append.mp ht with ht | ht
    · exact h.texts t ht hof hne
    · obtain ⟨n', hn', htext⟩ := h'.texts t ht hof hne
      cases hr : rack.registers.find? r with
      | none => simp [h.missing hr] at hn'
      | some n =>
        rcases h.found n hr with hsame | ⟨hsettled, -⟩
        · rw [hsame] at hn'
          exact ⟨n, rfl, Option.some.inj hn' ▸ htext⟩
        · rw [hsettled] at hn'
          exact ⟨n, rfl, htext.trans (Option.some.inj hn' ▸ n.render_settled)⟩

theorem register (hi : rack.registers.Indexed) (ha : rack.registers.find? a = some n)
    (hof : t.isOf r = decide (normalName a = normalName r)) (htext : t.text = n.render) :
    Reads r [t] rack { rack with registers := rack.registers.modify a Numeric.settled } := by
  by_cases h : normalName r = normalName a
  · have hname : rack.registers.find? r = some n := by
      rw [← ha, Registers.find?, Registers.find?, Registers.position?, Registers.position?, h]
    refine ⟨fun hi => hi.modify a _, fun hn => ?_, fun n' hn => .inr ?_, fun u hu _ _ => ?_⟩
    · rw [hname] at hn
      cases hn
    · rw [hname] at hn
      obtain rfl := Option.some.inj hn
      refine ⟨?_, t, List.mem_singleton_self t, ?_, htext⟩
      · rw [Registers.find?_modify_same h, hname]
        rfl
      · rw [hof, h]
        simp
    · rw [List.mem_singleton.mp hu]
      exact ⟨n, hname, htext⟩
  · have hkept : (rack.registers.modify a Numeric.settled).find? r = rack.registers.find? r :=
      Registers.find?_modify_other hi h
    refine ⟨fun hi => hi.modify a _, fun hn => hkept ▸ hn, fun n' hn => .inl (hkept ▸ hn),
      fun u hu hu' _ => ?_⟩
    rw [List.mem_singleton.mp hu, hof, decide_eq_true_eq] at hu'
    exact absurd hu'.symm h

theorem queued (hi : rack.registers.Indexed) (q : Queued) :
    Reads r [⟨.queued q, (queuedText rack q).1⟩] rack (queuedText rack q).2 := by
  cases q with
  | once w => exact unread (by simp [Token.isOf, Origin.isOf]) rfl
  | code c => exact unread (by simp [Token.isOf, Origin.isOf]) rfl
  | shared ref =>
    cases ref with
    | loose i =>
      refine unread (by simp [Token.isOf, Origin.isOf]) ?_
      simp only [queuedText, Rack.emit, Rack.get?]
      split <;> rfl
    | register a =>
      cases ha : rack.registers.find? a with
      | none =>
        rw [queuedText_missing ha]
        exact unread (fun _ => rfl) rfl
      | some n =>
        rw [queuedText_register ha]
        exact register hi ha rfl rfl

theorem tracked (hi : rack.registers.Indexed) (ref : WordRef) :
    Reads r [⟨.tracked ref, (trackedText rack ref).1⟩] rack (trackedText rack ref).2 := by
  cases ref with
  | loose i =>
    refine unread (by simp [Token.isOf, Origin.isOf]) ?_
    simp only [trackedText, Rack.emit, Rack.get?]
    repeat' split
    all_goals rfl
  | register a =>
    cases ha : rack.registers.find? a with
    | none =>
      rw [trackedText_missing ha]
      exact unread (fun _ => rfl) rfl
    | some n =>
      cases hc : n.changed with
      | false =>
        rw [trackedText_unflagged ha hc]
        exact unread (fun _ => rfl) rfl
      | true =>
        rw [trackedText_flagged ha hc]
        exact register hi ha rfl rfl

theorem tokens {α : Type} {origin : α → Origin} {read : Rack → α → Text × Rack}
    (hread : ∀ rack : Rack, rack.registers.Indexed → ∀ a,
      Reads r [⟨origin a, (read rack a).1⟩] rack (read rack a).2)
    (as : List α) (hi : rack.registers.Indexed) :
    Reads r (BlockWriter.tokens origin read rack as).1 rack
      (BlockWriter.tokens origin read rack as).2 := by
  induction as generalizing rack with
  | nil => exact none_read rack
  | cons a as ih => exact append hi (hread rack hi a) ih

end Reads

theorem tracked_flagged {refs : List WordRef} (hi : rack.registers.Indexed)
    (hn : rack.registers.find? r = some n) (hc : n.changed = true) (href : .register r ∈ refs) :
    ∃ t ∈ (tokens .tracked trackedText rack refs).1, t.isOf r ∧ t.text = n.render := by
  induction refs generalizing rack with
  | nil => simp at href
  | cons ref refs ih =>
    have hfirst := Reads.tracked (r := r) hi ref
    by_cases hr : ref = .register r
    · subst hr
      refine ⟨_, List.mem_cons_self, by simp [Token.isOf, Origin.isOf], ?_⟩
      exact congrArg Prod.fst (trackedText_flagged hn hc)
    · rcases hfirst.found n hn with hn' | ⟨-, t, ht, htn⟩
      · have href' : .register r ∈ refs := by
          rcases List.mem_cons.mp href with h | h
          · exact absurd h.symm hr
          · exact h
        obtain ⟨t, ht, htn⟩ := ih (hfirst.indexed hi) hn' href'
        exact ⟨t, List.mem_cons_of_mem _ ht, htn⟩
      · rw [List.mem_singleton.mp ht] at htn
        exact ⟨_, List.mem_cons_self, htn⟩

theorem tracked_unflagged {refs : List WordRef} (hi : rack.registers.Indexed)
    (hn : ∀ n, rack.registers.find? r = some n → n.changed = false) :
    ∀ t ∈ (tokens .tracked trackedText rack refs).1, t.isOf r → t.text = [] := by
  induction refs generalizing rack with
  | nil => simp [tokens]
  | cons ref refs ih =>
    have hfirst := Reads.tracked (r := r) hi ref
    have hsilent : (⟨.tracked ref, (trackedText rack ref).1⟩ : Token).isOf r →
        (trackedText rack ref).1 = [] := by
      intro hof
      cases ref with
      | loose i => simp [Token.isOf, Origin.isOf] at hof
      | register a =>
        have ha : normalName a = normalName r := by simpa [Token.isOf, Origin.isOf] using hof
        cases hr : rack.registers.find? a with
        | none => rw [trackedText_missing hr]
        | some n =>
          have hname : rack.registers.find? r = some n := by
            rw [← hr, Registers.find?, Registers.find?, Registers.position?,
              Registers.position?, ha]
          rw [trackedText_unflagged hr (hn n hname)]
    intro t ht hof
    rcases List.mem_cons.mp ht with rfl | ht
    · exact hsilent hof
    · refine ih (hfirst.indexed hi) (fun n hn' => ?_) t ht hof
      cases hr : rack.registers.find? r with
      | none => simp [hfirst.missing hr] at hn'
      | some n₀ =>
        have h₀ := hn n₀ hr
        rcases hfirst.found n₀ hr with h | ⟨h, -⟩
        · rw [h] at hn'
          exact Option.some.inj hn' ▸ h₀
        · rw [h] at hn'
          rw [← Option.some.inj hn', Numeric.settled]
          split
          · rfl
          · exact h₀

def due (w : BlockWriter) (rack : Rack) : List Token :=
  let queued := tokens .queued queuedText rack w.pending
  (queued.1 ++ (tokens .tracked trackedText queued.2 w.tracked).1).filter (!·.text.isEmpty)

def spent (w : BlockWriter) (rack : Rack) : Rack :=
  (tokens .tracked trackedText (tokens .queued queuedText rack w.pending).2 w.tracked).2

theorem mem_due : t ∈ w.due rack ↔
    t ∈ (tokens .queued queuedText rack w.pending).1 ++
      (tokens .tracked trackedText (tokens .queued queuedText rack w.pending).2 w.tracked).1 ∧
      t.text ≠ [] := by
  rw [due, List.mem_filter, Bool.not_eq_true', List.isEmpty_eq_false_iff]

theorem reads_due (hi : rack.registers.Indexed) (w : BlockWriter) :
    Reads r ((tokens .queued queuedText rack w.pending).1 ++
      (tokens .tracked trackedText (tokens .queued queuedText rack w.pending).2 w.tracked).1)
      rack (w.spent rack) :=
  Reads.append hi (Reads.tokens (fun _ hi q => Reads.queued hi q) w.pending hi)
    (Reads.tokens (fun _ hi ref => Reads.tracked hi ref) w.tracked)

theorem text_of_mem_due (hi : rack.registers.Indexed) (ht : t ∈ w.due rack) (hof : t.isOf r) :
    ∃ n, rack.registers.find? r = some n ∧ t.text = n.render := by
  obtain ⟨ht, hne⟩ := mem_due.mp ht
  exact (reads_due hi w).texts t ht hof hne

theorem spent_found (hi : rack.registers.Indexed) (hr : n.render ≠ [])
    (hn : rack.registers.find? r = some n) :
    (w.spent rack).registers.find? r = some n ∨
      (w.spent rack).registers.find? r = some n.settled ∧
        ∃ t ∈ w.due rack, t.isOf r ∧ t.text = n.render := by
  rcases (reads_due hi w).found n hn with h | ⟨h, t, ht, hof, htext⟩
  · exact .inl h
  · exact .inr ⟨h, t, mem_due.mpr ⟨ht, htext ▸ hr⟩, hof, htext⟩

theorem due_flagged (hi : rack.registers.Indexed) (hr : n.render ≠ [])
    (hn : rack.registers.find? r = some n) (hc : n.changed = true)
    (href : .register r ∈ w.tracked) : ∃ t ∈ w.due rack, t.isOf r ∧ t.text = n.render := by
  have hq := Reads.tokens (r := r) (fun _ hi q => Reads.queued hi q) w.pending hi
  rcases hq.found n hn with hn' | ⟨-, t, ht, hof, htext⟩
  · obtain ⟨t, ht, hof, htext⟩ := tracked_flagged (hq.indexed hi) hn' hc href
    exact ⟨t, mem_due.mpr ⟨List.mem_append_right _ ht, htext ▸ hr⟩, hof, htext⟩
  · exact ⟨t, mem_due.mpr ⟨List.mem_append_left _ ht, htext ▸ hr⟩, hof, htext⟩

theorem mem_tokens_origin {α : Type} {origin : α → Origin} {read : Rack → α → Text × Rack}
    {as : List α} (h : t ∈ (tokens origin read rack as).1) :
    ∃ a ∈ as, t.origin = origin a := by
  induction as generalizing rack with
  | nil => simp [tokens] at h
  | cons a as ih =>
    rcases List.mem_cons.mp h with rfl | h
    · exact ⟨a, List.mem_cons_self, rfl⟩
    · obtain ⟨b, hb, hb'⟩ := ih h
      exact ⟨b, List.mem_cons_of_mem a hb, hb'⟩

theorem due_unflagged (hi : rack.registers.Indexed)
    (hq : ∀ q ∈ w.pending, (Origin.queued q).isOf r = false)
    (hn : ∀ n, rack.registers.find? r = some n → n.changed = false) :
    ∀ t ∈ w.due rack, t.isOf r = false := by
  have hreads := Reads.tokens (r := r) (fun _ hi q => Reads.queued hi q) w.pending hi
  have hnone : ∀ t ∈ (tokens .queued queuedText rack w.pending).1, t.isOf r = false := by
    intro t ht
    obtain ⟨q, hmem, horigin⟩ := mem_tokens_origin ht
    rw [Token.isOf, horigin]
    exact hq q hmem
  intro t ht
  obtain ⟨ht, hne⟩ := mem_due.mp ht
  rcases List.mem_append.mp ht with ht | ht
  · exact hnone t ht
  · refine Bool.eq_false_iff.mpr fun hof => hne ?_
    refine tracked_unflagged (hreads.indexed hi) (fun n hn' => ?_) t ht hof
    cases hr : rack.registers.find? r with
    | none => simp [hreads.missing hr] at hn'
    | some n₀ =>
      rcases hreads.found n₀ hr with h | ⟨-, t, ht, hof, -⟩
      · rw [h] at hn'
        exact Option.some.inj hn' ▸ hn n₀ hr
      · simp [hnone t ht] at hof

theorem assemble_none {b : Bool} (h : w.due rack = []) :
    w.assemble rack b = (none, { w with pending := [] }, w.spent rack) := by
  simp only [due] at h
  simp only [assemble, h, List.isEmpty_nil, if_true, spent]

theorem takeNumber_eq (w : BlockWriter) :
    ∃ t counter, w.takeNumber = (t, { w with number := counter }) := by
  cases h : (Word.counter w.number).shouldOutput with
  | true => exact ⟨w.number.render,
    w.number.increment, by simp [takeNumber, Word.token, h, Word.written, Word.render]⟩
  | false => exact ⟨[], w.number, by simp [takeNumber, Word.token, h]⟩

theorem assemble_some {b : Bool} (h : w.due rack ≠ []) :
    ∃ number counter, w.assemble rack b =
      (some (Block.line w.separator ⟨number, w.due rack⟩),
        { w with pending := [], number := counter, written := ⟨number, w.due rack⟩ :: w.written },
        w.spent rack) := by
  simp only [due] at h ⊢
  simp only [assemble, List.isEmpty_iff, h, if_false, spent]
  split
  · obtain ⟨t, counter, hnumber⟩ := takeNumber_eq { w with pending := [] }
    rw [hnumber]
    exact ⟨some t, counter, rfl⟩
  · exact ⟨none, w.number, rfl⟩

end BlockWriter
end Toolpath
