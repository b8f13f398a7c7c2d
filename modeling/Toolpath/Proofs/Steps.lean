import Toolpath.Proofs.Blocks
import Toolpath.Proofs.Doubles
import Toolpath.Proofs.Footprints
import Toolpath.Proofs.Memos

/-!
# Runs, step by step

A run starts with an opened machine and carries out one command after the other.
What a step does is what the verb of its command may do. Along every run the
register table stays indexed, the same registers are tracked, and the line of
each block that was written was handed over.
-/

namespace Toolpath.Machine

open Registers (normalName)

variable {S : Machine → Deed → Prop} {p : Profile} {m m' m'' : Machine} {c : Command} {r : Text}

/-- What a block leaves behind: no machine differs from the one before it in more. -/
theorem wroteBlock_cases (m : Machine) :
    (m.writer.due m.rack = [] ∧
      m.wroteBlock =
        { m with writer := { m.writer with pending := [] }, rack := m.writer.spent m.rack }) ∨
    (m.writer.due m.rack ≠ [] ∧ ∃ number counter,
      (m.writer.assemble m.rack true).1 =
        some (Block.line m.writer.separator ⟨number, m.writer.due m.rack⟩) ∧
      m.wroteBlock = { m with
        writer := { m.writer with
          pending := [], number := counter
          written := ⟨number, m.writer.due m.rack⟩ :: m.writer.written }
        rack := m.writer.spent m.rack
        outlet := (m.outlet.writeLine
          (Block.line m.writer.separator ⟨number, m.writer.due m.rack⟩)).2 }) := by
  by_cases h : m.writer.due m.rack = []
  · refine .inl ⟨h, ?_⟩
    rw [wroteBlock, BlockWriter.assemble_none h]
  · obtain ⟨number, counter, ha⟩ := BlockWriter.assemble_some (b := true) h
    refine .inr ⟨h, number, counter, by rw [ha], ?_⟩
    rw [wroteBlock, ha]
    rfl

theorem wroteBlock_rack (m : Machine) : m.wroteBlock.rack = m.writer.spent m.rack := by
  rcases wroteBlock_cases m with ⟨-, h⟩ | ⟨-, number, counter, -, h⟩ <;> rw [h]

theorem wroteBlock_pending (m : Machine) : m.wroteBlock.writer.pending = [] := by
  rcases wroteBlock_cases m with ⟨-, h⟩ | ⟨-, number, counter, -, h⟩ <;> rw [h]

theorem wroteBlock_vars (m : Machine) : m.wroteBlock.vars = m.vars := by
  rcases wroteBlock_cases m with ⟨-, h⟩ | ⟨-, number, counter, -, h⟩ <;> rw [h]

theorem wroteBlock_modal (m : Machine) : m.wroteBlock.modal = m.modal := by
  rcases wroteBlock_cases m with ⟨-, h⟩ | ⟨-, number, counter, -, h⟩ <;> rw [h]

theorem wroteBlock_circle (m : Machine) : m.wroteBlock.circle = m.circle := by
  rcases wroteBlock_cases m with ⟨-, h⟩ | ⟨-, number, counter, -, h⟩ <;> rw [h]

theorem wroteBlock_written (m : Machine) :
    (m.writer.due m.rack = [] ∧ m.wroteBlock.writer.written = m.writer.written) ∨
    (m.writer.due m.rack ≠ [] ∧ ∃ number,
      m.wroteBlock.writer.written = ⟨number, m.writer.due m.rack⟩ :: m.writer.written) := by
  rcases wroteBlock_cases m with ⟨hd, h⟩ | ⟨hd, number, counter, -, h⟩
  · exact .inl ⟨hd, by rw [h]⟩
  · exact .inr ⟨hd, number, by rw [h]⟩

def flagged (m : Machine) (r : Text) : Bool :=
  ((m.rack.registers.find? r).map Numeric.changed).getD false

def word (m : Machine) (r : Text) : Text := (m.format r).format (m.value r)

theorem word_eq_render {n : Numeric} (h : m.rack.registers.find? r = some n) :
    m.word r = n.render := by
  simp [word, format, value, h, Numeric.render]

theorem render_ne_nil (n : Numeric) : n.render ≠ [] := n.format.format_ne_nil n.value

theorem word?_due (hi : m.rack.registers.Indexed) (number : Option Text) :
    ((∀ t ∈ m.writer.due m.rack, t.isOf r = false) ∧
      Block.word? r ⟨number, m.writer.due m.rack⟩ = none) ∨
    ((∃ t ∈ m.writer.due m.rack, t.isOf r = true) ∧
      Block.word? r ⟨number, m.writer.due m.rack⟩ = some (m.word r)) := by
  simp only [Block.word?]
  cases h : ((m.writer.due m.rack).filter (Token.isOf r)).getLast? with
  | none =>
    refine .inl ⟨fun t ht => ?_, rfl⟩
    have hnil := List.getLast?_eq_none_iff.mp h
    simpa using List.filter_eq_nil_iff.mp hnil t ht
  | some t =>
    obtain ⟨ht, hof⟩ := List.mem_filter.mp (List.mem_of_getLast? h)
    obtain ⟨n, hn, htext⟩ := BlockWriter.text_of_mem_due hi ht hof
    refine .inr ⟨⟨t, ht, hof⟩, ?_⟩
    rw [Option.map_some, htext, word_eq_render hn]

theorem wroteBlock_value (hi : m.rack.registers.Indexed) :
    m.wroteBlock.value r = m.value r ∧ m.wroteBlock.format r = m.format r := by
  simp only [Machine.value, Machine.format, wroteBlock_rack]
  cases hn : m.rack.registers.find? r with
  | none => simp [(BlockWriter.reads_due hi m.writer).missing hn]
  | some n =>
    rcases BlockWriter.spent_found (w := m.writer) hi (render_ne_nil n) hn with h | ⟨h, -⟩
    · simp [h]
    · simp [h, n.value_settled, n.format_settled]

theorem wroteBlock_word (hi : m.rack.registers.Indexed) : m.wroteBlock.word r = m.word r := by
  obtain ⟨hvalue, hformat⟩ := wroteBlock_value (r := r) hi
  rw [word, word, hvalue, hformat]

theorem wroteBlock_flagged (hi : m.rack.registers.Indexed) (ht : .register r ∈ m.writer.tracked)
    (hf : m.flagged r = true) :
    ∃ b : Block, m.wroteBlock.writer.written = b :: m.writer.written ∧
      b.word? r = some (m.wroteBlock.word r) := by
  cases hn : m.rack.registers.find? r with
  | none => simp [flagged, hn] at hf
  | some n =>
    have hc : n.changed = true := by simpa [flagged, hn] using hf
    obtain ⟨t, ht, hof, -⟩ := BlockWriter.due_flagged hi (render_ne_nil n) hn hc ht
    rcases wroteBlock_written m with ⟨hnil, -⟩ | ⟨-, number, hw⟩
    · simp [hnil] at ht
    · refine ⟨_, hw, ?_⟩
      rcases word?_due (r := r) hi number with ⟨hnone, -⟩ | ⟨-, h⟩
      · simp [hnone t ht] at hof
      · rw [h, wroteBlock_word hi]

theorem wroteBlock_unflagged (hi : m.rack.registers.Indexed)
    (hq : ∀ q ∈ m.writer.pending, (Origin.queued q).isOf r = false) (hf : m.flagged r = false) :
    ∃ bs : List Block, m.wroteBlock.writer.written = bs ++ m.writer.written ∧
      ∀ b ∈ bs, b.word? r = none := by
  rcases wroteBlock_written m with ⟨-, hw⟩ | ⟨-, number, hw⟩
  · exact ⟨[], hw, by simp⟩
  · refine ⟨[⟨number, m.writer.due m.rack⟩], hw, ?_⟩
    have hnone := BlockWriter.due_unflagged (r := r) hi hq fun n hn => by
      simpa [flagged, hn] using hf
    rcases word?_due (r := r) hi number with ⟨-, h⟩ | ⟨⟨t, ht, hof⟩, -⟩
    · simpa using h
    · simp [hnone t ht] at hof

structure Alike (m m' : Machine) : Prop where
  verbs : m'.verbs = m.verbs
  tracked : m'.writer.tracked = m.writer.tracked
  separator : m'.writer.separator = m.writer.separator

theorem Alike.refl (m : Machine) : Alike m m := ⟨rfl, rfl, rfl⟩

theorem Alike.trans (h : Alike m m') (h' : Alike m' m'') : Alike m m'' :=
  ⟨h'.verbs.trans h.verbs, h'.tracked.trans h.tracked, h'.separator.trans h.separator⟩

variable {d : Deed} {steps : List (Command × Machine)}

theorem Does.alike (h : Does d m m') : Alike m m' := by
  cases h with
  | select =>
    simp only [selected]
    split <;> exact ⟨rfl, rfl, rfl⟩
  | block =>
    rcases wroteBlock_cases m with ⟨-, h⟩ | ⟨-, number, counter, -, h⟩ <;>
      rw [h] <;> exact ⟨rfl, rfl, rfl⟩
  | _ => exact ⟨rfl, rfl, rfl⟩

theorem Course.alike (h : Course S m m') : Alike m m' :=
  h.kept Alike.refl Alike.trans fun _ _ _ _ hd => hd.alike

theorem Does.indexed (h : Does d m m') (hi : m.rack.registers.Indexed) :
    m'.rack.registers.Indexed := by
  cases h with
  | hold _ name x n found => exact hi.modify name _
  | flag _ b name =>
    rw [Rack.flag_register]
    exact hi.modify name _
  | clearFlags => exact hi.clearFlags
  | block =>
    rw [wroteBlock_rack]
    exact (BlockWriter.reads_due (r := []) hi m.writer).indexed hi
  | _ => exact hi

theorem Does.has (h : Does d m m') (hi : m.rack.registers.Indexed)
    (hr : m.rack.registers.Has r) : m'.rack.registers.Has r := by
  have hmodify (a : Text) (f : Numeric → Numeric) : (m.rack.registers.modify a f).Has r := by
    obtain ⟨n, hn⟩ := hr
    by_cases ha : normalName r = normalName a
    · exact ⟨f n, by rw [Registers.find?_modify_same ha, hn]; rfl⟩
    · exact ⟨n, by rw [Registers.find?_modify_other hi ha, hn]⟩
  cases h with
  | hold _ a x n found => exact hmodify a _
  | flag _ b a =>
    rw [Rack.flag_register]
    exact hmodify a _
  | clearFlags =>
    obtain ⟨n, hn⟩ := hr
    exact ⟨{ n with changed := false }, by rw [Registers.find?_clearFlags, hn]; rfl⟩
  | block =>
    obtain ⟨n, hn⟩ := hr
    rw [wroteBlock_rack]
    rcases (BlockWriter.reads_due hi m.writer).found n hn with h | ⟨h, -⟩
    · exact ⟨n, h⟩
    · exact ⟨n.settled, h⟩
  | _ => exact hr

theorem Does.written (h : Does d m m') (hd : d ≠ .block) :
    m'.writer.written = m.writer.written := by
  cases h with
  | select =>
    simp only [selected]
    split <;> rfl
  | block => exact absurd rfl hd
  | _ => rfl

theorem Course.written (hS : ∀ m d, S m d → d ≠ .block) (h : Course S m m') :
    m'.writer.written = m.writer.written :=
  h.kept (R := fun a b => b.writer.written = a.writer.written)
    (fun _ => rfl) (fun h h' => h'.trans h) fun d a _ hd hab => hab.written (hS a d hd)

def HandsOver (m m' : Machine) : Prop :=
  ∃ blocks lines, m'.writer.written = blocks ++ m.writer.written ∧
    m'.outlet.lines = m.outlet.lines ++ lines ∧
    (blocks.reverse.map (Block.line m.writer.separator)).Sublist lines ∧
    m'.writer.separator = m.writer.separator

theorem HandsOver.refl (m : Machine) : HandsOver m m := ⟨[], [], by simp⟩

theorem HandsOver.trans (h : HandsOver m m') (h' : HandsOver m' m'') : HandsOver m m'' := by
  obtain ⟨bs, ls, hb, hl, hs, hsep⟩ := h
  obtain ⟨bs', ls', hb', hl', hs', hsep'⟩ := h'
  refine ⟨bs' ++ bs, ls ++ ls', ?_, ?_, ?_, hsep'.trans hsep⟩
  · rw [hb', hb, List.append_assoc]
  · rw [hl', hl, List.append_assoc]
  · rw [List.reverse_append, List.map_append]
    exact hs.append (hsep ▸ hs')

theorem lines_of_taken {o : Outlet} {t : Text} (taken : (o.writeLine t).1 = none) :
    (o.writeLine t).2.lines = o.lines ++ [t] := by
  have hkept : ∀ o : Outlet, (o.pass t).2.record = o.record := by
    intro o
    unfold Outlet.pass
    split <;> rfl
  cases hr : o.record.refuses o.record.calls with
  | true => simp [Outlet.writeLine, MemorySink.writeLine, hr] at taken
  | false =>
    simp [Outlet.writeLine, MemorySink.writeLine, hr, Outlet.lines, hkept, MemorySink.lines]

theorem Does.handsOver (h : Does d m m') : HandsOver m m' := by
  cases h with
  | select =>
    simp only [selected]
    refine ⟨[], [], ?_, by simp, by simp, ?_⟩ <;> split <;> rfl
  | line _ t taken =>
    exact ⟨[], [t], rfl, lines_of_taken taken, by simp, rfl⟩
  | block _ taken =>
    rcases wroteBlock_cases m with ⟨-, h⟩ | ⟨-, number, counter, hline, h⟩
    · exact ⟨[], [], by rw [h]; rfl, by rw [h]; simp, by simp, by rw [h]⟩
    · refine ⟨[⟨number, m.writer.due m.rack⟩], _, by rw [h]; rfl, ?_,
        List.Sublist.refl _, by rw [h]⟩
      rw [h]
      exact lines_of_taken (taken _ hline)
  | _ => exact ⟨[], [], rfl, by simp, by simp, rfl⟩

theorem Course.handsOver (h : Course S m m') : HandsOver m m' :=
  h.kept HandsOver.refl HandsOver.trans fun _ _ _ _ hd => hd.handsOver

theorem performAt_ok {v : Verb} {u : Unit} (h : (performAt v c).run m = .ok u m') :
    (perform v c).run m = .ok u m' := by
  unfold performAt at h
  rw [run_tryCatch] at h
  cases hp : (perform v c).run m with
  | ok x m₁ =>
    rw [hp] at h
    exact h
  | error e m₁ =>
    rw [hp] at h
    cases e <;> cases h

theorem dispatch_ok {u : Unit} (h : (dispatch c).run m = .ok u m') :
    (m.verbs.resolve c = none ∧ ∃ stats log, m' = { m with stats, log }) ∨
    ∃ v c' stats m₁, m.verbs.resolve c = some (v, c') ∧
      (perform v c').run { m with stats } = .ok () m₁ ∧
      m' = { m₁ with last := if c'.isContinuation then m₁.last else c' } := by
  simp only [dispatch, count] at h
  change (do let m ← get; _ : Action Unit).run { m with stats := _ } = _ at h
  simp only [EStateM.run_bind, EStateM.run_get] at h
  cases hv : m.verbs.resolve c with
  | none =>
    simp only [hv] at h
    obtain ⟨_, m₁, h₁, h⟩ := run_bind_ok.mp h
    cases h₁
    obtain ⟨m₂, m₃, h₁, h⟩ := run_bind_ok.mp h
    cases h₁
    refine .inl ⟨rfl, ?_⟩
    split at h
    · cases h
    · cases h
      exact ⟨_, _, rfl⟩
  | some vc =>
    obtain ⟨v, c'⟩ := vc
    simp only [hv] at h
    obtain ⟨_, m₁, h₁, h⟩ := run_bind_ok.mp h
    refine .inr ⟨v, c', _, m₁, rfl, performAt_ok h₁, ?_⟩
    by_cases hc : c'.isContinuation
    · simp only [onlyIf, hc, Bool.not_true, Bool.false_eq_true, if_false] at h
      cases h
      simp [hc]
    · simp only [onlyIf, hc, Bool.not_false, if_true] at h
      cases h
      simp [hc]

/-- A command is carried out to its end; its source may have had notes to make. -/
def Step (c : Command) (m m' : Machine) : Prop :=
  ∃ notes, (dispatch c).run (m.addNotes notes) = .ok () m'

theorem Step.cases (h : Step c m m') :
    (m.verbs.resolve c = none ∧ ∃ stats log, m' = { m with stats, log }) ∨
    ∃ v c' stats log m₁, m.verbs.resolve c = some (v, c') ∧
      (perform v c').run { m with stats, log } = .ok () m₁ ∧
      m' = { m₁ with last := if c'.isContinuation then m₁.last else c' } := by
  obtain ⟨notes, h⟩ := h
  rcases dispatch_ok h with ⟨hv, stats, log, rfl⟩ | ⟨v, c', stats, m₁, hv, hp, rfl⟩
  · exact .inl ⟨hv, stats, log, rfl⟩
  · exact .inr ⟨v, c', stats, _, m₁, hv, hp, rfl⟩

theorem Step.course (h : Step c m m') :
    Course (fun a d => d = .book ∨
      ∃ v c', m.verbs.resolve c = some (v, c') ∧ Verb.May m.profile a v d) m m' := by
  rcases h.cases with ⟨hv, stats, log, rfl⟩ | ⟨v, c', stats, log, m₁, hv, hp, rfl⟩
  · exact Course.one (.inl rfl) (.book m m.tools stats m.cycles m.last log)
  · have hbook : Does .book m { m with stats, log } := .book m m.tools stats m.cycles m.last log
    have hverb := keepsTo_perform (p := m.profile) v c' { m with stats, log } rfl () m₁ hp
    refine (Course.one (.inl rfl) hbook).trans ((hverb.mono fun a d hd => ?_).trans ?_)
    · exact .inr ⟨v, c', hv, hd⟩
    · exact Course.one (.inl rfl) (.book m₁ m₁.tools m₁.stats m₁.cycles _ m₁.log)

/-! ## Runs -/

def Opens (p : Profile) (m : Machine) : Prop :=
  ∃ occasion outlet m₀ strict subject log, ∃ skip : Bool, start p occasion outlet = .ok m₀ ∧
    m = { m₀ with
      strict, subject, log
      vars := if skip then m₀.vars.set Variable.skipSameTool (.flag true) else m₀.vars }

theorem Opens.fresh (h : Opens p m) : m.Fresh p := by
  obtain ⟨occasion, outlet, m₀, strict, subject, log, skip, hstart, rfl⟩ := h
  have hfresh := start_fresh hstart
  refine { hfresh with vars := fun key hkey => ?_ }
  cases skip with
  | false => exact hfresh.vars key hkey
  | true =>
    have hne : ∀ key ∈ [Variable.cycle, Variable.cycleOnce, Variable.restate],
        key ≠ Variable.skipSameTool := by decide
    simpa [hne key hkey] using hfresh.vars key hkey

/-- Something holds of each command, the machine it finds and the one it leaves. -/
def Throughout (P : Command → Machine → Machine → Prop) : Machine → List (Command × Machine) → Prop
  | _, [] => True
  | m, (c, m') :: rest => P c m m' ∧ Throughout P m' rest

instance Throughout.decidable {P : Command → Machine → Machine → Prop}
    [∀ c m m', Decidable (P c m m')] : ∀ m steps, Decidable (Throughout P m steps)
  | _, [] => .isTrue trivial
  | _, (_, m') :: rest => @instDecidableAnd _ _ _ (Throughout.decidable m' rest)

/-- The commands are carried out one after the other, each with the machine that
it leaves. -/
def Leads : Machine → List (Command × Machine) → Prop := Throughout Step

def final (m : Machine) (steps : List (Command × Machine)) : Machine :=
  (steps.getLast?.map Prod.snd).getD m

theorem final_cons (m : Machine) (s : Command × Machine) (steps : List (Command × Machine)) :
    final m (s :: steps) = final s.2 steps := by
  cases steps with
  | nil => rfl
  | cons s' steps =>
    rw [final, final, List.getLast?_cons_cons, List.getLast?_cons]
    rfl

theorem final_append (m : Machine) (before after : List (Command × Machine)) :
    final m (before ++ after) = final (final m before) after := by
  induction before generalizing m with
  | nil => rfl
  | cons s before ih => rw [List.cons_append, final_cons, final_cons, ih]

theorem leads_append {before after : List (Command × Machine)} :
    Leads m (before ++ after) ↔ Leads m before ∧ Leads (final m before) after := by
  unfold Leads
  induction before generalizing m with
  | nil => simp [Throughout, final]
  | cons s before ih => rw [List.cons_append, Throughout, Throughout, ih, final_cons, and_assoc]

theorem Leads.kept {P : Machine → Prop} (hstep : ∀ c a b, P a → Step c a b → P b)
    (h : Leads m steps) (hm : P m) : P (final m steps) := by
  induction steps generalizing m with
  | nil => exact hm
  | cons s steps ih =>
    rw [final_cons]
    exact ih h.2 (hstep s.1 m s.2 hm h.1)

theorem Leads.handsOver (h : Leads m steps) : HandsOver m (final m steps) := by
  induction steps generalizing m with
  | nil => exact HandsOver.refl m
  | cons s steps ih =>
    rw [final_cons]
    exact h.1.course.handsOver.trans (ih h.2)

/-! ## Rehearsals -/

def trace (m : Machine) : List Command → Option (List (Command × Machine))
  | [] => some []
  | c :: cs =>
    match (dispatch c).run m with
    | .ok _ m' => (trace m' cs).map ((c, m') :: ·)
    | .error _ _ => none

theorem leads_of_trace {cs : List Command}
    (h : m.trace cs = some steps) : Leads m steps ∧ steps.map Prod.fst = cs := by
  induction cs generalizing m steps with
  | nil =>
    cases h
    exact ⟨trivial, rfl⟩
  | cons c cs ih =>
    rw [trace] at h
    cases hd : (dispatch c).run m with
    | error e m' => simp [hd] at h
    | ok u m' =>
      simp only [hd] at h
      obtain ⟨rest, hrest, rfl⟩ := Option.map_eq_some_iff.mp h
      obtain ⟨hleads, hcs⟩ := ih hrest
      exact ⟨⟨⟨[], hd⟩, hleads⟩, by simp [hcs]⟩

/-- Starts a machine, carries out some commands and then one more, and looks at
what came of them. -/
def rehearse (p : Profile) (cs : List Command) (c : Command)
    (check : Machine → List (Command × Machine) → Machine → Bool) : Bool :=
  match start p ⟨"part", "part.cl", ⟨2024, 1, 1, 0, 0, 0⟩⟩ {} with
  | .ok m => (m.trace cs).any fun steps =>
    match (dispatch c).run (final m steps) with
    | .ok _ m' => check m steps m'
    | .error _ _ => false
  | .error _ => false

theorem exists_of_rehearse {cs : List Command}
    {check : Machine → List (Command × Machine) → Machine → Bool}
    (h : rehearse p cs c check = true) :
    ∃ m steps m', Opens p m ∧ Leads m steps ∧ steps.map Prod.fst = cs ∧
      Step c (final m steps) m' ∧ check m steps m' = true := by
  unfold rehearse at h
  split at h
  case h_1 m hstart =>
    obtain ⟨steps, htrace, hcheck⟩ := (Option.any_eq_true _ _).mp h
    obtain ⟨hleads, hcs⟩ := leads_of_trace htrace
    have hopens : Opens p m := ⟨_, _, m, m.strict, m.subject, m.log, false, hstart, rfl⟩
    split at hcheck
    case h_1 m' hlast => exact ⟨m, steps, m', hopens, hleads, hcs, ⟨[], hlast⟩, hcheck⟩
    case h_2 => cases hcheck
  case h_2 => cases h

end Toolpath.Machine
