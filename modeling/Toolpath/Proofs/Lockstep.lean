import Toolpath.Proofs.Flags
import Toolpath.Proofs.Queue

/-!
# Machines in lockstep

An action looks at no flag, at no waiting word and at nothing that was written, and only a row
looks at the last command. Two machines that match in what is looked at do the same deeds and
match again afterwards.
-/

namespace Toolpath

namespace Registers

variable {rs : Registers} {a : Text} {f g : Numeric → Numeric}

theorem clearFlags_modify
    (h : ∀ n : Numeric, { f n with changed := false } = g { n with changed := false }) :
    (rs.modify a f).clearFlags = rs.clearFlags.modify a g := by
  have hp : rs.clearFlags.position? a = rs.position? a := rfl
  unfold Registers.modify
  rw [hp]
  cases rs.position? a with
  | none => rfl
  | some i =>
    have hlist : (rs.list.modify i f).map (fun n => { n with changed := false }) =
        (rs.list.map fun n => { n with changed := false }).modify i g := by
      apply List.ext_getElem?
      intro j
      rw [List.getElem?_map, List.getElem?_modify, List.getElem?_modify, List.getElem?_map]
      cases rs.list[j]? with
      | none => rfl
      | some n =>
        by_cases hij : i = j
        · simp [hij, h n]
        · simp [hij]
    simp only [clearFlags, hlist]

theorem clearFlags_modify_flag
    (h : ∀ n : Numeric, ({ f n with changed := false } : Numeric) = { n with changed := false }) :
    (rs.modify a f).clearFlags = rs.clearFlags := by
  rw [clearFlags_modify (g := id) h]
  unfold Registers.modify
  split
  · rw [List.modify_id]
  · rfl

theorem clearFlags_clearFlags (rs : Registers) : rs.clearFlags.clearFlags = rs.clearFlags := by
  simp [clearFlags, Function.comp_def]

theorem map_find?_eq {rs' : Registers} (h : rs'.clearFlags = rs.clearFlags) (a : Text) :
    ((rs'.find? a).map fun n => { n with changed := false }) =
      (rs.find? a).map fun n => { n with changed := false } := by
  rw [← find?_clearFlags, ← find?_clearFlags, h]

end Registers

namespace BlockWriter

variable {rack : Rack}

theorem clearFlags_settled (rs : Registers) (a : Text) :
    (rs.modify a Numeric.settled).clearFlags = rs.clearFlags := by
  refine Registers.clearFlags_modify_flag fun n => ?_
  unfold Numeric.settled
  split <;> rfl

theorem clearFlags_queuedText (rack : Rack) (q : Queued) :
    (queuedText rack q).2.registers.clearFlags = rack.registers.clearFlags := by
  cases q with
  | once w => rfl
  | code c => rfl
  | shared ref =>
    cases ref with
    | loose i =>
      simp only [queuedText, Rack.emit, Rack.get?]
      split <;> rfl
    | register a =>
      cases ha : rack.registers.find? a with
      | none => rw [queuedText_missing ha]
      | some n => rw [queuedText_register ha, clearFlags_settled]

theorem clearFlags_trackedText (rack : Rack) (ref : WordRef) :
    (trackedText rack ref).2.registers.clearFlags = rack.registers.clearFlags := by
  cases ref with
  | loose i =>
    simp only [trackedText, Rack.emit, Rack.get?]
    repeat' split
    all_goals rfl
  | register a =>
    cases ha : rack.registers.find? a with
    | none => rw [trackedText_missing ha]
    | some n =>
      cases hc : n.changed with
      | false => rw [trackedText_unflagged ha hc]
      | true => rw [trackedText_flagged ha hc, clearFlags_settled]

theorem clearFlags_tokens {α : Type} {origin : α → Origin} {read : Rack → α → Text × Rack}
    (hread : ∀ rack a, (read rack a).2.registers.clearFlags = rack.registers.clearFlags)
    (rack : Rack) (as : List α) :
    (tokens origin read rack as).2.registers.clearFlags = rack.registers.clearFlags := by
  induction as generalizing rack with
  | nil => rfl
  | cons a as ih => exact (ih _).trans (hread rack a)

theorem clearFlags_spent (w : BlockWriter) (rack : Rack) :
    (w.spent rack).registers.clearFlags = rack.registers.clearFlags :=
  (clearFlags_tokens clearFlags_trackedText _ _).trans (clearFlags_tokens clearFlags_queuedText _ _)

end BlockWriter

namespace Machine

open Registers (normalName)

variable {α β : Type} {m m' m'' n n' n'' : Machine} {d : Deed} {ds es : List Deed} {r : Text}

structure Matches (m n : Machine) : Prop where
  profile : n.profile = m.profile
  verbs : n.verbs = m.verbs
  registers : n.rack.registers.clearFlags = m.rack.registers.clearFlags
  modal : n.modal = m.modal
  vars : n.vars = m.vars
  circle : n.circle = m.circle

theorem Matches.refl (m : Machine) : Matches m m := ⟨rfl, rfl, rfl, rfl, rfl, rfl⟩

theorem Matches.value (h : Matches m n) (r : Text) : n.value r = m.value r := by
  have hfind :=
    congrArg (fun o => (o.map Numeric.value).getD 0) (Registers.map_find?_eq h.registers r)
  simpa [Machine.value, Function.comp_def] using hfind

theorem Matches.format (h : Matches m n) (r : Text) : n.format r = m.format r := by
  have hfind := congrArg (fun o => (o.map Numeric.format).getD Registers.coordinateFormat)
    (Registers.map_find?_eq h.registers r)
  simpa [Machine.format, Function.comp_def] using hfind

theorem Matches.word (h : Matches m n) (r : Text) : n.word r = m.word r := by
  rw [Machine.word, Machine.word, h.value, h.format]

theorem Matches.isModal (h : Matches m n) (r : Text) : n.isModal r = m.isModal r := by
  have hfind :=
    congrArg (fun o => (o.map Numeric.modal).getD true) (Registers.map_find?_eq h.registers r)
  simpa [Machine.isModal, Function.comp_def] using hfind

theorem Matches.found (h : Matches m n) {k : Numeric} (hk : m.rack.registers.find? r = some k) :
    ∃ l, n.rack.registers.find? r = some l := by
  have hfind := Registers.map_find?_eq h.registers r
  rw [hk] at hfind
  cases hl : n.rack.registers.find? r with
  | none => simp [hl] at hfind
  | some l => exact ⟨l, rfl⟩

theorem Matches.missing (h : Matches m n) (hk : m.rack.registers.find? r = none) :
    n.rack.registers.find? r = none := by
  have hfind := Registers.map_find?_eq h.registers r
  simpa [hk] using hfind

theorem Matches.active (h : Matches m n) (g : ModalGroup) : n.active g = m.active g := by
  rw [Machine.active, Machine.active, activeNamed, activeNamed, h.modal]

theorem Matches.position (h : Matches m n) : n.position = m.position := by
  rw [Machine.position, Machine.position, h.value, h.value, h.value]

/-- The deeds that no action sees the effect of. -/
def Offstage : Deed → Prop
  | .book | .line _ => True
  | .queue q => q.Proper
  | _ => False

/-- Nothing that an action looks at has changed. -/
def Passes (m m' : Machine) : Prop := Course (fun _ d => Offstage d) m m' ∧ m'.last = m.last

/-- The deeds of the list were done, in this order, and else nothing that an
action looks at has changed. -/
def Trace : List Deed → Machine → Machine → Prop
  | [], m, m' => Passes m m'
  | d :: ds, m, m' => ∃ m₁ m₂, Passes m m₁ ∧ d ≠ .book ∧ Orderly d ∧ Does d m₁ m₂ ∧ Trace ds m₂ m'

theorem Passes.refl (m : Machine) : Passes m m := ⟨Course.refl, rfl⟩

theorem Passes.trans (h : Passes m m') (h' : Passes m' m'') : Passes m m'' :=
  ⟨h.1.trans h'.1, h'.2.trans h.2⟩

theorem Passes.one (hd : Offstage d) (h : Does d m m') (hlast : m'.last = m.last) : Passes m m' :=
  ⟨Course.one hd h, hlast⟩

theorem Passes.trace (h : Passes m m') (h' : Trace ds m' m'') : Trace ds m m'' := by
  cases ds with
  | nil => exact h.trans h'
  | cons d ds =>
    obtain ⟨m₁, m₂, hpass, hrest⟩ := h'
    exact ⟨m₁, m₂, h.trans hpass, hrest⟩

theorem Trace.append (h : Trace ds m m') (h' : Trace es m' m'') : Trace (ds ++ es) m m'' := by
  induction ds generalizing m with
  | nil => exact h.trace h'
  | cons d ds ih =>
    obtain ⟨m₁, m₂, hpass, hbook, horderly, hdoes, hrest⟩ := h
    exact ⟨m₁, m₂, hpass, hbook, horderly, hdoes, ih hrest⟩

theorem Trace.one (hd : d ≠ .book) (horderly : Orderly d) (h : Does d m m') : Trace [d] m m' :=
  ⟨m, m', Passes.refl m, hd, horderly, h, Passes.refl m'⟩

theorem Offstage.orderly (h : Offstage d) : Orderly d := by
  cases d <;> first | exact h | trivial

theorem Does.last (h : Does d m m') (hd : d ≠ .book) : m'.last = m.last := by
  cases h with
  | book => exact absurd rfl hd
  | block => rcases wroteBlock_cases m with ⟨-, h⟩ | ⟨-, number, counter, -, h⟩ <;> rw [h]
  | _ => rfl

theorem Trace.last (h : Trace ds m m') : m'.last = m.last := by
  induction ds generalizing m with
  | nil => exact h.2
  | cons d ds ih =>
    obtain ⟨m₁, m₂, hpass, hbook, -, hdoes, hrest⟩ := h
    exact (ih hrest).trans ((hdoes.last hbook).trans hpass.2)

structure Untouched (m m' : Machine) : Prop where
  rack : m'.rack = m.rack
  written : m'.writer.written = m.writer.written
  modal : m'.modal = m.modal
  vars : m'.vars = m.vars
  circle : m'.circle = m.circle

theorem Passes.untouched (h : Passes m m') : Untouched m m' := by
  refine h.1.kept (R := Untouched) (fun _ => ⟨rfl, rfl, rfl, rfl, rfl⟩)
    (fun h h' => ⟨h'.rack.trans h.rack, h'.written.trans h.written, h'.modal.trans h.modal,
      h'.vars.trans h.vars, h'.circle.trans h.circle⟩) fun d a b hd hab => ?_
  cases hab with
  | book | queue | line => exact ⟨rfl, rfl, rfl, rfl, rfl⟩
  | _ => exact hd.elim

theorem Passes.matches (h : Passes m m') : Matches m m' := by
  have hsame := h.untouched
  exact ⟨h.1.profile, h.1.alike.verbs, by rw [hsame.rack], hsame.modal, hsame.vars, hsame.circle⟩

theorem Matches.symm (h : Matches m n) : Matches n m :=
  ⟨h.profile.symm, h.verbs.symm, h.registers.symm, h.modal.symm, h.vars.symm, h.circle.symm⟩

theorem Matches.trans (h : Matches m n) (h' : Matches n n') : Matches m n' :=
  ⟨h'.profile.trans h.profile, h'.verbs.trans h.verbs, h'.registers.trans h.registers,
    h'.modal.trans h.modal, h'.vars.trans h.vars, h'.circle.trans h.circle⟩

theorem Does.same_registers (h : Does d m m') (h' : Does d n n') (hd : d ≠ .book)
    (hm : Matches m n) :
    n'.rack.registers.clearFlags = m'.rack.registers.clearFlags := by
  cases h with
  | book => exact absurd rfl hd
  | hold _ a x k found =>
    cases h' with
    | hold _ _ _ l found' =>
      simp only [Rack.set_register]
      rw [Registers.modify_const (f := (Numeric.hold · x)) found,
        Registers.modify_const (f := (Numeric.hold · x)) found']
      have hhold : ∀ rs : Registers, (rs.modify a (Numeric.hold · x)).clearFlags =
          rs.clearFlags.modify a fun n => { n.hold x with changed := false } :=
        fun rs => Registers.clearFlags_modify fun _ => rfl
      rw [hhold, hhold, hm.registers]
  | flag _ b a =>
    cases h'
    have hflag : ∀ rack : Rack, (rack.flag b (.register a)).registers.clearFlags =
        rack.registers.clearFlags := by
      intro rack
      rw [Rack.flag_register]
      exact Registers.clearFlags_modify_flag (f := fun n => { n with changed := b }) fun _ => rfl
    rw [hflag, hflag, hm.registers]
  | clearFlags =>
    cases h'
    exact congrArg Registers.clearFlags hm.registers
  | block =>
    cases h'
    rw [wroteBlock_rack, wroteBlock_rack, BlockWriter.clearFlags_spent,
      BlockWriter.clearFlags_spent]
    exact hm.registers
  | _ =>
    cases h'
    exact hm.registers

theorem Does.same_modal (h : Does d m m') (h' : Does d n n') (hd : d ≠ .book) (hm : Matches m n) :
    n'.modal = m'.modal := by
  cases h with
  | book => exact absurd rfl hd
  | select | forget =>
    cases h'
    simp only [selected, hm.modal, hm.profile]
  | block =>
    cases h'
    rw [wroteBlock_modal, wroteBlock_modal, hm.modal]
  | _ =>
    cases h'
    exact hm.modal

theorem Does.same_vars (h : Does d m m') (h' : Does d n n') (hd : d ≠ .book) (hm : Matches m n) :
    n'.vars = m'.vars := by
  cases h with
  | book => exact absurd rfl hd
  | assign | unassign =>
    cases h'
    simp only [hm.vars]
  | block =>
    cases h'
    rw [wroteBlock_vars, wroteBlock_vars, hm.vars]
  | _ =>
    cases h'
    exact hm.vars

theorem Does.same_circle (h : Does d m m') (h' : Does d n n') (hd : d ≠ .book) (hm : Matches m n) :
    n'.circle = m'.circle := by
  cases h with
  | book => exact absurd rfl hd
  | circle =>
    cases h'
    rfl
  | block =>
    cases h'
    rw [wroteBlock_circle, wroteBlock_circle, hm.circle]
  | _ =>
    cases h'
    exact hm.circle

theorem Does.matches (h : Does d m m') (h' : Does d n n') (hd : d ≠ .book) (hm : Matches m n) :
    Matches m' n' :=
  ⟨h'.profile.trans (hm.profile.trans h.profile.symm),
    h'.alike.verbs.trans (hm.verbs.trans h.alike.verbs.symm),
    h.same_registers h' hd hm, h.same_modal h' hd hm, h.same_vars h' hd hm, h.same_circle h' hd hm⟩

theorem Trace.matches (h : Trace ds m m') (h' : Trace ds n n') (hm : Matches m n) :
    Matches m' n' := by
  induction ds generalizing m n with
  | nil => exact (h.matches.symm.trans hm).trans h'.matches
  | cons d ds ih =>
    obtain ⟨m₁, m₂, hpass, hbook, -, hdoes, hrest⟩ := h
    obtain ⟨n₁, n₂, hpass', -, -, hdoes', hrest'⟩ := h'
    have h₁ : Matches m₁ n₁ := (hpass.matches.symm.trans hm).trans hpass'.matches
    exact ih hrest hrest' (hdoes.matches hdoes' hbook h₁)

/-! ## Actions in lockstep -/

def Deed.sets? : Deed → Option Text
  | .hold name _ => if normalName name ∈ observed then some (normalName name) else none
  | _ => none

/-- Machines that match do the same deeds in the action. Of the observed registers
those deeds set the named ones at most, each of them once. -/
def Lockstep (names : List Text) (a : Action α) : Prop :=
  ∀ ⦃m n : Machine⦄ ⦃x y : α⦄ ⦃m' n' : Machine⦄, Matches m n → a.run m = .ok x m' →
    a.run n = .ok y n' →
    x = y ∧ ∃ ds, Trace ds m m' ∧ Trace ds n n' ∧ (ds.filterMap Deed.sets?).Sublist names

variable {names names' : List Text}

theorem Lockstep.mono {a : Action α} (h : Lockstep names a) (hsub : names.Sublist names') :
    Lockstep names' a := by
  intro m n x y m' n' hm hr hr'
  obtain ⟨hxy, ds, hds, hds', hnames⟩ := h hm hr hr'
  exact ⟨hxy, ds, hds, hds', hnames.trans hsub⟩

theorem lockstep_pure (x : α) : Lockstep names (pure x : Action α) := by
  intro m n y z m' n' _ h h'
  cases h
  cases h'
  exact ⟨rfl, [], Passes.refl m, Passes.refl n, List.nil_sublist names⟩

theorem lockstep_throw (e : Stop) : Lockstep names (throw e : Action α) := by
  intro m n x y m' n' _ h
  cases h

theorem lockstep_append {a : Action α} {f : α → Action β} (ha : Lockstep names a)
    (hf : ∀ x, Lockstep names' (f x)) : Lockstep (names ++ names') (a >>= f) := by
  intro m n x y m' n' hm h h'
  obtain ⟨u, m₁, h₁, h₂⟩ := run_bind_ok.mp h
  obtain ⟨w, n₁, h₁', h₂'⟩ := run_bind_ok.mp h'
  obtain ⟨rfl, ds, hds, hds', hsub⟩ := ha hm h₁ h₁'
  obtain ⟨hxy, es, hes, hes', hsub'⟩ := hf u (hds.matches hds' hm) h₂ h₂'
  refine ⟨hxy, ds ++ es, hds.append hes, hds'.append hes', ?_⟩
  rw [List.filterMap_append]
  exact hsub.append hsub'

theorem lockstep_bind {a : Action α} {f : α → Action β} (ha : Lockstep [] a)
    (hf : ∀ x, Lockstep names (f x)) : Lockstep names (a >>= f) :=
  lockstep_append ha hf

theorem lockstep_get {f : Machine → Action β} (hsame : ∀ m n, Matches m n → f n = f m)
    (hf : ∀ m, Lockstep names (f m)) : Lockstep names (get >>= f) := by
  intro m n x y m' n' hm h h'
  refine hf m hm h ?_
  rw [← hsame m n hm]
  exact h'

theorem lockstep_ite {c : Prop} [Decidable c] {a b : Action α} (ha : Lockstep names a)
    (hb : Lockstep names b) : Lockstep names (if c then a else b) := by
  split
  · exact ha
  · exact hb

theorem lockstep_onlyIf {b : Bool} {a : Action Unit} (ha : Lockstep names a) :
    Lockstep names (onlyIf b a) :=
  lockstep_ite ha (lockstep_pure ())

theorem lockstep_demand (e : Except Violation α) : Lockstep names (demand e) := by
  cases e with
  | ok x => exact lockstep_pure x
  | error v => exact lockstep_throw _

theorem lockstep_forIn (as : List β) {f : β → PUnit → Action (ForInStep PUnit)}
    (hf : ∀ x, Lockstep [] (f x PUnit.unit)) : Lockstep [] (forIn as PUnit.unit f) := by
  induction as with
  | nil => exact lockstep_pure _
  | cons x as ih =>
    rw [List.forIn_cons]
    refine lockstep_bind (hf x) fun r => ?_
    cases r with
    | done _ => exact lockstep_pure _
    | yield _ => exact ih

theorem lockstep_foldlM (bs : List β) {f : α → β → Action α} (hf : ∀ x b, Lockstep [] (f x b))
    (x : α) : Lockstep [] (bs.foldlM f x) := by
  induction bs generalizing x with
  | nil => exact lockstep_pure x
  | cons b bs ih =>
    rw [List.foldlM_cons]
    exact lockstep_bind (hf x b) ih

theorem lockstep_fixed {a : Action Unit} (ds : List Deed)
    (h : ∀ m m', a.run m = .ok () m' → Trace ds m m') :
    Lockstep (ds.filterMap Deed.sets?) a :=
  fun m n _ _ m' n' _ hr hr' =>
    ⟨rfl, ds, h m m' hr, h n n' hr', List.Sublist.refl _⟩

theorem lockstep_modify {f : Machine → Machine} (hd : d ≠ .book) (horderly : Orderly d)
    (hf : ∀ m, Does d m (f m)) : Lockstep ([d].filterMap Deed.sets?) (modify f : Action PUnit) := by
  refine lockstep_fixed [d] fun m m' h => ?_
  cases h
  exact Trace.one hd horderly (hf m)

def Passing (a : Action α) : Prop := ∀ m x m', a.run m = .ok x m' → Passes m m'

theorem passing_pure (x : α) : Passing (pure x : Action α) := by
  intro m y m' h
  cases h
  exact Passes.refl m

theorem passing_bind {a : Action α} {f : α → Action β} (ha : Passing a) (hf : ∀ x, Passing (f x)) :
    Passing (a >>= f) := by
  intro m y m' h
  obtain ⟨x, m₁, h₁, h₂⟩ := run_bind_ok.mp h
  exact (ha m x m₁ h₁).trans (hf x m₁ y m' h₂)

theorem passing_get {f : Machine → Action β} (hf : ∀ m, Passing (f m)) : Passing (get >>= f) :=
  fun m => hf m m

theorem passing_demand (e : Except Violation α) : Passing (demand e) := by
  intro m x m' h
  cases e with
  | ok y =>
    cases h
    exact Passes.refl m
  | error v => cases h

theorem passing_modify {f : Machine → Machine}
    (hf : ∀ m, Does .book m (f m) ∧ (f m).last = m.last) : Passing (modify f : Action PUnit) := by
  intro m x m' h
  cases h
  exact Passes.one (d := .book) trivial (hf m).1 (hf m).2

theorem passing_note (level : Level) (message : Text) (details : List (Text × Detail)) :
    Passing (note level message details) :=
  passing_modify fun m => ⟨.book m m.tools m.stats m.cycles m.last _, rfl⟩

theorem passing_count (f : Stats → Stats) : Passing (count f) :=
  passing_modify fun m => ⟨.book m m.tools _ m.cycles m.last m.log, rfl⟩

theorem passing_keepCycle (c : CycleMemo) : Passing (keepCycle c) :=
  passing_modify fun m => ⟨.book m m.tools m.stats _ m.last m.log, rfl⟩

theorem passing_resetCycles (name : Text) : Passing (resetCycles name) :=
  passing_modify fun m => ⟨.book m m.tools m.stats _ m.last m.log, rfl⟩

theorem passing_openCycle (name : Text) : Passing (openCycle name) := by
  refine passing_get fun m => ?_
  cases m.cycleMemo? name with
  | some c => exact passing_pure c
  | none =>
    refine passing_bind (passing_demand _) fun c => passing_bind ?_ fun _ => passing_pure c
    exact passing_modify fun m => ⟨.book m m.tools m.stats _ m.last m.log, rfl⟩

theorem passing_enterTool (t : Tool) : Passing (enterTool t) := by
  intro m x m' h
  cases h
  dsimp only
  split
  · exact Passes.refl m
  · exact Passes.one (d := .book) trivial (.book m _ m.stats m.cycles m.last m.log) rfl

theorem passing_queue {q : Queued} (hq : q.Proper) : Passing (queue q) := by
  intro m x m' h
  cases h
  exact Passes.one (d := .queue q) hq (.queue m q) rfl

theorem passing_emit (f : Function) : Passing (emit f) := by
  intro m x m' h
  rw [emit_run] at h
  by_cases hf : m.profile.code f = []
  · rw [if_pos hf] at h
    exact passing_note _ _ _ m x m' h
  · rw [if_neg hf] at h
    exact passing_queue (q := codeOf m.profile f) hf m x m' h

theorem passing_remark (title text : Text) : Passing (remark title text) := by
  unfold remark
  split
  · exact passing_pure ()
  · refine passing_get fun m => ?_
    intro m x m' h
    obtain ⟨taken, rfl⟩ := writeLine_ok.mp h
    exact Passes.one (d := .line _) trivial (.line m _ taken) rfl

theorem lockstep_passing {a : Action Unit} (h : Passing a) : Lockstep [] a :=
  lockstep_fixed [] fun m m' hr => h m () m' hr

theorem lockstep_note (level : Level) (message : Text) (details : List (Text × Detail)) :
    Lockstep [] (note level message details) :=
  lockstep_passing (passing_note level message details)

theorem lockstep_queueNumber (address : Text) (format : NumberFormat) (x : Float) :
    Lockstep [] (queueNumber address format x) := by
  refine lockstep_bind (lockstep_demand _) fun n => ?_
  exact lockstep_passing (passing_queue (q := .once (.numeric n)) (orderly_numeric n))

theorem lockstep_setVariable (key : Text) (v : Value) : Lockstep [] (setVariable key v) :=
  lockstep_modify (d := .assign key v) (by simp) trivial fun m => .assign m key v

theorem lockstep_removeVariable (key : Text) : Lockstep [] (removeVariable key) :=
  lockstep_modify (d := .unassign key) (by simp) trivial fun m => .unassign m key

theorem lockstep_forget (g : ModalGroup) : Lockstep [] (forget g) :=
  lockstep_modify (d := .forget g.name) (by simp) trivial fun m => .forget m g.name

theorem lockstep_emitModal (g : ModalGroup) (f : Function) : Lockstep [] (emitModal g f) := by
  intro m n x y m' n' hm h h'
  rw [emitModal_run] at h h'
  rw [hm.profile] at h'
  by_cases hf : m.profile.code f = []
  · rw [if_pos hf] at h h'
    exact lockstep_passing (passing_note _ _ _) hm h h'
  · rw [if_neg hf] at h h'
    cases h
    cases h'
    refine ⟨rfl, [.select g.name f.name], ?_, ?_, List.nil_sublist _⟩
    · exact Trace.one (by simp) trivial (.select m _ _ hf)
    · exact Trace.one (by simp) trivial (.select n _ _ (hm.profile ▸ hf))

theorem trace_flags (b : Bool) (names : List Text) (m : Machine) :
    Trace (names.map (.flag b)) m
      { m with rack := names.foldl (fun r name => r.flag b (.register name)) m.rack } := by
  induction names generalizing m with
  | nil => exact Passes.refl m
  | cons name names ih =>
    have hfirst := Trace.one (d := .flag b name) (by simp) trivial (.flag m b name)
    exact hfirst.append (ih _)

theorem lockstep_flag (b : Bool) (names : List Text) : Lockstep [] (flag b names) := by
  have hnone : (names.map (Deed.flag b)).filterMap Deed.sets? = [] := by
    simp [List.filterMap_eq_nil_iff, Deed.sets?]
  rw [← hnone]
  refine lockstep_fixed _ fun m m' h => ?_
  cases h
  exact trace_flags b names m

theorem lockstep_hold (name : Text) (x : Float) :
    Lockstep (([.hold name x] : List Deed).filterMap Deed.sets?) (setRegister name x) := by
  intro m n u w m' n' hm h h'
  rw [setRegister_run] at h h'
  cases hk : m.rack.registers.find? name with
  | none =>
    rw [hk] at h
    rw [hm.missing hk] at h'
    exact lockstep_pure () hm h h'
  | some k =>
    obtain ⟨l, hl⟩ := hm.found hk
    simp only [hk] at h
    simp only [hl] at h'
    split at h
    case isTrue hx =>
      rw [if_pos hx] at h'
      cases h
      cases h'
      refine ⟨rfl, [.hold name x], ?_, ?_, List.Sublist.refl _⟩
      · exact Trace.one (by simp) trivial (.hold m name x k hk)
      · exact Trace.one (by simp) trivial (.hold n name x l hl)
    case isFalse => cases h

theorem lockstep_setRegister {name : Text} (hname : name ∈ observed) (x : Float) :
    Lockstep [name] (setRegister name x) := by
  have hnormal : ∀ a ∈ observed, normalName a = a := by decide
  simpa [Deed.sets?, hnormal name hname, hname] using lockstep_hold name x

theorem lockstep_setOther {name : Text} (hname : normalName name ∉ observed) (x : Float) :
    Lockstep [] (setRegister name x) := by
  simpa [Deed.sets?, hname] using lockstep_hold name x

theorem lockstep_writeBlock : Lockstep [] writeBlock := by
  refine lockstep_fixed [.block] fun m m' h => ?_
  obtain ⟨taken, rfl⟩ := writeBlock_ok.mp h
  exact Trace.one (by simp) trivial (.block m taken)

theorem lockstep_callCycle (name : Text) (params : Parameters) :
    Lockstep [] (callCycle name params) := by
  -- the text of the call depends on the cycle memos, which need not match; no action sees it
  refine lockstep_fixed [.block] fun m m' h => ?_
  obtain ⟨_, m₁, h₁, h⟩ := run_bind_ok.mp h
  obtain ⟨c, m₂, h₂, h⟩ := run_bind_ok.mp h
  obtain ⟨_, m₃, h₃, h⟩ := run_bind_ok.mp h
  obtain ⟨_, m₄, h₄, h⟩ := run_bind_ok.mp h
  obtain ⟨_, m₅, h₅, h₆⟩ := run_bind_ok.mp h
  have hcode : (Queued.once (.code (c.line params).1)).Proper := by
    change (Word.code (c.line params).1).forcedToken.1 ≠ []
    rw [Word.forcedToken_code]
    exact line_ne_nil c params
  have hbefore : Passes m m₄ :=
    ((passing_count _ m _ m₁ h₁).trans (passing_openCycle name m₁ c m₂ h₂)).trans
      ((passing_keepCycle _ m₂ _ m₃ h₃).trans (passing_queue hcode m₃ _ m₄ h₄))
  obtain ⟨taken, rfl⟩ := writeBlock_ok.mp h₅
  have hblock := Trace.one (d := .block) (by simp) trivial (.block m₄ taken)
  have hafter : Trace [] m₄.wroteBlock m' := passing_keepCycle _ _ _ m' h₆
  exact (hbefore.trace hblock).append hafter

theorem lockstep_callRepeated : Lockstep [] callRepeated := by
  refine lockstep_get (fun m n h => by rw [h.profile, h.vars]) fun m => ?_
  split
  · exact lockstep_callCycle _ _
  · exact lockstep_pure ()

theorem lockstep_clearCycle : Lockstep [] clearCycle := by
  refine lockstep_bind (lockstep_forget _) fun _ => lockstep_bind (lockstep_forget _) fun _ => ?_
  exact lockstep_bind (lockstep_removeVariable _) fun _ => lockstep_removeVariable _

theorem lockstep_queueCanned (c : DrillCycle) : Lockstep [] (queueCanned c) := by
  refine lockstep_bind (lockstep_forget _) fun _ =>
    lockstep_bind (lockstep_emitModal _ _) fun _ => ?_
  refine lockstep_bind (lockstep_forget _) fun _ => ?_
  refine lockstep_bind (lockstep_passing (passing_count _)) fun _ => ?_
  refine lockstep_get (fun m n h => by simp only [h.format]) fun m => ?_
  refine lockstep_bind (lockstep_demand _) fun n => lockstep_bind (lockstep_demand _) fun k => ?_
  refine lockstep_bind (lockstep_passing (passing_queue (orderly_numeric n))) fun _ => ?_
  refine lockstep_bind (lockstep_passing (passing_queue (orderly_numeric k))) fun _ => ?_
  exact lockstep_onlyIf (lockstep_queueNumber _ _ _)

theorem startCanned_eq (c : DrillCycle) (once : Bool) : startCanned c once = (do
    let m ← get
    setVariable Variable.cycle (.cycle c)
    markOnce once
    onlyIf (m.vars.hasChanged Variable.cycle (.cycle c) || m.active .cycle = [] || once)
      (queueCanned c)
    onlyIf once writeBlock) :=
  rfl

theorem lockstep_startCycle (c : DrillCycle) (once : Bool) : Lockstep [] (startCycle c once) := by
  refine lockstep_get (fun m n h => by rw [h.profile]) fun m => ?_
  split
  · rw [startCanned_eq]
    refine lockstep_get (fun m n h => by rw [h.vars, h.active]) fun m => ?_
    refine lockstep_bind (lockstep_setVariable _ _) fun _ => lockstep_bind ?_ fun _ => ?_
    · exact lockstep_ite (lockstep_setVariable _ _) (lockstep_removeVariable _)
    · refine lockstep_bind (lockstep_onlyIf (lockstep_queueCanned c)) fun _ => ?_
      exact lockstep_onlyIf lockstep_writeBlock
  · exact lockstep_ite (lockstep_callCycle _ _) (lockstep_setVariable _ _)

theorem lockstep_adaptToCycle : Lockstep [] adaptToCycle := by
  refine lockstep_get (fun m n h => by rw [h.vars, h.active]) fun m => ?_
  refine lockstep_ite (lockstep_pure ()) (lockstep_ite ?_ (lockstep_flag _ _))
  refine lockstep_bind (lockstep_passing (passing_emit _)) fun _ => ?_
  exact lockstep_bind lockstep_clearCycle fun _ => lockstep_flag _ _

theorem lockstep_cancelCycle : Lockstep [] cancelCycle := by
  refine lockstep_get (fun m n h => by rw [h.profile, h.active]) fun m => ?_
  split
  · refine lockstep_bind (lockstep_removeVariable _) fun _ => ?_
    exact lockstep_passing (passing_resetCycles [])
  · refine lockstep_ite (lockstep_pure ()) ?_
    refine lockstep_bind (lockstep_passing (passing_emit _)) fun _ => ?_
    refine lockstep_bind lockstep_clearCycle fun _ => ?_
    exact lockstep_bind (lockstep_setVariable _ _) fun _ => lockstep_writeBlock

theorem lockstep_repeatCycle (c : Command) : Lockstep ["F"] (repeatCycle c) := by
  have hfeed (i : Nat) : Lockstep ["F"] (setCycleFeed c i) := by
    rw [setCycleFeed]
    split
    · exact lockstep_setRegister (by decide) _
    · exact lockstep_pure ()
  have hstart (i : Nat) (d : DrillCycle) :
      Lockstep ["F"] (do setCycleFeed c i; startCycle d false) :=
    lockstep_append (hfeed i) fun _ => lockstep_startCycle d false
  have hsilent {a : Action Unit} (h : Lockstep [] a) : Lockstep ["F"] a :=
    h.mono (List.nil_sublist _)
  refine lockstep_get (fun m n h => by simp only [h.value]) fun m => ?_
  refine lockstep_ite (hsilent lockstep_cancelCycle) (lockstep_ite (hstart _ _) ?_)
  exact lockstep_ite (hstart _ _) (hsilent (lockstep_note _ _ _))

theorem lockstep_drillHere (c : Command) (d : DrillCycle) : Lockstep [] (drillHere c d) :=
  lockstep_ite (lockstep_pure ()) (lockstep_startCycle d true)

theorem lockstep_setCoordinates (c : Command) : Lockstep ["X", "Y", "Z"] (setCoordinates c) := by
  refine lockstep_get (fun m n h => by rw [h.value]) fun m => ?_
  refine lockstep_append (lockstep_setRegister (by decide) _) fun _ => ?_
  refine lockstep_get (fun m n h => by rw [h.value]) fun m => ?_
  refine lockstep_append (lockstep_setRegister (by decide) _) fun _ => ?_
  refine lockstep_get (fun m n h => by rw [h.value]) fun m => ?_
  exact lockstep_setRegister (by decide) _

theorem lockstep_setToolAxis (c : Command) : Lockstep ["A", "B"] (setToolAxis c) := by
  refine lockstep_get (fun m n h => by rw [h.vars]) fun m => ?_
  split
  · refine lockstep_append (lockstep_setRegister (by decide) _) fun _ => ?_
    exact lockstep_setRegister (by decide) _
  · exact lockstep_pure ()

theorem lockstep_restatePosition : Lockstep [] restatePosition := by
  refine lockstep_get (fun m n h => by rw [h.vars]) fun m => lockstep_onlyIf ?_
  exact lockstep_bind (lockstep_flag _ _) fun _ => lockstep_removeVariable _

theorem lockstep_setArcWord {name : Text} (hname : normalName name ∉ observed) (x : Float) :
    Lockstep [] (setArcWord name x) :=
  lockstep_bind (lockstep_setOther hname x) fun _ => lockstep_flag _ _

theorem lockstep_emitArcWords (f : Frame) (c : Circle) (winding : Winding) (start : Point) :
    Lockstep [] (emitArcWords f c winding start) := by
  refine lockstep_get (fun m n h => by rw [h.position]) fun m => ?_
  refine lockstep_bind (lockstep_emitModal _ _) fun _ =>
    lockstep_bind (lockstep_flag _ _) fun _ => ?_
  refine lockstep_get (fun m n h => by rw [h.profile]) fun m => ?_
  refine lockstep_ite (lockstep_setArcWord (by decide) _) ?_
  refine lockstep_bind (lockstep_forIn _ fun a => ?_) fun _ => lockstep_pure _
  refine lockstep_bind (lockstep_setArcWord ?_ _) fun _ => lockstep_pure _
  cases a <;> decide

theorem followCircle_eq (start : Point) (rapid : Bool) : followCircle start rapid = (do
    let m ← get
    match m.circle with
    | none => return false
    | some c =>
      modify fun m => { m with circle := none }
      if rapid || m.active .cycle ≠ [] then
        note .warning "circle dropped before a rapid or drilling move" [atLine c.line]
        return false
      let plane := m.vars.text Variable.plane Plane.xy.name
      let f := Frame.named plane
      match Arc.winding? f c with
      | some winding =>
        emitArcWords f c winding start
        return true
      | none =>
        note .warning "circle axis is not normal to the working plane"
          [atLine c.line, ("plane", .text plane)]
        return false) := by
  funext m
  simp only [followCircle]
  change (match m.circle with | none => _ | some c => _ : Action Bool) m =
    (match m.circle with | none => _ | some c => _ : Action Bool) m
  cases m.circle <;> rfl

theorem lockstep_followCircle (start : Point) (rapid : Bool) :
    Lockstep [] (followCircle start rapid) := by
  have hwarn (text : Text) (details : List (Text × Detail)) : Lockstep [] (do
      note .warning text details
      return false) :=
    lockstep_bind (lockstep_note _ _ _) fun _ => lockstep_pure false
  rw [followCircle_eq]
  refine lockstep_get (fun m n h => by rw [h.circle, h.vars, h.active]) fun m => ?_
  split
  · exact lockstep_pure false
  · refine lockstep_bind ?_ fun _ => lockstep_ite (hwarn _ _) ?_
    · exact lockstep_modify (d := .circle none) (by simp) trivial fun m => .circle m none
    · dsimp only
      split
      · exact lockstep_bind (lockstep_emitArcWords _ _ _ _) fun _ => lockstep_pure true
      · exact hwarn _ _

theorem lockstep_takePath (start : Point) (rapid : Bool) : Lockstep [] (takePath start rapid) := by
  refine lockstep_bind (lockstep_followCircle _ _) fun arc => ?_
  refine lockstep_bind (lockstep_onlyIf ?_) fun _ => ?_
  · exact lockstep_get (fun m n h => by rw [h.active]) fun m =>
      lockstep_onlyIf (lockstep_emitModal _ _)
  · refine lockstep_bind (lockstep_onlyIf (lockstep_setVariable _ _)) fun _ => ?_
    exact lockstep_passing (passing_count _)

theorem lockstep_queueMotion (start : Point) : Lockstep [] (queueMotion start) := by
  refine lockstep_bind lockstep_restatePosition fun _ => ?_
  refine lockstep_get (fun m n h => by rw [isRapid, isRapid, h.vars]) fun m => ?_
  exact lockstep_bind lockstep_adaptToCycle fun _ => lockstep_takePath start _

theorem lockstep_moveTo (c : Command) : Lockstep ["X", "Y", "Z", "A", "B"] (moveTo c) := by
  refine lockstep_ite (lockstep_pure ()) ?_
  refine lockstep_get (fun m n h => by rw [h.position]) fun m => ?_
  refine lockstep_append (lockstep_setCoordinates c) fun _ => ?_
  refine lockstep_append (lockstep_setToolAxis c) fun _ => ?_
  refine lockstep_bind (lockstep_queueMotion _) fun _ => ?_
  exact lockstep_bind lockstep_writeBlock fun _ => lockstep_callRepeated

theorem lockstep_moveRapidly (c : Command) : Lockstep ["X", "Y", "Z", "A", "B"] (moveRapidly c) :=
  lockstep_bind (lockstep_setVariable _ _) fun _ => lockstep_moveTo c

theorem lockstep_moveHome (axes : List Axis) : Lockstep [] (moveHome axes) := by
  refine lockstep_bind (lockstep_emitModal _ _) fun _ => ?_
  refine lockstep_bind (lockstep_passing (passing_emit _)) fun _ => ?_
  refine lockstep_bind (lockstep_forIn _ fun a => ?_) fun _ => ?_
  · refine lockstep_get (fun m n h => by rw [h.format]) fun m => ?_
    exact lockstep_bind (lockstep_queueNumber _ _ _) fun _ => lockstep_pure _
  · exact lockstep_bind (lockstep_passing (passing_count _)) fun _ => lockstep_writeBlock

theorem lockstep_goHome (c : Command) : Lockstep [] (goHome c) := by
  refine lockstep_bind (lockstep_forIn _ fun axes => ?_) fun _ => ?_
  · exact lockstep_bind (lockstep_moveHome axes) fun _ => lockstep_pure _
  · exact lockstep_bind (lockstep_setVariable _ _) fun _ => lockstep_setVariable _ _

theorem lockstep_setSpeeds (c : Command) : Lockstep [] (setSpeeds c) := by
  rw [setSpeeds]
  split
  · exact lockstep_pure ()
  · refine lockstep_ite (lockstep_bind (lockstep_setVariable _ _) fun _ =>
      ?_) (lockstep_setVariable _ _)
    exact lockstep_onlyIf (lockstep_setVariable _ _)

theorem lockstep_spindleWord (state : SpindleState) (word : Text) :
    Lockstep [] (spindleWord state word) := by
  refine lockstep_ite (lockstep_bind (lockstep_setVariable _ _) fun _ => lockstep_pure _) ?_
  refine lockstep_ite (lockstep_bind (lockstep_setVariable _ _) fun _ => lockstep_pure _) ?_
  refine lockstep_ite (lockstep_pure _) (lockstep_ite (lockstep_pure _) ?_)
  exact lockstep_bind (lockstep_onlyIf (lockstep_setVariable _ _)) fun _ => lockstep_pure _

theorem lockstep_runSpindle (c : Command) : Lockstep ["S"] (runSpindle c) := by
  refine lockstep_bind (lockstep_setSpeeds c) fun _ => ?_
  refine lockstep_get (fun m n h => by rw [h.vars]) fun m => ?_
  refine lockstep_bind (lockstep_foldlM _ lockstep_spindleWord _) fun state => ?_
  refine lockstep_bind (lockstep_emitModal _ _) fun _ => ?_
  refine lockstep_get (fun m n h => by rw [h.vars]) fun m => ?_
  exact lockstep_append (lockstep_onlyIf (lockstep_setRegister (by decide) _))
    fun _ => lockstep_writeBlock

theorem lockstep_switchCoolant (c : Command) (kind : Text) :
    Lockstep [] (switchCoolant c kind) := by
  have hkind (t : Text) (f : Function) : Lockstep [] (do
      setVariable Variable.coolantKind (.text t)
      emitModal .coolant f) :=
    lockstep_bind (lockstep_setVariable _ _) fun _ => lockstep_emitModal _ _
  refine lockstep_ite (lockstep_emitModal _ _)
    (lockstep_ite (hkind _ _) (lockstep_ite (hkind _ _) ?_))
  exact lockstep_ite (lockstep_emitModal _ _)
    (lockstep_ite (lockstep_emitModal _ _) (lockstep_emitModal _ _))

theorem lockstep_loadTool (c : Command) : Lockstep [] (loadTool c) := by
  rw [loadTool]
  split
  · exact lockstep_pure ()
  · refine lockstep_get (fun m n h => by rw [holdsTool, holdsTool, h.vars]) fun m => ?_
    refine lockstep_ite (lockstep_pure ()) ?_
    refine lockstep_bind (lockstep_passing (passing_enterTool _)) fun _ => ?_
    refine lockstep_bind (lockstep_setVariable _ _) fun _ => ?_
    refine lockstep_bind (lockstep_passing (passing_count _)) fun _ => ?_
    refine lockstep_bind (lockstep_setOther (by decide) _) fun _ => ?_
    refine lockstep_bind (lockstep_passing (passing_queue rfl)) fun _ => ?_
    refine lockstep_bind (lockstep_passing (passing_emit _)) fun _ => ?_
    refine lockstep_bind (lockstep_forget _) fun _ => ?_
    exact lockstep_bind (lockstep_setVariable _ _) fun _ => lockstep_writeBlock

theorem lockstep_selectTool (c : Command) : Lockstep [] (selectTool c) := by
  rw [selectTool]
  split
  · exact lockstep_pure ()
  · refine lockstep_bind (lockstep_setOther (by decide) _) fun _ => ?_
    exact lockstep_bind (lockstep_passing (passing_queue rfl)) fun _ => lockstep_writeBlock

theorem lockstep_dwell (c : Command) : Lockstep [] (dwell c) := by
  rw [dwell]
  split
  · exact lockstep_pure ()
  · refine lockstep_get (fun m n h => by rw [h.vars]) fun m => ?_
    refine lockstep_bind (lockstep_passing (passing_emit _)) fun _ => ?_
    refine lockstep_bind (lockstep_queueNumber _ _ _) fun _ => ?_
    refine lockstep_get (fun m n h => by rw [h.vars]) fun m => ?_
    exact lockstep_bind (lockstep_setVariable _ _) fun _ => lockstep_writeBlock

theorem lockstep_switchOff (g : ModalGroup) (f : Function) : Lockstep [] (switchOff g f) :=
  lockstep_get (fun m n h => by rw [h.active, h.profile]) fun _ =>
    lockstep_onlyIf (lockstep_emitModal _ _)

theorem lockstep_wrapUp (c : Command) : Lockstep [] (wrapUp c) := by
  refine lockstep_bind (lockstep_switchOff _ _) fun _ =>
    lockstep_bind (lockstep_switchOff _ _) fun _ => ?_
  refine lockstep_get (fun m n h => by rw [h.profile]) fun m => ?_
  refine lockstep_bind (lockstep_onlyIf (lockstep_passing (passing_emit _))) fun _ => ?_
  refine lockstep_bind (lockstep_setVariable _ _) fun _ => ?_
  exact lockstep_bind (lockstep_note _ _ _) fun _ => lockstep_writeBlock

theorem lockstep_compensate (c : Command) : Lockstep [] (compensate c) := by
  refine lockstep_ite (lockstep_emitModal _ _) (lockstep_ite (lockstep_emitModal _ _) ?_)
  exact lockstep_ite (lockstep_emitModal _ _) (lockstep_pure ())

theorem lockstep_announceCircle (c : Command) : Lockstep [] (announceCircle c) := by
  rw [announceCircle]
  split
  · refine lockstep_modify (d := .circle (some _)) (by simp) trivial fun m => .circle m _
  · exact lockstep_note _ _ _

theorem lockstep_selectPlane (c : Command) : Lockstep [] (selectPlane c) := by
  rw [selectPlane]
  split
  · refine lockstep_bind (lockstep_setVariable _ _) fun _ => ?_
    exact lockstep_bind (lockstep_emitModal _ _) fun _ => lockstep_writeBlock
  · exact lockstep_note _ _ _

theorem lockstep_startOperation (c : Command) : Lockstep [] (startOperation c) := by
  refine lockstep_bind ?_ fun _ => ?_
  · exact lockstep_modify (d := .clearFlags) (by simp) trivial fun m => .clearFlags m
  · exact lockstep_get (fun m n h => by rw [h.vars]) fun m => lockstep_note _ _ _

def setsBy : Verb → List Text
  | .goto | .rapid | .start | .continuation => ["X", "Y", "Z", "A", "B"]
  | .feed | .cycle => ["F"]
  | .spindle => ["S"]
  | _ => []

theorem lockstep_perform {v : Verb} (hv : v ≠ .continuation) (c : Command) :
    Lockstep (setsBy v) (perform v c) := by
  cases v with
  | partNumber | nameOperation =>
    exact lockstep_bind (lockstep_setVariable _ _) fun _ => lockstep_passing (passing_remark _ _)
  | print => exact lockstep_passing (passing_remark _ _)
  | startOperation => exact lockstep_startOperation c
  | feed =>
    rw [perform, setFeed]
    split
    · exact lockstep_pure ()
    · exact lockstep_setRegister (by decide) _
  | rapid => exact lockstep_moveRapidly c
  | goto => exact lockstep_moveTo c
  | circle => exact lockstep_announceCircle c
  | plane => exact lockstep_selectPlane c
  | start =>
    refine lockstep_ite (lockstep_pure ()) ?_
    exact lockstep_bind (lockstep_setVariable _ _) fun _ => lockstep_moveRapidly c
  | home => exact lockstep_goHome c
  | continuation => exact absurd rfl hv
  | multiAxis => exact lockstep_setVariable _ _
  | cutterCompensation => exact lockstep_compensate c
  | spindle => exact lockstep_runSpindle c
  | coolant =>
    refine lockstep_get (fun m n h => by rw [h.vars]) fun m => ?_
    exact lockstep_bind (lockstep_switchCoolant c _) fun _ => lockstep_writeBlock
  | loadTool => exact lockstep_loadTool c
  | selectTool => exact lockstep_selectTool c
  | delay => exact lockstep_dwell c
  | drillHere | deepDrillHere => exact lockstep_drillHere c _
  | cycle => exact lockstep_repeatCycle c
  | finish => exact lockstep_bind lockstep_cancelCycle fun _ => lockstep_wrapUp c
  | ignore => exact lockstep_note _ _ _
  | refuse reason => exact lockstep_throw _

theorem perform_lockstep {v : Verb} {c : Command} {x y : Unit} (hm : Matches m n)
    (hlast : v = .continuation → n.last = m.last) (h : (perform v c).run m = .ok x m')
    (h' : (perform v c).run n = .ok y n') :
    ∃ ds, Trace ds m m' ∧ Trace ds n n' ∧ (ds.filterMap Deed.sets?).Sublist (setsBy v) := by
  by_cases hv : v = .continuation
  · subst hv
    have hrow (last : Text) : Lockstep (setsBy .continuation) (if last = "goto" ||
        last = "rapid" then moveTo c
        else note .warning "continuation ignored" [atLine c.line, ("after", .text last)]) :=
      lockstep_ite (lockstep_moveTo c) ((lockstep_note _ _ _).mono (List.nil_sublist _))
    refine (hrow m.last.major (y := y) hm h ?_).2
    rw [← hlast rfl]
    exact h'
  · exact (lockstep_perform hv c hm h h').2

end Machine
end Toolpath
