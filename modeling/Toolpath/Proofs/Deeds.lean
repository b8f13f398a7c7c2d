import Mathlib.Logic.Relation
import Toolpath.Machine.Run

/-!
# What an action can do to a machine

An action is carried out in small deeds: a variable is assigned, a word is queued, a block is
written. `Course S` leads from one machine to another by deeds that `S` allows. What no deed that
`S` allows can change, no action that keeps to `S` can change either.
-/

namespace Toolpath.Machine

inductive Deed
  /-- The log, the counters, the tools, the cycle memos or the last command change. -/
  | book
  | assign (key : Text) (v : Value)
  | unassign (key : Text)
  /-- The code of a function becomes the active one of a group. -/
  | select (group function : Text)
  | forget (group : Text)
  | hold (name : Text) (x : Float)
  | flag (b : Bool) (name : Text)
  | clearFlags
  | queue (q : Queued)
  | circle (c : Option Circle)
  | line (t : Text)
  | block

def wroteLine (m : Machine) (t : Text) : Machine := { m with outlet := (m.outlet.writeLine t).2 }

def wroteBlock (m : Machine) : Machine :=
  let (line, writer, rack) := m.writer.assemble m.rack true
  match line with
  | some t => wroteLine { m with writer, rack } t
  | none => { m with writer, rack }

/-- The machine with the code of a function active in a group; the code is
queued unless it was active already. -/
def selected (m : Machine) (group function : Text) : Machine :=
  let code := m.profile.codeNamed function
  { m with
    modal := m.modal.set group (.text code)
    writer := if m.modal.hasChanged group (.text code) then
        m.writer.queue (.code { function, group := some group, text := code })
      else m.writer }

inductive Does : Deed → Machine → Machine → Prop
  | book (m : Machine) (tools : List Tool) (stats : Stats) (cycles : List CycleMemo)
    (last : Command)
      (log : List Note) : Does .book m { m with tools, stats, cycles, last, log }
  | assign (m : Machine) (key : Text) (v : Value) :
      Does (.assign key v) m { m with vars := m.vars.set key v }
  | unassign (m : Machine) (key : Text) :
    Does (.unassign key) m { m with vars := m.vars.remove key }
  | select (m : Machine) (group function : Text) (known : m.profile.codeNamed function ≠ []) :
      Does (.select group function) m (m.selected group function)
  | forget (m : Machine) (group : Text) :
      Does (.forget group) m { m with modal := m.modal.remove group }
  | hold (m : Machine) (name : Text) (x : Float) (n : Numeric)
      (found : m.rack.registers.find? name = some n) :
      Does (.hold name x) m { m with rack := m.rack.set (.register name) (.numeric (n.hold x)) }
  | flag (m : Machine) (b : Bool) (name : Text) :
      Does (.flag b name) m { m with rack := m.rack.flag b (.register name) }
  | clearFlags (m : Machine) :
      Does .clearFlags m { m with rack := { m.rack with registers := m.rack.registers.clearFlags } }
  | queue (m : Machine) (q : Queued) : Does (.queue q) m { m with writer := m.writer.queue q }
  | circle (m : Machine) (c : Option Circle) : Does (.circle c) m { m with circle := c }
  | line (m : Machine) (t : Text) (taken : (m.outlet.writeLine t).1 = none) :
      Does (.line t) m (m.wroteLine t)
  | block (m : Machine)
      (taken : ∀ t, (m.writer.assemble m.rack true).1 = some t → (m.outlet.writeLine t).1 = none) :
      Does .block m m.wroteBlock

/-- Deeds that `S` allows lead from one machine to the other. -/
def Course (S : Machine → Deed → Prop) : Machine → Machine → Prop :=
  Relation.ReflTransGen fun m m' => ∃ d, S m d ∧ Does d m m'

namespace Course

variable {S T : Machine → Deed → Prop} {m m' m'' : Machine}

theorem refl : Course S m m := Relation.ReflTransGen.refl

theorem one {d : Deed} (hd : S m d) (h : Does d m m') : Course S m m' :=
  Relation.ReflTransGen.single ⟨d, hd, h⟩

theorem trans (h : Course S m m') (h' : Course S m' m'') : Course S m m'' :=
  Relation.ReflTransGen.trans h h'

theorem mono (hST : ∀ m d, S m d → T m d) (h : Course S m m') : Course T m m' :=
  Relation.ReflTransGen.mono (fun _ _ ⟨d, hd, hm⟩ => ⟨d, hST _ d hd, hm⟩) m m' h

theorem kept {R : Machine → Machine → Prop} (hrefl : ∀ m, R m m)
    (htrans : ∀ {a b c}, R a b → R b c → R a c)
    (hstep : ∀ d a b, S a d → Does d a b → R a b) (h : Course S m m') : R m m' := by
  induction h with
  | refl => exact hrefl m
  | tail _ hlast ih =>
    obtain ⟨d, hd, hm⟩ := hlast
    exact htrans ih (hstep d _ _ hd hm)

theorem invariant {I : Machine → Prop} (h : Course S m m')
    (hstep : ∀ d a b, S a d → Does d a b → I a → I b) (hm : I m) : I m' :=
  h.kept (R := fun a b => I a → I b) (fun _ ha => ha) (fun h h' ha => h' (h ha)) hstep hm

end Course

variable {α β : Type} {p : Profile} {S T : Machine → Deed → Prop} {m m' : Machine}

theorem Does.profile {d : Deed} (h : Does d m m') : m'.profile = m.profile := by
  cases h with
  | block =>
    simp only [wroteBlock]
    split <;> rfl
  | _ => rfl

theorem Course.profile (h : Course S m m') : m'.profile = m.profile :=
  h.kept (R := fun a b => b.profile = a.profile) (fun _ => rfl) (fun h h' => h'.trans h)
    fun _ _ _ _ hd => hd.profile

variable {a : Action α} {g : ModalGroup} {f : Function} {t : Text}

theorem run_bind_ok {f : α → Action β} {y : β} :
    (a >>= f).run m = .ok y m' ↔ ∃ x m₁, a.run m = .ok x m₁ ∧ (f x).run m₁ = .ok y m' := by
  rw [EStateM.run_bind]
  constructor
  · intro h
    cases ha : a.run m with
    | ok x m₁ => exact ⟨x, m₁, rfl, by rw [ha] at h; exact h⟩
    | error e m₁ => simp [ha] at h
  · rintro ⟨x, m₁, ha, hf⟩
    rw [ha]
    exact hf

theorem forIn_cons_ok {a : β → Action Unit} {b : β} {bs : List β} {u : PUnit}
    (h : (forIn (b :: bs) PUnit.unit fun b _ => do
      a b
      pure (ForInStep.yield PUnit.unit) : Action PUnit).run m = .ok u m') :
    ∃ m₁, (a b).run m = .ok () m₁ ∧ (forIn bs PUnit.unit fun b _ => do
      a b
      pure (ForInStep.yield PUnit.unit) : Action PUnit).run m₁ = .ok u m' := by
  rw [List.forIn_cons] at h
  obtain ⟨r, m₁, h₁, h₂⟩ := run_bind_ok.mp h
  obtain ⟨_, m₂, h₃, h₄⟩ := run_bind_ok.mp h₁
  cases h₄
  exact ⟨_, h₃, h₂⟩

/-- Done to the machine `m`, the action does nothing but what `S` allows. -/
def KeepsAt (S : Machine → Deed → Prop) (m : Machine) (a : Action α) : Prop :=
  ∀ x m', a.run m = .ok x m' → Course S m m'

/-- Under the profile the action does nothing but what `S` allows. -/
def KeepsTo (p : Profile) (S : Machine → Deed → Prop) (a : Action α) : Prop :=
  ∀ m : Machine, m.profile = p → KeepsAt S m a

theorem KeepsTo.mono (h : KeepsTo p S a) (hST : ∀ m d, S m d → T m d) : KeepsTo p T a :=
  fun m hm x m' hr => (h m hm x m' hr).mono hST

theorem keepsAt_pure (x : α) : KeepsAt S m (pure x : Action α) := by
  intro y m' h
  cases h
  exact Course.refl

theorem keepsTo_pure (x : α) : KeepsTo p S (pure x : Action α) := fun _ _ => keepsAt_pure x

theorem keepsTo_throw (e : Stop) : KeepsTo p S (throw e : Action α) := by
  intro m _ x m' h
  cases h

theorem keepsAt_bind {f : α → Action β} (ha : KeepsAt S m a) (hm : m.profile = p)
    (hf : ∀ x, KeepsTo p S (f x)) : KeepsAt S m (a >>= f) := by
  intro y m' h
  obtain ⟨x, m₁, h₁, h₂⟩ := run_bind_ok.mp h
  have hc := ha x m₁ h₁
  exact hc.trans (hf x m₁ (hc.profile.trans hm) y m' h₂)

theorem keepsTo_bind {f : α → Action β} (ha : KeepsTo p S a)
    (hf : ∀ x, KeepsTo p S (f x)) : KeepsTo p S (a >>= f) :=
  fun m hm => keepsAt_bind (ha m hm) hm hf

theorem keepsAt_get {f : Machine → Action β} (h : KeepsAt S m (f m)) : KeepsAt S m (get >>= f) := h

theorem keepsTo_look {f : Machine → Action β} (hf : ∀ m, m.profile = p → KeepsAt S m (f m)) :
    KeepsTo p S (get >>= f) :=
  fun m hm => keepsAt_get (hf m hm)

theorem keepsTo_get {f : Machine → Action β} (hf : ∀ m, m.profile = p → KeepsTo p S (f m)) :
    KeepsTo p S (get >>= f) :=
  keepsTo_look fun m hm => hf m hm m hm

theorem keepsAt_modify {f : Machine → Machine} (h : Course S m (f m)) :
    KeepsAt S m (modify f : Action PUnit) := by
  intro x m' hr
  cases hr
  exact h

theorem keepsTo_modify {f : Machine → Machine} (hf : ∀ m, m.profile = p → Course S m (f m)) :
    KeepsTo p S (modify f : Action PUnit) :=
  fun m hm => keepsAt_modify (hf m hm)

theorem keepsAt_set {a : Action β} (h : Course S m m') (ha : KeepsAt S m' a) :
    KeepsAt S m (do set m'; a) :=
  fun x m'' hr => h.trans (ha x m'' hr)

theorem keepsTo_ite {c : Prop} [Decidable c] {a b : Action α} (ha : KeepsTo p S a)
    (hb : KeepsTo p S b) : KeepsTo p S (if c then a else b) := by
  split
  · exact ha
  · exact hb

theorem keepsTo_onlyIf {b : Bool} {a : Action Unit} (ha : KeepsTo p S a) :
    KeepsTo p S (onlyIf b a) :=
  keepsTo_ite ha (keepsTo_pure ())

theorem keepsTo_demand (e : Except Violation α) : KeepsTo p S (demand e) := by
  cases e with
  | ok x => exact keepsTo_pure x
  | error v => exact keepsTo_throw _

theorem keepsTo_forIn (as : List β) {f : β → PUnit → Action (ForInStep PUnit)}
    (hf : ∀ x, KeepsTo p S (f x PUnit.unit)) : KeepsTo p S (forIn as PUnit.unit f) := by
  induction as with
  | nil => exact keepsTo_pure _
  | cons x as ih =>
    rw [List.forIn_cons]
    refine keepsTo_bind (hf x) fun r => ?_
    cases r with
    | done _ => exact keepsTo_pure _
    | yield _ => exact ih

theorem keepsTo_foldlM (bs : List β) {f : α → β → Action α} (hf : ∀ x b, KeepsTo p S (f x b))
    (x : α) : KeepsTo p S (bs.foldlM f x) := by
  induction bs generalizing x with
  | nil => exact keepsTo_pure x
  | cons b bs ih =>
    rw [List.foldlM_cons]
    exact keepsTo_bind (hf x b) ih

theorem run_tryCatch (a : Action α) (f : Stop → Action α) (m : Machine) :
    (tryCatch a f).run m = match a.run m with
      | .ok x m' => .ok x m'
      | .error e m' => (f e).run m' := by
  change EStateM.tryCatch a f m = match a m with
    | .ok x m' => .ok x m'
    | .error e m' => f e m'
  delta EStateM.tryCatch
  cases a m <;> rfl

theorem keepsTo_note (hS : ∀ m, S m .book) (level : Level) (message : Text)
    (details : List (Text × Detail)) :
    KeepsTo p S (note level message details) :=
  keepsTo_modify fun m _ => Course.one (hS _) (.book m m.tools m.stats m.cycles m.last _)

theorem keepsTo_count (hS : ∀ m, S m .book) (f : Stats → Stats) : KeepsTo p S (count f) :=
  keepsTo_modify fun m _ => Course.one (hS _) (.book m m.tools _ m.cycles m.last m.log)

theorem keepsTo_setVariable {key : Text} {v : Value} (hS : ∀ m, S m (.assign key v)) :
    KeepsTo p S (setVariable key v) :=
  keepsTo_modify fun m _ => Course.one (hS _) (.assign m key v)

theorem keepsTo_removeVariable {key : Text} (hS : ∀ m, S m (.unassign key)) :
    KeepsTo p S (removeVariable key) :=
  keepsTo_modify fun m _ => Course.one (hS _) (.unassign m key)

theorem keepsTo_forget (hS : ∀ m, S m (.forget g.name)) : KeepsTo p S (forget g) :=
  keepsTo_modify fun m _ => Course.one (hS _) (.forget m g.name)

theorem keepsTo_queue {q : Queued} (hS : ∀ m, S m (.queue q)) : KeepsTo p S (queue q) :=
  keepsTo_modify fun m _ => Course.one (hS _) (.queue m q)

def codeOf (p : Profile) (f : Function) : Queued := .code { function := f.name, text := p.code f }

theorem emit_run (m : Machine) (f : Function) :
    (emit f).run m = if m.profile.code f = [] then (noteNoCode f.name).run m
      else .ok () { m with writer := m.writer.queue (codeOf m.profile f) } := by
  by_cases h : m.profile.codeNamed f.name = []
  · simp only [emit, emitNamed, EStateM.run_bind, EStateM.run_get, List.isEmpty_iff,
      Profile.code, h, if_true]
  · simp only [emit, emitNamed, EStateM.run_bind, EStateM.run_get, List.isEmpty_iff,
      Profile.code, h, if_false]
    rfl

theorem keepsAt_emit (book : S m .book)
    (hS : m.profile.code f ≠ [] → S m (.queue (codeOf m.profile f))) :
    KeepsAt S m (emit f) := by
  intro x m' hr
  rw [emit_run] at hr
  by_cases h : m.profile.code f = []
  · rw [if_pos h] at hr
    cases hr
    exact Course.one book (.book m m.tools m.stats m.cycles m.last _)
  · rw [if_neg h] at hr
    cases hr
    exact Course.one (hS h) (.queue m _)

theorem keepsTo_emit (book : ∀ m, S m .book)
    (hS : ∀ m, p.code f ≠ [] → S m (.queue (codeOf p f))) : KeepsTo p S (emit f) := by
  rintro m rfl
  exact keepsAt_emit (book m) (hS m)

theorem emitModal_run (m : Machine) (g : ModalGroup) (f : Function) :
    (emitModal g f).run m = if m.profile.code f = [] then (noteNoCode f.name).run m
      else .ok () (m.selected g.name f.name) := by
  change (do let _ ← emitModalNamed g.name f.name; pure ()).run m = _
  by_cases h : m.profile.codeNamed f.name = []
  · simp only [emitModalNamed, EStateM.run_bind, EStateM.run_get, List.isEmpty_iff, Profile.code, h,
      if_true]
    rfl
  · by_cases hc : m.modal.hasChanged g.name (.text (m.profile.codeNamed f.name)) <;>
      simp only [emitModalNamed, EStateM.run_bind, EStateM.run_get, EStateM.run_set,
        List.isEmpty_iff, Profile.code, h, Memo.update, onlyIf, selected, hc, if_true, if_false,
        Bool.false_eq_true] <;>
      rfl

theorem keepsAt_emitModal (book : S m .book)
    (hS : S m (.select g.name f.name)) : KeepsAt S m (emitModal g f) := by
  intro x m' hr
  rw [emitModal_run] at hr
  by_cases h : m.profile.code f = []
  · rw [if_pos h] at hr
    cases hr
    exact Course.one book (.book m m.tools m.stats m.cycles m.last _)
  · rw [if_neg h] at hr
    cases hr
    exact Course.one hS (.select m _ _ h)

theorem keepsTo_emitModal (book : ∀ m, S m .book)
    (hS : ∀ m, S m (.select g.name f.name)) : KeepsTo p S (emitModal g f) :=
  fun m _ => keepsAt_emitModal (book m) (hS m)

theorem keepsTo_queueNumber {address : Text} {format : NumberFormat} {x : Float}
    (hS : ∀ m n, S m (.queue (.once (.numeric n)))) : KeepsTo p S (queueNumber address format x) :=
  keepsTo_bind (keepsTo_demand _) fun n => keepsTo_queue fun m => hS m n

theorem flag_foldl (m : Machine) (b : Bool) (names : List Text)
    (hS : ∀ m, ∀ name ∈ names, S m (.flag b name)) :
    Course S m { m with rack := names.foldl (fun r name => r.flag b (.register name)) m.rack } := by
  induction names generalizing m with
  | nil => exact Course.refl
  | cons name names ih =>
    have h := Course.one (S := S) (hS m name (by simp)) (.flag m b name)
    exact h.trans (ih _ fun m n hn => hS m n (by simp [hn]))

theorem keepsTo_flag {b : Bool} {names : List Text} (hS : ∀ m, ∀ name ∈ names, S m (.flag b name)) :
    KeepsTo p S (flag b names) :=
  keepsTo_modify fun m _ => flag_foldl m b names hS

theorem setRegister_run (m : Machine) (name : Text) (x : Float) :
    (setRegister name x).run m = match m.rack.registers.find? name with
      | none => .ok () m
      | some n =>
        if Number.isFinite x then
          .ok () { m with rack := m.rack.set (.register name) (.numeric (n.hold x)) }
        else .error (.violation (.notFinite n.address x)) m := by
  simp only [setRegister, EStateM.run_bind, EStateM.run_get]
  cases m.rack.registers.find? name with
  | none => rfl
  | some n =>
    simp only [Numeric.set, requireFinite]
    by_cases hx : Number.isFinite x = true
    · rw [if_pos hx, if_pos hx]
      rfl
    · rw [if_neg hx, if_neg hx]
      rfl

theorem keepsTo_setRegister {name : Text} (hS : ∀ m x, S m (.hold name x)) (x : Float) :
    KeepsTo p S (setRegister name x) := by
  intro m _ u m' hr
  rw [setRegister_run] at hr
  cases h : m.rack.registers.find? name with
  | none =>
    rw [h] at hr
    cases hr
    exact Course.refl
  | some n =>
    simp only [h] at hr
    split at hr
    · cases hr
      exact Course.one (hS m x) (.hold m name x n h)
    · cases hr

theorem writeLine_run (m : Machine) (t : Text) :
    (writeLine t).run m = match (m.outlet.writeLine t).1 with
      | some f => .error (.failure f) (m.wroteLine t)
      | none => .ok () (m.wroteLine t) := by
  simp only [writeLine, EStateM.run_bind, EStateM.run_get, EStateM.run_set, wroteLine, fail]
  cases (m.outlet.writeLine t).1 with
  | none => rfl
  | some f => rfl

theorem writeLine_ok {u : Unit} :
    (writeLine t).run m = .ok u m' ↔ (m.outlet.writeLine t).1 = none ∧ m' = m.wroteLine t := by
  rw [writeLine_run]
  cases (m.outlet.writeLine t).1 with
  | none => simp [eq_comm]
  | some f => simp

theorem keepsTo_writeLine (hS : ∀ m, S m (.line t)) : KeepsTo p S (writeLine t) := by
  intro m _ u m' hr
  obtain ⟨taken, rfl⟩ := writeLine_ok.mp hr
  exact Course.one (hS m) (.line m t taken)

theorem keepsTo_comment (hS : ∀ m t, S m (.line t)) : KeepsTo p S (comment t) :=
  keepsTo_get fun _ _ => keepsTo_writeLine fun m => hS m _

theorem writeBlock_ok {u : Unit} :
    writeBlock.run m = .ok u m' ↔
      (∀ t, (m.writer.assemble m.rack true).1 = some t → (m.outlet.writeLine t).1 = none) ∧
        m' = m.wroteBlock := by
  simp only [writeBlock, EStateM.run_bind, EStateM.run_get, EStateM.run_set, wroteBlock]
  cases (m.writer.assemble m.rack true).1 with
  | none => simp [eq_comm]
  | some t => simp [writeLine_ok]

theorem keepsTo_writeBlock (hS : ∀ m, S m .block) : KeepsTo p S writeBlock := by
  intro m _ u m' hr
  obtain ⟨taken, rfl⟩ := writeBlock_ok.mp hr
  exact Course.one (hS m) (.block m taken)

theorem keepsTo_openCycle (hS : ∀ m, S m .book) (name : Text) : KeepsTo p S (openCycle name) := by
  refine keepsTo_get fun m _ => ?_
  cases m.cycleMemo? name with
  | some c => exact keepsTo_pure c
  | none =>
    refine keepsTo_bind (keepsTo_demand _) fun c => keepsTo_bind ?_ fun _ => keepsTo_pure c
    exact keepsTo_modify fun m _ => Course.one (hS m) (.book m m.tools m.stats _ m.last m.log)

theorem keepsTo_keepCycle (hS : ∀ m, S m .book) (c : CycleMemo) : KeepsTo p S (keepCycle c) :=
  keepsTo_modify fun m _ => Course.one (hS m) (.book m m.tools m.stats _ m.last m.log)

theorem keepsTo_resetCycles (hS : ∀ m, S m .book) (name : Text) : KeepsTo p S (resetCycles name) :=
  keepsTo_modify fun m _ => Course.one (hS m) (.book m m.tools m.stats _ m.last m.log)

theorem line_ne_nil (c : CycleMemo) (params : Parameters) : (c.line params).1 ≠ [] := by
  have hclose : Text.ofString "()" ≠ [] ∧ Text.ofString ")" ≠ [] := by decide
  rw [CycleMemo.line]
  split
  · exact List.append_ne_nil_of_right_ne_nil _ hclose.1
  · exact List.append_ne_nil_of_right_ne_nil _ hclose.2

theorem keepsTo_callCycle (book : ∀ m, S m .book)
    (hS : ∀ m t, t ≠ [] → S m (.queue (.once (.code t))))
    (block : ∀ m, S m .block) (name : Text) (params : Parameters) :
    KeepsTo p S (callCycle name params) := by
  refine keepsTo_bind (keepsTo_count book _) fun _ => ?_
  refine keepsTo_bind (keepsTo_openCycle book name) fun c => ?_
  refine keepsTo_bind (keepsTo_keepCycle book _) fun _ => ?_
  refine keepsTo_bind (keepsTo_queue fun m => hS m _ (line_ne_nil c params)) fun _ => ?_
  exact keepsTo_bind (keepsTo_writeBlock block) fun _ => keepsTo_keepCycle book _

end Toolpath.Machine
