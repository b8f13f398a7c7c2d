import Mathlib.Data.List.Chain
import Toolpath.Proofs.Motions

/-!
# Modal output is lossless

A register that did not change is left out of a block. Whoever keeps the last word of each
register still knows every register after each motion: a register that is not flagged holds what
was last heard of it, and a motion writes every register that is flagged.
-/

namespace Toolpath.Machine

open Registers (normalName)

variable {S : Machine → Deed → Prop} {p : Profile} {m m' m'' : Machine} {r : Text}

/-- The last word that the blocks hold for a register; before any, that of zero. -/
def heard (m : Machine) (r : Text) : Text :=
  (m.writer.written.findSome? (Block.word? r)).getD ((m.format r).format 0)

/-- Between the machines the register was not set, and what was written of it is
its word. A flag is lost only when the word was written. -/
structure Follows (r : Text) (m m' : Machine) : Prop where
  value : m'.value r = m.value r
  format : m'.format r = m.format r
  heard : m'.heard r = m.heard r ∨ m'.heard r = m'.word r
  flagged : m'.flagged r = false → m.flagged r = false ∨ m'.heard r = m'.word r

theorem Follows.word (h : Follows r m m') : m'.word r = m.word r := by
  rw [Machine.word, Machine.word, h.value, h.format]

theorem Follows.told (h : Follows r m m') (hm : m.heard r = m.word r) : m'.heard r = m'.word r := by
  rcases h.heard with h' | h'
  · rw [h', hm, h.word]
  · exact h'

theorem Follows.refl (m : Machine) : Follows r m m := ⟨rfl, rfl, .inl rfl, .inl⟩

theorem Follows.trans (h : Follows r m m') (h' : Follows r m' m'') : Follows r m m'' := by
  refine ⟨h'.value.trans h.value, h'.format.trans h.format, ?_, fun hf => ?_⟩
  · rcases h'.heard with h₁ | h₁
    · rcases h.heard with h₂ | h₂
      · exact .inl (h₁.trans h₂)
      · exact .inr (h₁.trans (h₂.trans h'.word.symm))
    · exact .inr h₁
  · rcases h'.flagged hf with h₁ | h₁
    · rcases h.flagged h₁ with h₂ | h₂
      · exact .inl h₂
      · rcases h'.heard with h₃ | h₃
        · exact .inr (h₃.trans (h₂.trans h'.word.symm))
        · exact .inr h₃
    · exact .inr h₁

theorem Follows.of_same (hreg : m'.rack.registers.find? r = m.rack.registers.find? r)
    (hw : m'.writer.written = m.writer.written) : Follows r m m' := by
  have hformat : m'.format r = m.format r := by simp [Machine.format, hreg]
  refine ⟨by simp [Machine.value, hreg], hformat, .inl ?_, fun hf => .inl ?_⟩
  · rw [Machine.heard, Machine.heard, hw, hformat]
  · rwa [Machine.flagged, hreg] at hf

theorem Follows.of_flag
    (hreg : m'.rack.registers.find? r =
      (m.rack.registers.find? r).map fun n => { n with changed := true })
    (hw : m'.writer.written = m.writer.written) : Follows r m m' := by
  have hformat : m'.format r = m.format r := by
    simp [Machine.format, hreg, Function.comp_def]
  refine ⟨by simp [Machine.value, hreg, Function.comp_def], hformat, .inl ?_, fun hf => .inl ?_⟩
  · rw [Machine.heard, Machine.heard, hw, hformat]
  · cases hr : m.rack.registers.find? r with
    | none => simp [Machine.flagged, hr]
    | some n => simp [Machine.flagged, hreg, hr] at hf

theorem wroteBlock_heard (hi : m.rack.registers.Indexed) :
    ((∀ t ∈ m.writer.due m.rack, t.isOf r = false) ∧ m.wroteBlock.heard r = m.heard r) ∨
    ((∃ t ∈ m.writer.due m.rack, t.isOf r = true) ∧ m.wroteBlock.heard r = m.word r) := by
  have hformat := (wroteBlock_value (r := r) hi).2
  rcases wroteBlock_written m with ⟨hdue, hw⟩ | ⟨-, number, hw⟩
  · refine .inl ⟨by simp [hdue], ?_⟩
    rw [Machine.heard, Machine.heard, hw, hformat]
  · rcases word?_due (r := r) hi number with ⟨hnone, hword⟩ | ⟨hsome, hword⟩
    · refine .inl ⟨hnone, ?_⟩
      rw [Machine.heard, Machine.heard, hw, hformat, List.findSome?_cons, hword]
    · refine .inr ⟨hsome, ?_⟩
      rw [Machine.heard, hw, List.findSome?_cons, hword]
      rfl

theorem Follows.of_block (hi : m.rack.registers.Indexed) : Follows r m m.wroteBlock := by
  obtain ⟨hvalue, hformat⟩ := wroteBlock_value (r := r) hi
  have hword := wroteBlock_word (r := r) hi
  refine ⟨hvalue, hformat, ?_, fun hf => ?_⟩
  · rcases wroteBlock_heard (r := r) hi with ⟨-, h⟩ | ⟨-, h⟩
    · exact .inl h
    · exact .inr (h.trans hword.symm)
  · cases hn : m.rack.registers.find? r with
    | none => exact .inl (by simp [Machine.flagged, hn])
    | some n =>
      rcases BlockWriter.spent_found (w := m.writer) hi (render_ne_nil n) hn
        with h | ⟨-, t, ht, hof, -⟩
      · rw [Machine.flagged, wroteBlock_rack, h, ← hn] at hf
        exact .inl hf
      · rcases wroteBlock_heard (r := r) hi with ⟨hnone, -⟩ | ⟨-, h⟩
        · simp [hnone t ht] at hof
        · exact .inr (h.trans hword.symm)

theorem heard_of_flagged (hi : m.rack.registers.Indexed) (ht : .register r ∈ m.writer.tracked)
    (hf : m.flagged r = true) : m.wroteBlock.heard r = m.wroteBlock.word r := by
  obtain ⟨b, hw, hb⟩ := wroteBlock_flagged hi ht hf
  rw [heard, hw, List.findSome?_cons, hb]
  rfl

def Spares (r : Text) (m : Machine) : Deed → Prop
  | .hold a _ => normalName a ≠ normalName r
  | .flag b _ => b = true ∨ m.active .cycle ≠ []
  | .clearFlags => False
  | .select group _ => group ≠ ModalGroup.cycle.name
  | _ => True

structure Calm (m : Machine) : Prop where
  indexed : m.rack.registers.Indexed
  inactive : m.active .cycle = []

theorem Does.calm {d : Deed} (h : Does d m m') (hs : Spares r m d) (hm : Calm m) : Calm m' := by
  refine ⟨h.indexed hm.indexed, ?_⟩
  have hinactive := hm.inactive
  simp only [active, activeNamed, Memo.text] at hinactive ⊢
  cases h with
  | select _ group function known =>
    have hne : ModalGroup.cycle.name ≠ group := Ne.symm hs
    simpa [selected, hne] using hinactive
  | forget _ group =>
    by_cases hg : ModalGroup.cycle.name = group
    · simp [hg]
    · simpa [hg] using hinactive
  | block => rwa [wroteBlock_modal]
  | _ => exact hinactive

theorem Does.follows {d : Deed} (h : Does d m m') (hs : Spares r m d) (hm : Calm m) :
    Follows r m m' := by
  cases h with
  | hold _ a x n found =>
    exact Follows.of_same (Registers.find?_modify_other hm.indexed (Ne.symm hs)) rfl
  | flag _ b a =>
    rcases hs with rfl | hs
    · rw [Rack.flag_register]
      by_cases ha : normalName r = normalName a
      · exact Follows.of_flag (Registers.find?_modify_same ha) rfl
      · exact Follows.of_same (Registers.find?_modify_other hm.indexed ha) rfl
    · exact absurd hm.inactive hs
  | clearFlags => exact absurd hs id
  | select =>
    refine Follows.of_same rfl ?_
    simp only [selected]
    split <;> rfl
  | block => exact Follows.of_block hm.indexed
  | _ => exact Follows.of_same rfl rfl

theorem Course.follows (h : Course (Spares r) m m') (hm : Calm m) : Calm m' ∧ Follows r m m' := by
  refine h.kept (R := fun a b => Calm a → Calm b ∧ Follows r a b) (fun m hm => ⟨hm, Follows.refl m⟩)
    (fun h h' ha => ?_) (fun d a b hd hab ha => ⟨hab.calm hd ha, hab.follows hd ha⟩) hm
  have hb := h ha
  have hc := h' hb.1
  exact ⟨hc.1, hb.2.trans hc.2⟩

def InStep (m : Machine) (r : Text) : Prop := m.flagged r = false → m.heard r = m.word r

theorem Follows.inStep (h : Follows r m m') (hm : InStep m r) : InStep m' r := by
  intro hf
  rcases h.flagged hf with hf' | hw
  · exact h.told (hm hf')
  · exact hw

/-- The value equals the one before, or differs from it by more than the tolerance. -/
def Apart (r : Text) (m m' : Machine) : Prop :=
  (m'.value r == m.value r) = true ∨ Numeric.differs (m'.value r) (m.value r) = true

instance (r : Text) (m m' : Machine) :
    Decidable (Apart r m m') := inferInstanceAs (Decidable (_ ∨ _))

structure Held (r : Text) (x : Float) (m m' : Machine) : Prop where
  value : m'.value r = x
  format : m'.format r = m.format r
  flagged : m'.flagged r = (m.flagged r || Numeric.differs x (m.value r))
  heard : m'.heard r = m.heard r

variable {x : Float} {c : Command}

theorem Does.held (h : Does (.hold r x) m m') : Held r x m m' := by
  cases h with
  | hold _ _ _ n found =>
    have hn : (m.rack.set (.register r) (.numeric (n.hold x))).registers.find? r =
        some (n.hold x) := by
      rw [Rack.set_register, Registers.find?_modify_same rfl, found]
      rfl
    have hformat : ({ m with rack := m.rack.set (.register r) (.numeric (n.hold x)) } :
        Machine).format r = m.format r := by
      simp only [Machine.format, hn, found, Option.map_some, Option.getD_some]
      rfl
    refine ⟨?_, hformat, ?_, by rw [Machine.heard, Machine.heard, hformat]⟩
    · simp only [Machine.value, hn, Option.map_some, Option.getD_some]
      rfl
    · simp only [Machine.flagged, Machine.value, hn, found, Option.map_some, Option.getD_some]
      rfl

theorem Does.calm_of_hold (h : Does (.hold r x) m m') (hm : Calm m) : Calm m' := by
  refine ⟨h.indexed hm.indexed, ?_⟩
  cases h
  exact hm.inactive

theorem Held.inStep (h : Held r x m m') (hm : InStep m r) (ha : Apart r m m') : InStep m' r := by
  intro hf
  rw [h.flagged, Bool.or_eq_false_iff] at hf
  rcases ha with ha | ha
  · rw [h.heard, hm hf.1, word, word, h.format]
    exact (NumberFormat.format_of_beq _ ha).symm
  · rw [h.value, hf.2] at ha
    cases ha

def HeldOnce (r : Text) (m m' : Machine) : Prop :=
  ∃ m₁ m₂, Course (Spares r) m m₁ ∧ (m₂ = m₁ ∨ ∃ x, Does (.hold r x) m₁ m₂) ∧
    Course (Spares r) m₂ m'

theorem Course.heldOnce (h : Course (Spares r) m m') : HeldOnce r m m' :=
  ⟨m', m', h, .inl rfl, Course.refl⟩

theorem HeldOnce.alike (h : HeldOnce r m m') : Alike m m' := by
  obtain ⟨m₁, m₂, h₁, hheld, h₂⟩ := h
  rcases hheld with rfl | ⟨x, hx⟩
  · exact h₁.alike.trans h₂.alike
  · exact (h₁.alike.trans hx.alike).trans h₂.alike

theorem HeldOnce.calm (h : HeldOnce r m m') (hm : Calm m) : Calm m' := by
  obtain ⟨m₁, m₂, h₁, hheld, h₂⟩ := h
  have hm₁ := (h₁.follows hm).1
  rcases hheld with rfl | ⟨x, hx⟩
  · exact (h₂.follows hm₁).1
  · exact (h₂.follows (hx.calm_of_hold hm₁)).1

theorem HeldOnce.inStep (h : HeldOnce r m m') (hm : Calm m) (hs : InStep m r)
    (ha : Apart r m m') : InStep m' r := by
  obtain ⟨m₁, m₂, h₁, hheld, h₂⟩ := h
  obtain ⟨hm₁, hf₁⟩ := h₁.follows hm
  rcases hheld with rfl | ⟨x, hx⟩
  · exact (h₂.follows hm₁).2.inStep (hf₁.inStep hs)
  · have hf₂ := (h₂.follows (hx.calm_of_hold hm₁)).2
    have ha' : Apart r m₁ m₂ := by rwa [Apart, ← hf₂.value, hf₁.value]
    exact hf₂.inStep (hx.held.inStep (hf₁.inStep hs) ha')

/-! ## Commands set a register once -/

def observed : List Text := ["X", "Y", "Z", "A", "B", "F", "S"]

section Spares

variable {d : Deed}

theorem CallMay.spares (h : CallMay p m d) : Spares r m d := by
  cases h <;> trivial

theorem TravelMay.spares (hr : r ∈ observed) (h : TravelMay p m d) : Spares r m d := by
  cases h with
  | restate h =>
    cases h with
    | point => exact .inl rfl
    | restated => trivial
  | adapt h =>
    cases h with
    | point => exact .inl rfl
    | hideDepth h _ => exact .inr h
    | _ => trivial
  | path h =>
    cases h with
    | arcWord a x ha =>
      have hapart : ∀ a ∈ (["I", "J", "K", "R"] : List Text), ∀ r ∈ observed,
          normalName a ≠ normalName r := by decide
      exact hapart a ha r hr
    | point => exact .inl rfl
    | motionCode => exact (by decide : ModalGroup.motion.name ≠ ModalGroup.cycle.name)
    | _ => trivial

theorem CancelMay.spares (h : CancelMay p m d) : Spares r m d := by
  cases h <;> trivial

theorem WrapUpMay.spares (h : WrapUpMay p m d) : Spares r m d := by
  cases h with
  | spindleOff => exact (by decide : ModalGroup.spindle.name ≠ ModalGroup.cycle.name)
  | coolantOff => exact (by decide : ModalGroup.coolant.name ≠ ModalGroup.cycle.name)
  | _ => trivial

theorem StartMay.spares (style : p.cycleStyle = .call) (h : StartMay p m d) : Spares r m d := by
  cases h with
  | call h => exact h.spares
  | code f _ code => exact absurd (style.symm.trans code) (by decide)
  | _ => trivial

end Spares

variable {α β : Type} {a : Action α}

def HoldsOnce (p : Profile) (r : Text) (a : Action α) : Prop :=
  ∀ m : Machine, m.profile = p → ∀ x m', a.run m = .ok x m' → HeldOnce r m m'

/-- The action sets none but the named registers of the observed ones, and each
of them once at most. -/
def Holds (p : Profile) (names : List Text) (a : Action α) : Prop :=
  ∀ r ∈ observed, HoldsOnce p r a ∧ (r ∉ names → KeepsTo p (Spares r) a)

namespace Holds

variable {names names' : List Text}

theorem of_keepsTo (h : ∀ r ∈ observed, KeepsTo p (Spares r) a) : Holds p names a :=
  fun r hn => ⟨fun m hm x m' hr => (h r hn m hm x m' hr).heldOnce, fun _ => h r hn⟩

theorem pure (x : α) :
    Holds p names (Pure.pure x : Action α) := of_keepsTo fun _ _ => keepsTo_pure x

theorem bind {f : α → Action β} (ha : Holds p names a) (hf : ∀ x, Holds p names' (f x))
    (hdisjoint : ∀ r ∈ names, r ∉ names') : Holds p (names ++ names') (a >>= f) := by
  intro r hn
  refine ⟨fun m hm y m' hr => ?_, fun hout => ?_⟩
  · obtain ⟨x, m₁, h₁, h₂⟩ := run_bind_ok.mp hr
    by_cases hname : r ∈ names
    · obtain ⟨a₁, a₂, hc₁, hheld, hc₂⟩ := (ha r hn).1 m hm x m₁ h₁
      have hprofile : m₁.profile = p := by
        refine (hc₂.profile.trans ?_).trans hm
        rcases hheld with rfl | ⟨x, hx⟩
        · exact hc₁.profile
        · exact hx.profile.trans hc₁.profile
      have hrest := (hf x r hn).2 (hdisjoint r hname) m₁ hprofile y m' h₂
      exact ⟨a₁, a₂, hc₁, hheld, hc₂.trans hrest⟩
    · have hfirst := (ha r hn).2 hname m hm x m₁ h₁
      obtain ⟨a₁, a₂, hc₁, hheld, hc₂⟩ := (hf x r hn).1 m₁ (hfirst.profile.trans hm) y m' h₂
      exact ⟨a₁, a₂, hfirst.trans hc₁, hheld, hc₂⟩
  · have hout := mt List.mem_append.mpr hout
    exact keepsTo_bind ((ha r hn).2 fun h => hout (.inl h))
      fun x => (hf x r hn).2 fun h => hout (.inr h)

theorem get {f : Machine → Action β} (hf : ∀ m, m.profile = p → Holds p names (f m)) :
    Holds p names (MonadState.get >>= f) :=
  fun r hn => ⟨fun m hm => (hf m hm r hn).1 m hm,
    fun hout => keepsTo_get fun m hm => (hf m hm r hn).2 hout⟩

theorem ite {c : Prop} [Decidable c] {b : Action α} (ha : Holds p names a) (hb : Holds p names b) :
    Holds p names (if c then a else b) := by
  split
  · exact ha
  · exact hb

theorem register (hname : r ∈ observed) (x : Float) : Holds p [r] (setRegister r x) := by
  have hapart : ∀ a ∈ observed, ∀ b ∈ observed, normalName a = normalName b → a = b := by decide
  intro other ho
  by_cases he : other = r
  · subst he
    refine ⟨fun m hm u m' hr => ?_, fun hout => absurd List.mem_cons_self hout⟩
    rw [setRegister_run] at hr
    cases h : m.rack.registers.find? other with
    | none =>
      rw [h] at hr
      cases hr
      exact Course.refl.heldOnce
    | some n =>
      simp only [h] at hr
      split at hr
      · cases hr
        exact ⟨m, _, Course.refl, .inr ⟨x, .hold m other x n h⟩, Course.refl⟩
      · cases hr
  · have hkeeps : KeepsTo p (Spares other) (setRegister r x) :=
      keepsTo_setRegister (fun m x h => he (hapart other ho r hname h.symm)) x
    exact ⟨fun m hm u m' hr => (hkeeps m hm u m' hr).heldOnce, fun _ => hkeeps⟩

end Holds

theorem holds_setCoordinates (c : Command) : Holds p ["X", "Y", "Z"] (setCoordinates c) := by
  refine Holds.get fun m _ => Holds.bind (Holds.register (by decide) _) (fun _ => ?_) (by decide)
  refine Holds.get fun m _ => Holds.bind (Holds.register (by decide) _) (fun _ => ?_) (by decide)
  exact Holds.get fun m _ => Holds.register (by decide) _

theorem holds_setToolAxis (c : Command) : Holds p ["A", "B"] (setToolAxis c) := by
  refine Holds.get fun m _ => ?_
  split
  · exact Holds.bind (Holds.register (by decide) _)
      (fun _ => Holds.register (by decide) _) (by decide)
  · exact Holds.pure ()

theorem keepsTo_travel (hr : r ∈ observed) (start : Point) : KeepsTo p (Spares r) (do
    queueMotion start
    writeBlock
    callRepeated) := by
  refine keepsTo_bind ((keepsTo_queueMotion start).mono fun _ _ h => h.spares hr) fun _ => ?_
  refine keepsTo_bind (keepsTo_writeBlock fun _ => trivial) fun _ => ?_
  exact keepsTo_callRepeated.mono fun _ _ h => h.spares

theorem holds_moveTo (c : Command) : Holds p ["X", "Y", "Z", "A", "B"] (moveTo c) := by
  refine Holds.ite (Holds.pure ()) (Holds.get fun m _ => ?_)
  have htravel : Holds p [] (do queueMotion m.position; writeBlock; callRepeated) :=
    Holds.of_keepsTo fun _ hr => keepsTo_travel hr m.position
  have haxis := Holds.bind (holds_setToolAxis c) (fun _ => htravel) (by decide)
  exact Holds.bind (holds_setCoordinates c) (fun _ => haxis) (by decide)

theorem holds_setVariable (key : Text) (v : Value) : Holds p [] (setVariable key v) :=
  Holds.of_keepsTo fun _ _ => keepsTo_setVariable fun _ => trivial

theorem holds_moveRapidly (c : Command) : Holds p ["X", "Y", "Z", "A", "B"] (moveRapidly c) :=
  Holds.bind (holds_setVariable _ _) (fun _ => holds_moveTo c) (by simp)

theorem holds_runSpindle (c : Command) : Holds p ["S"] (runSpindle c) := by
  have hset {a : Action SpindleState} (h : KeepsTo p SettingMay a) : Holds p [] a :=
    Holds.of_keepsTo fun _ _ => h.mono fun _ _ h => by cases h; trivial
  have hspeeds : Holds p [] (setSpeeds c) :=
    Holds.of_keepsTo fun _ _ => (keepsTo_setSpeeds c).mono fun _ _ h => by cases h; trivial
  have hcode (f : Function) : Holds p [] (emitModal .spindle f) :=
    Holds.of_keepsTo fun _ _ => keepsTo_emitModal (fun _ => trivial) fun _ => by
      exact (by decide : ModalGroup.spindle.name ≠ ModalGroup.cycle.name)
  have hblock : Holds p [] writeBlock :=
    Holds.of_keepsTo fun _ _ => keepsTo_writeBlock fun _ => trivial
  refine Holds.bind hspeeds (fun _ => Holds.get fun m _ => ?_) (by simp)
  refine Holds.bind (hset (keepsTo_foldlM _ keepsTo_spindleWord _)) (fun state => ?_) (by simp)
  refine Holds.bind (hcode _) (fun _ => Holds.get fun m _ => ?_) (by simp)
  exact Holds.bind (Holds.ite (Holds.register (by decide) _) (Holds.pure ()))
    (fun _ => hblock) (by simp)

theorem holds_setCycleFeed (c : Command) (i : Nat) : Holds p ["F"] (setCycleFeed c i) := by
  rw [setCycleFeed]
  split
  · exact Holds.register (by decide) _
  · exact Holds.pure ()

theorem holds_repeatCycle (style : p.cycleStyle = .call) (c : Command) :
    Holds p ["F"] (repeatCycle c) := by
  have hstart (d : DrillCycle) : Holds p [] (startCycle d false) :=
    Holds.of_keepsTo fun _ _ => (keepsTo_startCycle d false).mono fun _ _ h => h.spares style
  have hfeed (i : Nat) (d : DrillCycle) : Holds p ["F"] (do setCycleFeed c i; startCycle d false) :=
    Holds.bind (holds_setCycleFeed c i) (fun _ => hstart d) (by simp)
  refine Holds.get fun m _ => Holds.ite ?_ (Holds.ite (hfeed _ _) (Holds.ite (hfeed _ _) ?_))
  · exact Holds.of_keepsTo fun _ _ => keepsTo_cancelCycle.mono fun _ _ h => h.spares
  · exact Holds.of_keepsTo fun _ _ => keepsTo_note (fun _ => trivial) _ _ _

/-- The verbs of a run whose output is lossless: no operation start, which clears
the flags, and no canned cycle, which keeps the depth out of blocks. -/
def Admits (p : Profile) (v : Verb) : Prop :=
  v ≠ .startOperation ∧
    (p.cycleStyle = .code → v ∉ [Verb.drillHere, Verb.deepDrillHere, Verb.cycle])

theorem May.spares {v : Verb} {d : Deed} (hv : Admits p v) (hr : r ∈ observed)
    (hstill : v.moves = false) (hquiet : v ∉ [Verb.feed, Verb.spindle, Verb.cycle])
    (h : Verb.May p m v d) : Spares r m d := by
  cases h with
  | move hmoves => simp [hstill] at hmoves
  | start hstart h =>
    cases hstyle : p.cycleStyle with
    | call => exact h.spares hstyle
    | code => exact absurd hstart (hv.2 hstyle)
  | cancel _ h => exact h.spares
  | clearFlags => exact absurd rfl hv.1
  | feed _ x hfeed =>
    simp only [List.mem_cons, List.not_mem_nil, or_false] at hfeed hquiet
    rcases hfeed with rfl | rfl <;> simp at hquiet
  | speed => simp at hquiet
  | spindleSetting h => cases h; trivial
  | toolNumber =>
    have hapart : ∀ r ∈ observed, normalName "T" ≠ normalName r := by decide
    exact hapart r hr
  | planeCode => exact (by decide : ModalGroup.plane.name ≠ ModalGroup.cycle.name)
  | homeCode => exact (by decide : ModalGroup.motion.name ≠ ModalGroup.cycle.name)
  | cutcom => exact (by decide : ModalGroup.cutcom.name ≠ ModalGroup.cycle.name)
  | spindleCode => exact (by decide : ModalGroup.spindle.name ≠ ModalGroup.cycle.name)
  | coolantCode => exact (by decide : ModalGroup.coolant.name ≠ ModalGroup.cycle.name)
  | wrapUp h => exact h.spares
  | _ => trivial

theorem holdsOnce_perform {v : Verb} (hv : Admits p v) (hr : r ∈ observed) (c : Command) :
    HoldsOnce p r (perform v c) := by
  by_cases hquiet : v.moves = false ∧ v ∉ [Verb.feed, Verb.spindle, Verb.cycle]
  · intro m hm u m' h
    refine Course.heldOnce ((keepsTo_perform v c m hm u m' h).mono fun _ _ hd => ?_)
    exact May.spares hv hr hquiet.1 hquiet.2 hd
  · cases v with
    | goto => exact (holds_moveTo c r hr).1
    | rapid => exact (holds_moveRapidly c r hr).1
    | start =>
      have hstart : Holds p ["X", "Y", "Z", "A", "B"] (moveToStart c) :=
        Holds.ite (Holds.pure ())
          (Holds.bind (holds_setVariable _ _) (fun _ => holds_moveRapidly c) (by simp))
      exact (hstart r hr).1
    | continuation =>
      have hcontinue : Holds p ["X", "Y", "Z", "A", "B"] (continueMotion c) :=
        Holds.get fun m _ => Holds.ite (holds_moveTo c)
          (Holds.of_keepsTo fun _ _ => keepsTo_note (fun _ => trivial) _ _ _)
      exact (hcontinue r hr).1
    | feed =>
      have hfeed : Holds p ["F"] (setFeed c) := by
        rw [setFeed]
        split
        · exact Holds.pure ()
        · exact Holds.register (by decide) _
      exact (hfeed r hr).1
    | spindle => exact (holds_runSpindle c r hr).1
    | cycle =>
      have hstyle : p.cycleStyle = .call := by
        cases hs : p.cycleStyle with
        | call => rfl
        | code => exact absurd (by simp) (hv.2 hs)
      exact (holds_repeatCycle hstyle c r hr).1
    | _ => exact absurd ⟨rfl, by simp⟩ hquiet

/-- Every observed register is tracked and in step, and no canned cycle is active. -/
structure Synced (m : Machine) : Prop where
  calm : Calm m
  tracked : ∀ r ∈ observed, .register r ∈ m.writer.tracked
  inStep : ∀ r ∈ observed, InStep m r

def AdmitsCommand (p : Profile) (m : Machine) (c : Command) : Prop :=
  ∀ v c', m.verbs.resolve c = some (v, c') → Admits p v

theorem Step.heldOnce (h : Step c m m') (ha : AdmitsCommand m.profile m c)
    (hr : r ∈ observed) : HeldOnce r m m' := by
  have hbook : ∀ m, Spares r m .book := fun _ => trivial
  rcases h.cases with ⟨-, stats, log, rfl⟩ | ⟨v, c', stats, log, m₁, hv, hp, rfl⟩
  · exact Course.heldOnce (Course.one (hbook m) (.book m m.tools stats m.cycles m.last log))
  · obtain ⟨a₁, a₂, h₁, hheld, h₂⟩ :=
      holdsOnce_perform (ha v c' hv) hr c' { m with stats, log } rfl () m₁ hp
    refine ⟨a₁, a₂, ?_, hheld, h₂.trans ?_⟩
    · exact (Course.one (hbook m) (.book m m.tools stats m.cycles m.last log)).trans h₁
    · exact Course.one (hbook m₁) (.book m₁ m₁.tools m₁.stats m₁.cycles _ m₁.log)

theorem Step.synced (h : Step c m m') (ha : AdmitsCommand m.profile m c)
    (hvalues : ∀ r ∈ observed, Apart r m m') (hm : Synced m) : Synced m' := by
  refine ⟨(h.heldOnce ha (by decide : Text.ofString "X" ∈ observed)).calm hm.calm, ?_,
    fun r hr => ?_⟩
  · rw [h.course.alike.tracked]
    exact hm.tracked
  · exact (h.heldOnce ha hr).inStep hm.calm (hm.inStep r hr) (hvalues r hr)

theorem heldOnce_motion {m₁ m₂ m₃ : Machine} (hr : r ∈ observed)
    (h₁ : (setCoordinates c).run m = .ok () m₁) (h₂ : (setToolAxis c).run m₁ = .ok () m₂)
    (h₃ : (queueMotion m.position).run m₂ = .ok () m₃) : HeldOnce r m m₃ := by
  have hqueue : Holds m.profile [] (queueMotion m.position) :=
    Holds.of_keepsTo fun _ hr => (keepsTo_queueMotion _).mono fun _ _ h => h.spares hr
  have haxis := Holds.bind (holds_setToolAxis (p := m.profile) c) (fun _ => hqueue) (by decide)
  have hall := Holds.bind (holds_setCoordinates c) (fun _ => haxis) (by decide)
  refine (hall r hr).1 m rfl () m₃ ?_
  exact run_bind_ok.mpr ⟨(), m₁, h₁, run_bind_ok.mpr ⟨(), m₂, h₂, h₃⟩⟩

theorem Step.heard_word (h : Step c m m') (hmoves : m.moves c = true) (hm : Synced m)
    (hvalues : ∀ r ∈ observed, Apart r m m') (hr : r ∈ observed) : m'.heard r = m'.word r := by
  rcases h.cases with ⟨hv, -⟩ | ⟨v, c', stats, log, m₁, hv, hp, rfl⟩
  · simp [moves, hv] at hmoves
  · have hmoves : movesBy m v c' = true := by simpa [moves, hv] using hmoves
    rw [perform_moving (m := { m with stats, log }) hmoves] at hp
    obtain ⟨a₁, a₂, a₃, h₁, h₂, h₃, taken, hcall⟩ := moveTo_ok (numeric_of_movesBy hmoves) hp
    have hheld := heldOnce_motion hr h₁ h₂ h₃
    have hcalm : Calm { m with stats, log, vars := announced v m.vars } :=
      ⟨hm.calm.indexed, hm.calm.inactive⟩
    have hcalm₃ := hheld.calm hcalm
    have hblock : Follows r a₃ a₃.wroteBlock := Follows.of_block hcalm₃.indexed
    have hcalm₄ : Calm a₃.wroteBlock := (Does.block a₃ taken).calm (r := r) trivial hcalm₃
    have hafter : Follows r a₃.wroteBlock m₁ :=
      (Course.follows ((keepsTo_callRepeated _ rfl () m₁ hcall).mono
        fun _ _ h => h.spares) hcalm₄).2
    have happart : Apart r m a₃ := by
      have := hvalues r hr
      rwa [Apart, ← hblock.value, ← hafter.value]
    refine hafter.told ?_
    cases hflag : a₃.flagged r with
    | false => exact hblock.told (hheld.inStep hcalm (hm.inStep r hr) happart hflag)
    | true =>
      refine heard_of_flagged hcalm₃.indexed ?_ hflag
      rw [hheld.alike.tracked]
      exact hm.tracked r hr

theorem Fresh.value_flagged (h : m.Fresh p) (r : Text) : m.value r = 0 ∧ m.flagged r = false := by
  cases hn : m.rack.registers.find? r with
  | none => simp [Machine.value, flagged, hn]
  | some n =>
    have := h.registers.find? hn
    simp [Machine.value, flagged, hn, this]

theorem Fresh.synced (h : m.Fresh p) : Synced m := by
  refine ⟨⟨h.registers.indexed, by rw [active, activeNamed, h.modal]; rfl⟩, ?_, fun r _ _ => ?_⟩
  · rw [h.tracked]
    decide
  · rw [heard, h.written, word, (h.value_flagged r).1]
    rfl

theorem Leads.heard_word {steps : List (Command × Machine)} (hrun : Leads m steps)
    (hstep : Step c (final m steps) m') (hmoves : (final m steps).moves c = true)
    (hadmits : ∀ s ∈ steps ++ [(c, m')], AdmitsCommand m.profile m s.1)
    (hvalues : ∀ r ∈ observed, (m :: (steps.map Prod.snd ++ [m'])).IsChain (Apart r))
    (hm : Synced m) : ∀ r ∈ observed, m'.heard r = m'.word r := by
  induction steps generalizing m with
  | nil =>
    have happart : ∀ r ∈ observed, Apart r m m' := fun r hr => by simpa using hvalues r hr
    exact fun r hr => hstep.heard_word hmoves hm happart hr
  | cons s steps ih =>
    rw [final_cons] at hstep hmoves
    have happart : ∀ r ∈ observed, Apart r m s.2 ∧
        (s.2 :: (steps.map Prod.snd ++ [m'])).IsChain (Apart r) :=
      fun r hr => by simpa using hvalues r hr
    have hfirst : AdmitsCommand m.profile m s.1 := hadmits s (by simp)
    have hcourse := hrun.1.course
    refine ih hrun.2 hstep hmoves (fun t ht => ?_) (fun r hr => (happart r hr).2)
      (hrun.1.synced hfirst (fun r hr => (happart r hr).1) hm)
    rw [AdmitsCommand, hcourse.profile, hcourse.alike.verbs]
    exact hadmits t (List.mem_cons_of_mem s ht)

/-- After every motion of a run, the last word that the blocks hold for each
observed register is the word of its value. The values that a register has
between the commands are all that it is given, for no command sets it twice. -/
theorem last_words_current {p : Profile} {m₀ m : Machine} {steps : List (Command × Machine)}
    {c : Command} (hopens : Opens p m₀) (hrun : Leads m₀ steps) (hstep : Step c (final m₀ steps) m)
    (hmoves : (final m₀ steps).moves c = true)
    (hadmits : ∀ s ∈ steps ++ [(c, m)], ∀ v c', Verbs.standard.resolve s.1 = some (v, c') →
      Admits p v)
    (hvalues : ∀ r ∈ observed, (m₀ :: (steps.map Prod.snd ++ [m])).IsChain (Apart r)) :
    (∀ r ∈ observed, m₀.value r = 0) ∧
      (∀ r ∈ observed, m.heard r = (m.format r).format (m.value r)) ∧
      (m.writer.written.reverse.map (Block.line p.separator)).Sublist m.outlet.lines := by
  have hfresh := hopens.fresh
  refine ⟨fun r _ => (hfresh.value_flagged r).1, ?_, ?_⟩
  · refine Leads.heard_word hrun hstep hmoves (fun s hs v c' hv => ?_) hvalues hfresh.synced
    rw [hfresh.verbs] at hv
    exact hfresh.profile ▸ hadmits s hs v c' hv
  · obtain ⟨blocks, lines, hb, hl, hsub, -⟩ := hrun.handsOver.trans hstep.course.handsOver
    rw [hb, hl, hfresh.written, List.append_nil, ← hfresh.separator]
    exact hsub.trans (List.sublist_append_right _ _)

set_option maxRecDepth 100000 in
theorem last_words_current_cut : ∃ (m₀ m : Machine) (steps : List (Command × Machine)),
    Opens {} m₀ ∧ Leads m₀ steps ∧ steps.length = 5 ∧
      Step { major := "goto", numeric := [1.5, 4] } (final m₀ steps) m ∧
      m.value "Y" = 4 ∧ m.value "S" = 1200 ∧
      ∀ r ∈ observed, m.heard r = (m.format r).format (m.value r) := by
  let cs : List Command :=
    [{ major := "fedrat", numeric := [250] }, { major := "spindl", numeric := [1200] },
      { major := "goto", numeric := [1.5, 2, -3] }, { major := "goto", numeric := [1.5, 2, -3] },
      { major := "rapid" }]
  let c : Command := { major := "goto", numeric := [1.5, 4] }
  let check (m₀ : Machine) (steps : List (Command × Machine)) (m : Machine) : Bool :=
    (final m₀ steps).moves c && (m.value "Y" = 4 && m.value "S" = 1200) &&
      observed.all fun r => decide ((m₀ :: (steps.map Prod.snd ++ [m])).IsChain (Apart r))
  have hcheck : rehearse {} cs c check = true := by decide +kernel
  have hverbs : ∀ c' ∈ cs ++ [c], ∀ v ∈ (Verbs.standard.resolve c').map Prod.fst,
      v ≠ .startOperation ∧ v ∉ [Verb.drillHere, Verb.deepDrillHere, Verb.cycle] := by
        decide +kernel
  obtain ⟨m₀, steps, m, hopens, hrun, hcs, hstep, hcheck⟩ := exists_of_rehearse hcheck
  simp only [check, Bool.and_eq_true, decide_eq_true_eq, List.all_eq_true] at hcheck
  obtain ⟨⟨hmoves, hvalues⟩, hchain⟩ := hcheck
  have hlength : steps.length = 5 := by rw [← List.length_map Prod.fst, hcs]; rfl
  refine ⟨m₀, m, steps, hopens, hrun, hlength, hstep, hvalues.1, hvalues.2, ?_⟩
  refine (last_words_current hopens hrun hstep hmoves (fun s hs v c' hv => ?_) hchain).2.1
  have hmem : s.1 ∈ cs ++ [c] := by
    have := List.mem_map_of_mem (f := Prod.fst) hs
    simpa [hcs] using this
  have := hverbs s.1 hmem v (by simp [hv])
  exact ⟨this.1, fun _ => this.2⟩

end Toolpath.Machine
