import Toolpath.Proofs.Deeds

/-!
# Writing to an outlet that refuses nothing

Only a line that is refused and a verb that refuses its command make a command fail. With an
outlet that takes every line, and the verbs that every machine knows, a command is carried out to
its end unless it breaks a contract.
-/

namespace Toolpath

structure LineSink.Reliable (s : LineSink) : Prop where
  unbroken : s.broken = none
  takes : ∀ i, s.tape.refuses i = false

structure Outlet.Reliable (o : Outlet) : Prop where
  keeps : ∀ i, o.record.refuses i = false
  passes : ∀ s, o.onward = some s → s.Reliable

namespace LineSink.Reliable

variable {s : LineSink}

theorem drain (h : s.Reliable) : s.drain.Reliable := by
  unfold LineSink.drain
  split
  · exact h
  · rw [Tape.write, h.takes]
    exact ⟨h.unbroken, h.takes⟩

theorem forward (h : s.Reliable) (t : Text) : (s.forward t).Reliable := by
  rw [LineSink.forward, Tape.write, h.takes]
  exact ⟨h.unbroken, h.takes⟩

theorem copy (h : s.Reliable) (t : Text) (fuel : Nat) : (s.copy t fuel).Reliable := by
  induction fuel generalizing s t with
  | zero => exact h
  | succ fuel ih =>
    unfold LineSink.copy
    dsimp only
    split
    · exact h
    split
    · exact ⟨h.unbroken, h.takes⟩
    split
    · exact h.forward t
    · apply ih
      apply drain
      exact ⟨h.unbroken, h.takes⟩

theorem error? (h : s.Reliable) : s.error? = none := by
  rw [LineSink.error?, h.unbroken]
  rfl

theorem writeLine (h : s.Reliable) (line : Text) :
    (s.writeLine line).1 = none ∧ (s.writeLine line).2.Reliable := by
  have hcopied : (({ s with lines := s.lines + 1 } : LineSink).copy (line ++ s.ending)
      ((line ++ s.ending).length + 1)).Reliable := by
    apply copy
    exact ⟨h.unbroken, h.takes⟩
  unfold LineSink.writeLine
  dsimp only
  rw [hcopied.error?]
  exact ⟨rfl, hcopied.unbroken, hcopied.takes⟩

end LineSink.Reliable

namespace Outlet.Reliable

variable {o : Outlet}

theorem writeLine (h : o.Reliable) (line : Text) :
    (o.writeLine line).1 = none ∧ (o.writeLine line).2.Reliable := by
  unfold Outlet.writeLine
  rw [MemorySink.writeLine, h.keeps]
  unfold Outlet.pass
  cases honward : o.onward with
  | none => exact ⟨rfl, h.keeps, fun s hs => by cases hs⟩
  | some s =>
    obtain ⟨htaken, hs⟩ := (h.passes s honward).writeLine line
    dsimp only
    rw [htaken]
    exact ⟨rfl, h.keeps, fun s' hs' => Option.some.inj hs' ▸ hs⟩

theorem flush (h : o.Reliable) : o.flush.1 = none ∧ o.flush.2.Reliable := by
  unfold Outlet.flush
  cases honward : o.onward with
  | none => exact ⟨rfl, h⟩
  | some s =>
    have hs := (h.passes s honward).drain
    dsimp only [LineSink.flush]
    rw [hs.error?]
    exact ⟨rfl, h.keeps, fun s' hs' => Option.some.inj hs' ▸ hs⟩

end Outlet.Reliable

namespace Machine

variable {α β : Type} {m m' m'' : Machine}

/-! ## Actions that do not fail -/

/-- The outlet still takes every line, verbs are found and unknown ones treated as before,
and no command was counted. -/
structure SameTally (m m' : Machine) : Prop where
  reliable : m'.outlet.Reliable
  verbs : m'.verbs = m.verbs
  strict : m'.strict = m.strict
  commands : m'.stats.commands = m.stats.commands
  unknown : m'.stats.unknown = m.stats.unknown

theorem SameTally.refl (h : m.outlet.Reliable) : SameTally m m := ⟨h, rfl, rfl, rfl, rfl⟩

theorem SameTally.trans (h : SameTally m m') (h' : SameTally m' m'') : SameTally m m'' where
  reliable := h'.reliable
  verbs := h'.verbs.trans h.verbs
  strict := h'.strict.trans h.strict
  commands := h'.commands.trans h.commands
  unknown := h'.unknown.trans h.unknown

def Delivered (m : Machine) (a : Action α) : Prop :=
  (∃ w m', a.run m = .error (.violation w) m') ∨ ∃ x m', a.run m = .ok x m' ∧ SameTally m m'

def Delivers (a : Action α) : Prop := ∀ m, m.outlet.Reliable → Delivered m a

theorem delivers_pure (x : α) : Delivers (pure x : Action α) :=
  fun m hm => .inr ⟨x, m, rfl, .refl hm⟩

theorem delivers_look {f : Machine → Action β} (hf : ∀ m, m.outlet.Reliable → Delivered m (f m)) :
    Delivers (get >>= f) := hf

theorem delivers_get {f : Machine → Action β} (hf : ∀ m, Delivers (f m)) : Delivers (get >>= f) :=
  delivers_look fun m => hf m m

theorem delivers_modify {f : Machine → Machine} (hf : ∀ m, m.outlet.Reliable → SameTally m (f m)) :
    Delivers (modify f : Action PUnit) :=
  fun m hm => .inr ⟨_, f m, rfl, hf m hm⟩

theorem Delivered.bind {a : Action α} {f : α → Action β} (ha : Delivered m a)
    (hf : ∀ x, Delivers (f x)) : Delivered m (a >>= f) := by
  unfold Delivered
  rw [EStateM.run_bind]
  obtain ⟨w, m₁, hr⟩ | ⟨x, m₁, hr, hsame⟩ := ha
  · rw [hr]
    exact .inl ⟨w, m₁, rfl⟩
  · rw [hr]
    obtain hbroken | ⟨y, m₂, hr', hsame'⟩ := hf x m₁ hsame.reliable
    · exact .inl hbroken
    · exact .inr ⟨y, m₂, hr', hsame.trans hsame'⟩

theorem delivers_bind {a : Action α} {f : α → Action β} (ha : Delivers a)
    (hf : ∀ x, Delivers (f x)) :
    Delivers (a >>= f) :=
  fun m hm => (ha m hm).bind hf

theorem Delivered.set_bind {a : Action β} (h : SameTally m m') (ha : Delivers a) :
    Delivered m (do set m'; a) :=
  Delivered.bind (.inr ⟨_, m', rfl, h⟩) fun _ => ha

theorem delivers_ite {c : Prop} [Decidable c] {a b : Action α} (ha : Delivers a)
    (hb : Delivers b) : Delivers (if c then a else b) := by
  split
  · exact ha
  · exact hb

theorem delivers_onlyIf {b : Bool} {a : Action Unit} (ha : Delivers a) : Delivers (onlyIf b a) :=
  delivers_ite ha (delivers_pure ())

theorem delivers_forIn {f : β → PUnit → Action (ForInStep PUnit)}
    (hf : ∀ b, Delivers (f b PUnit.unit)) (bs : List β) : Delivers (forIn bs PUnit.unit f) := by
  induction bs with
  | nil => exact delivers_pure _
  | cons b bs ih =>
    rw [List.forIn_cons]
    refine delivers_bind (hf b) fun r => ?_
    cases r with
    | done _ => exact delivers_pure _
    | yield _ => exact ih

theorem delivers_foldlM {f : α → β → Action α} (hf : ∀ a b, Delivers (f a b)) (bs : List β)
    (a : α) : Delivers (bs.foldlM f a) := by
  induction bs generalizing a with
  | nil => exact delivers_pure a
  | cons b bs ih =>
    rw [List.foldlM_cons]
    exact delivers_bind (hf a b) ih

theorem delivers_demand (e : Except Violation α) : Delivers (demand e) := by
  intro m hm
  cases e with
  | ok x => exact delivers_pure x m hm
  | error v => exact .inl ⟨v, m, rfl⟩

theorem delivers_note (level : Level) (message : Text) (details : List (Text × Detail)) :
    Delivers (note level message details) :=
  delivers_modify fun _ h => ⟨h, rfl, rfl, rfl, rfl⟩

theorem delivers_setVariable (key : Text) (v : Value) : Delivers (setVariable key v) :=
  delivers_modify fun _ h => ⟨h, rfl, rfl, rfl, rfl⟩

theorem delivers_removeVariable (key : Text) : Delivers (removeVariable key) :=
  delivers_modify fun _ h => ⟨h, rfl, rfl, rfl, rfl⟩

theorem delivers_forget (g : ModalGroup) : Delivers (forget g) :=
  delivers_modify fun _ h => ⟨h, rfl, rfl, rfl, rfl⟩

theorem delivers_flag (b : Bool) (names : List Text) : Delivers (flag b names) :=
  delivers_modify fun _ h => ⟨h, rfl, rfl, rfl, rfl⟩

theorem delivers_queue (q : Queued) : Delivers (queue q) :=
  delivers_modify fun _ h => ⟨h, rfl, rfl, rfl, rfl⟩

theorem delivers_keepCycle (c : CycleMemo) : Delivers (keepCycle c) :=
  delivers_modify fun _ h => ⟨h, rfl, rfl, rfl, rfl⟩

theorem delivers_resetCycles (name : Text) : Delivers (resetCycles name) :=
  delivers_modify fun _ h => ⟨h, rfl, rfl, rfl, rfl⟩

theorem delivers_count {f : Stats → Stats}
    (hf : ∀ s, (f s).commands = s.commands ∧ (f s).unknown = s.unknown) : Delivers (count f) :=
  delivers_modify fun m h => ⟨h, rfl, rfl, (hf m.stats).1, (hf m.stats).2⟩

theorem delivers_setRegister (name : Text) (x : Float) : Delivers (setRegister name x) := by
  refine delivers_get fun m => ?_
  split
  · exact delivers_bind (delivers_demand _) fun n =>
      delivers_modify fun _ h => ⟨h, rfl, rfl, rfl, rfl⟩
  · exact delivers_pure _

theorem delivers_queueNumber (address : Text) (format : NumberFormat) (x : Float) :
    Delivers (queueNumber address format x) :=
  delivers_bind (delivers_demand _) fun _ => delivers_queue _

theorem delivers_emit (f : Function) : Delivers (emit f) :=
  delivers_get fun _ => delivers_ite (delivers_note _ _ _) (delivers_queue _)

theorem delivers_emitModal (g : ModalGroup) (f : Function) : Delivers (emitModal g f) := by
  intro m hm
  unfold Delivered
  rw [emitModal_run]
  split
  · exact delivers_note _ _ _ m hm
  · exact .inr ⟨_, _, rfl, hm, rfl, rfl, rfl, rfl⟩

theorem delivers_writeLine (t : Text) : Delivers (writeLine t) := by
  intro m hm
  obtain ⟨htaken, hreliable⟩ := hm.writeLine t
  refine .inr ⟨(), m.wroteLine t, ?_, hreliable, rfl, rfl, rfl, rfl⟩
  rw [writeLine_run, htaken]

theorem delivers_writeBlock : Delivers writeBlock := by
  refine delivers_look fun m hm => ?_
  obtain ⟨line, writer, rack⟩ := m.writer.assemble m.rack true
  refine Delivered.set_bind ⟨hm, rfl, rfl, rfl, rfl⟩ ?_
  split
  · exact delivers_writeLine _
  · exact delivers_pure _

theorem delivers_comment (t : Text) : Delivers (comment t) :=
  delivers_get fun _ => delivers_writeLine _

theorem delivers_flush : Delivers flush := by
  intro m hm
  obtain ⟨htaken, hreliable⟩ := hm.flush
  refine .inr ⟨(), { m with outlet := m.outlet.flush.2 }, ?_, hreliable, rfl, rfl, rfl, rfl⟩
  simp only [flush, EStateM.run_bind, EStateM.run_get, EStateM.run_set, htaken]
  rfl

theorem delivers_openCycle (name : Text) : Delivers (openCycle name) := by
  refine delivers_get fun m => ?_
  split
  · exact delivers_pure _
  · refine delivers_bind (delivers_demand _) fun c => delivers_bind ?_ fun _ => delivers_pure _
    exact delivers_modify fun _ h => ⟨h, rfl, rfl, rfl, rfl⟩

theorem delivers_callCycle (name : Text) (params : Parameters) :
    Delivers (callCycle name params) := by
  refine delivers_bind (delivers_count fun _ => ⟨rfl, rfl⟩) fun _ => ?_
  refine delivers_bind (delivers_openCycle name) fun _ =>
    delivers_bind (delivers_keepCycle _) fun _ => ?_
  refine delivers_bind (delivers_queue _) fun _ => delivers_bind delivers_writeBlock fun _ => ?_
  exact delivers_keepCycle _

theorem delivers_clearCycle : Delivers clearCycle := by
  refine delivers_bind (delivers_forget _) fun _ => delivers_bind (delivers_forget _) fun _ => ?_
  exact delivers_bind (delivers_removeVariable _) fun _ => delivers_removeVariable _

theorem delivers_queueCanned (c : DrillCycle) : Delivers (queueCanned c) := by
  refine delivers_bind (delivers_forget _) fun _ =>
    delivers_bind (delivers_emitModal _ _) fun _ => ?_
  refine delivers_bind (delivers_forget _) fun _ => ?_
  refine delivers_bind (delivers_count fun _ => ⟨rfl, rfl⟩) fun _ => delivers_get fun m => ?_
  refine delivers_bind (delivers_demand _) fun _ => delivers_bind (delivers_demand _) fun _ => ?_
  refine delivers_bind (delivers_queue _) fun _ => delivers_bind (delivers_queue _) fun _ => ?_
  exact delivers_onlyIf (delivers_queueNumber _ _ _)

theorem delivers_startCanned (c : DrillCycle) (once : Bool) : Delivers (startCanned c once) := by
  refine delivers_look fun m hm => ?_
  obtain ⟨differs, vars⟩ := m.vars.update Variable.cycle (.cycle c)
  refine Delivered.set_bind ⟨hm, rfl, rfl, rfl, rfl⟩ ?_
  refine delivers_bind (delivers_ite (delivers_setVariable _ _) (delivers_removeVariable _))
    fun _ => ?_
  exact delivers_bind (delivers_onlyIf (delivers_queueCanned c)) fun _ =>
    delivers_onlyIf delivers_writeBlock

theorem delivers_startCycle (c : DrillCycle) (once : Bool) : Delivers (startCycle c once) := by
  refine delivers_get fun m => ?_
  split
  · exact delivers_startCanned c once
  · exact delivers_ite (delivers_callCycle _ _) (delivers_setVariable _ _)

theorem delivers_adaptToCycle : Delivers adaptToCycle := by
  refine delivers_get fun m => delivers_ite (delivers_pure _) ?_
  refine delivers_ite (delivers_bind (delivers_emit _) fun _ => ?_) (delivers_flag _ _)
  exact delivers_bind delivers_clearCycle fun _ => delivers_flag _ _

theorem delivers_callRepeated : Delivers callRepeated := by
  refine delivers_get fun m => ?_
  split
  · exact delivers_callCycle _ _
  · exact delivers_pure _

theorem delivers_cancelCycle : Delivers cancelCycle := by
  refine delivers_get fun m => ?_
  split
  · exact delivers_bind (delivers_removeVariable _) fun _ => delivers_resetCycles _
  · refine delivers_ite (delivers_pure _) (delivers_bind (delivers_emit _) fun _ => ?_)
    refine delivers_bind delivers_clearCycle fun _ => ?_
    exact delivers_bind (delivers_setVariable _ _) fun _ => delivers_writeBlock

theorem delivers_setCycleFeed (c : Command) (i : Nat) : Delivers (setCycleFeed c i) := by
  unfold setCycleFeed
  split
  · exact delivers_setRegister _ _
  · exact delivers_pure _

theorem delivers_repeatCycle (c : Command) : Delivers (repeatCycle c) := by
  have hstart (i : Nat) (d : DrillCycle) : Delivers (do setCycleFeed c i; startCycle d false) :=
    delivers_bind (delivers_setCycleFeed c i) fun _ => delivers_startCycle d false
  refine delivers_get fun m => delivers_ite delivers_cancelCycle ?_
  exact delivers_ite (hstart _ _) (delivers_ite (hstart _ _) (delivers_note _ _ _))

theorem delivers_announceCircle (c : Command) : Delivers (announceCircle c) := by
  unfold announceCircle
  split
  · exact delivers_modify fun _ h => ⟨h, rfl, rfl, rfl, rfl⟩
  · exact delivers_note _ _ _

theorem delivers_selectPlane (c : Command) : Delivers (selectPlane c) := by
  unfold selectPlane
  split
  · refine delivers_bind (delivers_setVariable _ _) fun _ => ?_
    exact delivers_bind (delivers_emitModal _ _) fun _ => delivers_writeBlock
  · exact delivers_note _ _ _

theorem delivers_emitArcWords (f : Frame) (c : Circle) (w : Winding) (start : Point) :
    Delivers (emitArcWords f c w start) := by
  have hset (name : Text) (x : Float) : Delivers (setArcWord name x) :=
    delivers_bind (delivers_setRegister _ _) fun _ => delivers_flag _ _
  refine delivers_get fun m => delivers_bind (delivers_emitModal _ _) fun _ => ?_
  refine delivers_bind (delivers_flag _ _) fun _ => delivers_get fun m => delivers_ite (hset _ _) ?_
  refine delivers_bind (delivers_forIn (fun a => ?_) _) fun _ => delivers_pure _
  exact delivers_bind (hset _ _) fun _ => delivers_pure _

theorem delivers_followCircle (start : Point) (rapid : Bool) :
    Delivers (followCircle start rapid) := by
  have hwarn (text : Text) (details : List (Text × Detail)) :
      Delivers (do note .warning text details; return false : Action Bool) :=
    delivers_bind (delivers_note _ _ _) fun _ => delivers_pure false
  refine delivers_look fun m hm => ?_
  cases m.circle with
  | none => exact delivers_pure false m hm
  | some c =>
    refine Delivered.set_bind ⟨hm, rfl, rfl, rfl, rfl⟩ ?_
    refine delivers_ite (hwarn _ _) ?_
    dsimp only
    split
    · exact delivers_bind (delivers_emitArcWords _ _ _ _) fun _ => delivers_pure true
    · exact hwarn _ _

theorem delivers_takePath (start : Point) (rapid : Bool) : Delivers (takePath start rapid) := by
  refine delivers_bind (delivers_followCircle start rapid) fun arc => ?_
  refine delivers_bind (delivers_onlyIf ?_) fun _ => ?_
  · exact delivers_get fun m => delivers_onlyIf (delivers_emitModal _ _)
  · refine delivers_bind (delivers_onlyIf (delivers_setVariable _ _)) fun _ => ?_
    exact delivers_count fun _ => ⟨rfl, rfl⟩

theorem delivers_setToolAxis (c : Command) : Delivers (setToolAxis c) := by
  refine delivers_get fun m => ?_
  split
  · exact delivers_bind (delivers_setRegister _ _) fun _ => delivers_setRegister _ _
  · exact delivers_pure _

theorem delivers_queueMotion (start : Point) : Delivers (queueMotion start) := by
  have hrestate : Delivers restatePosition := delivers_get fun m => delivers_onlyIf
    (delivers_bind (delivers_flag _ _) fun _ => delivers_removeVariable _)
  refine delivers_bind hrestate fun _ => delivers_get fun m => ?_
  exact delivers_bind delivers_adaptToCycle fun _ => delivers_takePath start _

theorem delivers_moveTo (c : Command) : Delivers (moveTo c) := by
  have hcoordinates : Delivers (setCoordinates c) := by
    refine delivers_get fun m => delivers_bind (delivers_setRegister _ _) fun _ => ?_
    refine delivers_get fun m => delivers_bind (delivers_setRegister _ _) fun _ => ?_
    exact delivers_get fun m => delivers_setRegister _ _
  refine delivers_ite (delivers_pure _) (delivers_get fun m => ?_)
  refine delivers_bind hcoordinates fun _ => delivers_bind (delivers_setToolAxis c) fun _ => ?_
  refine delivers_bind (delivers_queueMotion _) fun _ => ?_
  exact delivers_bind delivers_writeBlock fun _ => delivers_callRepeated

theorem delivers_moveRapidly (c : Command) : Delivers (moveRapidly c) :=
  delivers_bind (delivers_setVariable _ _) fun _ => delivers_moveTo c

theorem delivers_goHome (c : Command) : Delivers (goHome c) := by
  have hmove (axes : List Axis) : Delivers (moveHome axes) := by
    refine delivers_bind (delivers_emitModal _ _) fun _ =>
      delivers_bind (delivers_emit _) fun _ => ?_
    refine delivers_bind (delivers_forIn (fun a => ?_) axes) fun _ => ?_
    · refine delivers_get fun m => ?_
      exact delivers_bind (delivers_queueNumber _ _ _) fun _ => delivers_pure _
    · exact delivers_bind (delivers_count fun _ => ⟨rfl, rfl⟩) fun _ => delivers_writeBlock
  refine delivers_bind (delivers_forIn (fun axes => ?_) _) fun _ => ?_
  · exact delivers_bind (hmove axes) fun _ => delivers_pure _
  · exact delivers_bind (delivers_setVariable _ _) fun _ => delivers_setVariable _ _

theorem delivers_setFeed (c : Command) : Delivers (setFeed c) := by
  unfold setFeed
  split
  · exact delivers_pure _
  · exact delivers_setRegister _ _

theorem delivers_setSpeeds (c : Command) : Delivers (setSpeeds c) := by
  unfold setSpeeds
  split
  · exact delivers_pure _
  · refine delivers_ite (delivers_bind (delivers_setVariable _ _) fun _ =>
      ?_) (delivers_setVariable _ _)
    exact delivers_onlyIf (delivers_setVariable _ _)

theorem delivers_spindleWord (state : SpindleState) (word : Text) :
    Delivers (spindleWord state word) := by
  have hset (key : Text) (v : Value) (s : SpindleState) :
      Delivers (do setVariable key v; pure s : Action SpindleState) :=
    delivers_bind (delivers_setVariable _ _) fun _ => delivers_pure s
  refine delivers_ite (hset _ _ _) (delivers_ite (hset _ _ _) ?_)
  refine delivers_ite (delivers_pure _) (delivers_ite (delivers_pure _) ?_)
  exact delivers_bind (delivers_onlyIf (delivers_setVariable _ _)) fun _ => delivers_pure state

theorem delivers_runSpindle (c : Command) : Delivers (runSpindle c) := by
  refine delivers_bind (delivers_setSpeeds c) fun _ => delivers_get fun m => ?_
  refine delivers_bind (delivers_foldlM delivers_spindleWord _ _) fun state => ?_
  refine delivers_bind (delivers_emitModal _ _) fun _ => delivers_get fun m => ?_
  exact delivers_bind (delivers_onlyIf (delivers_setRegister _ _)) fun _ => delivers_writeBlock

theorem delivers_runCoolant (c : Command) : Delivers (runCoolant c) := by
  have hset (v : Value) (f : Function) :
      Delivers (do setVariable Variable.coolantKind v; emitModal .coolant f) :=
    delivers_bind (delivers_setVariable _ _) fun _ => delivers_emitModal _ _
  have hemit (f : Function) := delivers_emitModal .coolant f
  refine delivers_get fun m => delivers_bind ?_ fun _ => delivers_writeBlock
  refine delivers_ite (hemit _) (delivers_ite (hset _ _) (delivers_ite (hset _ _) ?_))
  exact delivers_ite (hemit _) (delivers_ite (hemit _) (hemit _))

theorem delivers_compensate (c : Command) : Delivers (compensate c) := by
  have hemit (f : Function) := delivers_emitModal .cutcom f
  exact delivers_ite (hemit _) (delivers_ite (hemit _) (delivers_ite (hemit _) (delivers_pure _)))

theorem delivers_loadTool (c : Command) : Delivers (loadTool c) := by
  have henter (t : Tool) : Delivers (enterTool t) := by
    refine delivers_modify fun m h => ?_
    split
    · exact SameTally.refl h
    · exact ⟨h, rfl, rfl, rfl, rfl⟩
  unfold loadTool
  split
  · exact delivers_pure _
  · refine delivers_get fun m => delivers_ite (delivers_pure _) ?_
    refine delivers_bind (henter _) fun _ => delivers_bind (delivers_setVariable _ _) fun _ => ?_
    refine delivers_bind (delivers_count fun _ => ⟨rfl, rfl⟩) fun _ => ?_
    refine delivers_bind (delivers_setRegister _ _) fun _ =>
      delivers_bind (delivers_queue _) fun _ => ?_
    refine delivers_bind (delivers_emit _) fun _ => delivers_bind (delivers_forget _) fun _ => ?_
    exact delivers_bind (delivers_setVariable _ _) fun _ => delivers_writeBlock

theorem delivers_selectTool (c : Command) : Delivers (selectTool c) := by
  unfold selectTool
  split
  · exact delivers_pure _
  · refine delivers_bind (delivers_setRegister _ _) fun _ => ?_
    exact delivers_bind (delivers_queue _) fun _ => delivers_writeBlock

theorem delivers_dwell (c : Command) : Delivers (dwell c) := by
  unfold dwell
  split
  · exact delivers_pure _
  · refine delivers_get fun m => delivers_bind (delivers_emit _) fun _ => ?_
    refine delivers_bind (delivers_queueNumber _ _ _) fun _ => delivers_get fun m => ?_
    exact delivers_bind (delivers_setVariable _ _) fun _ => delivers_writeBlock

theorem delivers_finish (c : Command) : Delivers (finish c) := by
  have hoff (g : ModalGroup) (f : Function) : Delivers (switchOff g f) :=
    delivers_get fun m => delivers_onlyIf (delivers_emitModal g f)
  refine delivers_bind delivers_cancelCycle fun _ => ?_
  refine delivers_bind (hoff _ _) fun _ => delivers_bind (hoff _ _) fun _ =>
    delivers_get fun m => ?_
  refine delivers_bind (delivers_onlyIf (delivers_emit _)) fun _ => ?_
  refine delivers_bind (delivers_setVariable _ _) fun _ =>
    delivers_bind (delivers_note _ _ _) fun _ => ?_
  exact delivers_writeBlock

theorem delivers_remark (title text : Text) : Delivers (remark title text) :=
  delivers_ite (delivers_pure _) (delivers_comment _)

theorem delivers_startOperation (c : Command) : Delivers (startOperation c) := by
  refine delivers_bind (delivers_modify fun _ h => ⟨h, rfl, rfl, rfl, rfl⟩) fun _ => ?_
  exact delivers_get fun m => delivers_note _ _ _

theorem delivers_perform {v : Verb} (hv : ∀ reason, v ≠ .refuse reason) (c : Command) :
    Delivers (perform v c) := by
  cases v with
  | partNumber => exact delivers_bind (delivers_setVariable _ _) fun _ => delivers_remark _ _
  | print => exact delivers_remark _ _
  | nameOperation => exact delivers_bind (delivers_setVariable _ _) fun _ => delivers_remark _ _
  | startOperation => exact delivers_startOperation c
  | feed => exact delivers_setFeed c
  | rapid => exact delivers_moveRapidly c
  | goto => exact delivers_moveTo c
  | circle => exact delivers_announceCircle c
  | plane => exact delivers_selectPlane c
  | start =>
    refine delivers_ite (delivers_pure _) (delivers_bind (delivers_setVariable _ _) fun _ => ?_)
    exact delivers_moveRapidly c
  | home => exact delivers_goHome c
  | continuation =>
    exact delivers_get fun m => delivers_ite (delivers_moveTo c) (delivers_note _ _ _)
  | multiAxis => exact delivers_setVariable _ _
  | cutterCompensation => exact delivers_compensate c
  | spindle => exact delivers_runSpindle c
  | coolant => exact delivers_runCoolant c
  | loadTool => exact delivers_loadTool c
  | selectTool => exact delivers_selectTool c
  | delay => exact delivers_dwell c
  | drillHere => exact delivers_ite (delivers_pure _) (delivers_startCycle _ _)
  | deepDrillHere => exact delivers_ite (delivers_pure _) (delivers_startCycle _ _)
  | cycle => exact delivers_repeatCycle c
  | finish => exact delivers_finish c
  | ignore => exact delivers_note _ _ _
  | refuse reason => exact absurd rfl (hv reason)

theorem delivers_writeTemplate (lines : List Text) : Delivers (writeTemplate lines) := by
  refine delivers_get fun m => delivers_ite ?_ (delivers_pure _)
  refine delivers_bind (delivers_forIn (fun line => ?_) lines) fun _ => delivers_pure _
  exact delivers_bind (delivers_writeLine _) fun _ => delivers_pure _

theorem delivers_complete : Delivers complete := by
  refine delivers_get fun m => delivers_bind (delivers_writeTemplate _) fun _ => ?_
  exact delivers_get fun m => delivers_bind (delivers_note _ _ _) fun _ => delivers_flush

end Machine
end Toolpath
