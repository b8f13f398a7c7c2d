import Toolpath.Proofs.Deeds

/-!
# What each verb may do

`Verb.May p v m d` tells that the verb `v` may do the deed `d` to the machine
`m`, under the profile `p`. Carrying out a verb keeps to what it may do; so does
dispatching a command, with the verb that the command resolves to.
-/

namespace Toolpath

def Verb.moves : Verb → Bool
  | .goto | .rapid | .start | .continuation => true
  | _ => false

namespace Machine

inductive CallMay (p : Profile) (m : Machine) : Deed → Prop
  | book : CallMay p m .book
  | queue (t : Text) (ht : t ≠ []) (style : p.cycleStyle = .call) :
      CallMay p m (.queue (.once (.code t)))
  | block (style : p.cycleStyle = .call) : CallMay p m .block

inductive AxisMay (m : Machine) : Deed → Prop
  | coordinate (name : Text) (x : Float) (h : name ∈ (["X", "Y", "Z", "A", "B"] : List Text)) :
      AxisMay m (.hold name x)

inductive RestateMay (m : Machine) : Deed → Prop
  | point (name : Text) : RestateMay m (.flag true name)
  | restated : RestateMay m (.unassign Variable.restate)

inductive AdaptMay (p : Profile) (m : Machine) : Deed → Prop
  | book : AdaptMay p m .book
  | point (name : Text) : AdaptMay p m (.flag true name)
  | hideDepth (h : m.active .cycle ≠ []) (repeated : m.vars.flag Variable.cycleOnce false = false) :
      AdaptMay p m (.flag false "Z")
  | cancel (h : m.active .cycle ≠ []) (once : m.vars.flag Variable.cycleOnce false = true)
      (known : p.code .cycleCancel ≠ []) : AdaptMay p m (.queue (codeOf p .cycleCancel))
  | forget (g : ModalGroup) (h : g ∈ [ModalGroup.cycle, .motion]) : AdaptMay p m (.forget g.name)
  | unassign (key : Text) (h : key ∈ [Variable.cycle, Variable.cycleOnce]) :
      AdaptMay p m (.unassign key)

inductive PathMay (m : Machine) : Deed → Prop
  | book : PathMay m .book
  | arcWord (name : Text) (x : Float) (h : name ∈ (["I", "J", "K", "R"] : List Text)) :
      PathMay m (.hold name x)
  | point (name : Text) : PathMay m (.flag true name)
  | dropCircle : PathMay m (.circle none)
  | motionCode (f : Function) (hf : f ∈ [Function.rapid, .linear, .arcClockwise, .arcCounter])
      (h : m.active .cycle = []) : PathMay m (.select ModalGroup.motion.name f.name)
  | straightened : PathMay m (.assign Variable.motion (.text Motion.linear))

inductive TravelMay (p : Profile) (m : Machine) : Deed → Prop
  | restate {d : Deed} (h : RestateMay m d) : TravelMay p m d
  | adapt {d : Deed} (h : AdaptMay p m d) : TravelMay p m d
  | path {d : Deed} (h : PathMay m d) : TravelMay p m d

inductive MotionMay (p : Profile) (m : Machine) : Deed → Prop
  | call {d : Deed} (h : CallMay p m d) : MotionMay p m d
  | travel {d : Deed} (h : TravelMay p m d) : MotionMay p m d
  | axis {d : Deed} (h : AxisMay m d) : MotionMay p m d
  | rapid : MotionMay p m (.assign Variable.motion (.text Motion.rapid))
  | restate : MotionMay p m (.assign Variable.restate (.flag true))
  | block : MotionMay p m .block

inductive StartMay (p : Profile) (m : Machine) : Deed → Prop
  | call {d : Deed} (h : CallMay p m d) : StartMay p m d
  | cycle (c : DrillCycle) : StartMay p m (.assign Variable.cycle (.cycle c))
  | once (style : p.cycleStyle = .code) : StartMay p m (.assign Variable.cycleOnce (.flag true))
  | repeated (style : p.cycleStyle = .code) : StartMay p m (.unassign Variable.cycleOnce)
  | forget (g : ModalGroup) (h : g ∈ [ModalGroup.cycle, .motion]) (style : p.cycleStyle = .code) :
      StartMay p m (.forget g.name)
  | code (f : Function) (h : f ∈ [Function.drill, .peckDrill]) (style : p.cycleStyle = .code) :
      StartMay p m (.select ModalGroup.cycle.name f.name)
  | depth (n : Numeric) (style : p.cycleStyle = .code) : StartMay p m (.queue (.once (.numeric n)))
  | block : StartMay p m .block

inductive CancelMay (p : Profile) (m : Machine) : Deed → Prop
  | book : CancelMay p m .book
  | cancel (h : m.active .cycle ≠ []) (known : p.code .cycleCancel ≠ [])
    (style : p.cycleStyle = .code) :
      CancelMay p m (.queue (codeOf p .cycleCancel))
  | forget (g : ModalGroup) (h : g ∈ [ModalGroup.cycle, .motion]) (style : p.cycleStyle = .code) :
      CancelMay p m (.forget g.name)
  | unassign (key : Text) (h : key ∈ [Variable.cycle, Variable.cycleOnce]) :
      CancelMay p m (.unassign key)
  | restate (style : p.cycleStyle = .code) : CancelMay p m (.assign Variable.restate (.flag true))
  | block (style : p.cycleStyle = .code) : CancelMay p m .block

inductive WrapUpMay (p : Profile) (m : Machine) : Deed → Prop
  | book : WrapUpMay p m .book
  | spindleOff : WrapUpMay p m (.select ModalGroup.spindle.name Function.spindleOff.name)
  | coolantOff : WrapUpMay p m (.select ModalGroup.coolant.name Function.coolantOff.name)
  | programEnd (known : p.code .programEnd ≠ []) : WrapUpMay p m (.queue (codeOf p .programEnd))
  | finished : WrapUpMay p m (.assign Variable.finished (.flag true))
  | block : WrapUpMay p m .block

inductive SettingMay (m : Machine) : Deed → Prop
  | assign (key : Text) (v : Value) (h : key ∈ [Variable.speedLimit, Variable.spindleSpeed,
      Variable.spindleDirection, Variable.spindleMode]) : SettingMay m (.assign key v)

end Machine

open Machine in
inductive Verb.May (p : Profile) (m : Machine) : Verb → Deed → Prop
  | book (v : Verb) : May p m v .book
  | move {v : Verb} {d : Deed} (hv : v.moves = true) (h : MotionMay p m d) : May p m v d
  | start {v : Verb} {d : Deed} (hv : v ∈ [Verb.drillHere, .deepDrillHere, .cycle])
      (h : StartMay p m d) : May p m v d
  | cancel {v : Verb} {d : Deed} (hv : v ∈ [Verb.cycle, .finish]) (h : CancelMay p m d) :
    May p m v d
  | remark (v : Verb) (t : Text) (hv : v ∈ [Verb.partNumber, .print, .nameOperation]) :
      May p m v (.line t)
  | name (v : Verb) (key t : Text) (hv : (v, key) ∈ [(Verb.partNumber, Variable.partNumber),
      (.nameOperation, Variable.operation)]) : May p m v (.assign key (.text t))
  | clearFlags : May p m .startOperation .clearFlags
  | feed (v : Verb) (x : Float) (hv : v ∈ [Verb.feed, .cycle]) : May p m v (.hold "F" x)
  | circle (c : Circle) : May p m .circle (.circle (some c))
  | plane (pl : Plane) : May p m .plane (.assign Variable.plane (.text pl.name))
  | planeCode (pl : Plane) : May p m .plane (.select ModalGroup.plane.name pl.code.name)
  | homeCode : May p m .home (.select ModalGroup.motion.name Function.rapid.name)
  | home (known : p.code .machineCoordinates ≠ []) :
      May p m .home (.queue (codeOf p .machineCoordinates))
  | homeAxis (n : Numeric) : May p m .home (.queue (.once (.numeric n)))
  | homeRestate : May p m .home (.assign Variable.restate (.flag true))
  | homeMotion : May p m .home (.assign Variable.motion (.text Motion.linear))
  | multiAxis (b : Bool) : May p m .multiAxis (.assign Variable.multiAxis (.flag b))
  | cutcom (f : Function) (h : f ∈ [Function.cutcomLeft, .cutcomRight, .cutcomOff]) :
      May p m .cutterCompensation (.select ModalGroup.cutcom.name f.name)
  | spindleSetting {d : Deed} (h : SettingMay m d) : May p m .spindle d
  | spindleCode (s : SpindleState) : May p m .spindle (.select ModalGroup.spindle.name s.code.name)
  | speed (x : Float) : May p m .spindle (.hold "S" x)
  | coolantKind (t : Text) : May p m .coolant (.assign Variable.coolantKind (.text t))
  | coolantCode (f : Function) (h : f ∈ [Function.coolantFlood, .coolantMist, .coolantOff]) :
      May p m .coolant (.select ModalGroup.coolant.name f.name)
  | tool (v : Value) : May p m .loadTool (.assign Variable.tool v)
  | toolNumber (v : Verb) (x : Float) (hv : v ∈ [Verb.loadTool, .selectTool]) :
      May p m v (.hold "T" x)
  | toolWord (v : Verb) (hv : v ∈ [Verb.loadTool, .selectTool]) :
      May p m v (.queue (.shared (.register "T")))
  | toolChange (known : p.code .toolChange ≠ []) : May p m .loadTool (.queue (codeOf p .toolChange))
  | toolMotion : May p m .loadTool (.forget ModalGroup.motion.name)
  | toolRestate : May p m .loadTool (.assign Variable.restate (.flag true))
  | dwell (known : p.code .dwell ≠ []) : May p m .delay (.queue (codeOf p .dwell))
  | dwellTime (n : Numeric) : May p m .delay (.queue (.once (.numeric n)))
  | dwellSum (x : Float) : May p m .delay (.assign Variable.dwellTime (.float x))
  | wrapUp {d : Deed} (h : WrapUpMay p m d) : May p m .finish d
  | block (v : Verb) (hv : v ∈ [Verb.plane, .home, .spindle, .coolant, .loadTool, .selectTool,
      .delay]) : May p m v .block

namespace Machine

variable {p : Profile} {m : Machine}

theorem keepsTo_call (style : p.cycleStyle = .call) (name : Text) (params : Parameters) :
    KeepsTo p (CallMay p) (callCycle name params) :=
  keepsTo_callCycle (fun _ => .book) (fun _ t ht => .queue t ht style)
    (fun _ => .block style) name params

theorem keepsTo_callRepeated : KeepsTo p (CallMay p) callRepeated := by
  refine keepsTo_get fun m hm => ?_
  cases hs : m.profile.cycleStyle with
  | code => exact keepsTo_pure ()
  | call =>
    cases m.vars.cycle? Variable.cycle with
    | none => exact keepsTo_pure ()
    | some c => exact keepsTo_call (hm ▸ hs) c.name c.parameters

theorem keepsTo_queueCanned (style : p.cycleStyle = .code) (c : DrillCycle) :
    KeepsTo p (StartMay p) (queueCanned c) := by
  have book : ∀ m, StartMay p m .book := fun _ => .call .book
  have depth : ∀ m n, StartMay p m (.queue (.once (.numeric n))) := fun _ n => .depth n style
  refine keepsTo_bind (keepsTo_forget fun _ => .forget .cycle (by simp) style) fun _ => ?_
  refine keepsTo_bind (keepsTo_emitModal book fun _ => .code c.code ?_ style) fun _ => ?_
  · unfold DrillCycle.code
    split <;> simp
  refine keepsTo_bind (keepsTo_forget fun _ => .forget .motion (by simp) style) fun _ => ?_
  refine keepsTo_bind (keepsTo_count book _) fun _ => ?_
  refine keepsTo_get fun m _ => ?_
  refine keepsTo_bind (keepsTo_demand _) fun n => keepsTo_bind (keepsTo_demand _) fun r => ?_
  refine keepsTo_bind (keepsTo_queue fun m => depth m n) fun _ => ?_
  refine keepsTo_bind (keepsTo_queue fun m => depth m r) fun _ => ?_
  exact keepsTo_onlyIf (keepsTo_queueNumber depth)

theorem keepsTo_startCanned (style : p.cycleStyle = .code) (c : DrillCycle) (once : Bool) :
    KeepsTo p (StartMay p) (startCanned c once) := by
  refine keepsTo_look fun m hm => keepsAt_set (Course.one (.cycle c) (.assign m _ _)) ?_
  refine (?_ : KeepsTo p (StartMay p) _) _ hm
  refine keepsTo_bind (?_ : KeepsTo p _ (markOnce once)) fun _ => ?_
  · exact keepsTo_ite (keepsTo_setVariable fun _ => .once style)
      (keepsTo_removeVariable fun _ => .repeated style)
  · refine keepsTo_bind (keepsTo_onlyIf (keepsTo_queueCanned style c)) fun _ => ?_
    exact keepsTo_onlyIf (keepsTo_writeBlock fun _ => .block)

theorem keepsTo_startCycle (c : DrillCycle) (once : Bool) :
    KeepsTo p (StartMay p) (startCycle c once) := by
  refine keepsTo_get fun m hm => ?_
  cases hs : m.profile.cycleStyle with
  | code => exact keepsTo_startCanned (hm ▸ hs) c once
  | call =>
    refine keepsTo_ite ?_ (keepsTo_setVariable fun _ => .cycle c)
    exact (keepsTo_call (hm ▸ hs) c.name c.parameters).mono fun _ _ h => .call h

theorem keepsTo_cancelCycle : KeepsTo p (CancelMay p) cancelCycle := by
  refine keepsTo_look fun m hm => ?_
  cases hs : m.profile.cycleStyle with
  | call =>
    refine keepsTo_bind ?_ (fun _ => ?_) m hm
    · exact keepsTo_removeVariable fun _ => .unassign _ (by simp)
    · exact keepsTo_resetCycles (fun _ => .book) []
  | code =>
    have style : p.cycleStyle = .code := hm ▸ hs
    by_cases ha : m.active .cycle = []
    · simp only [ha, if_true]
      exact keepsTo_pure () m hm
    · simp only [ha, if_false]
      refine keepsAt_bind ?_ hm fun _ => ?_
      · subst hm
        exact keepsAt_emit .book fun known => .cancel ha known style
      refine keepsTo_bind ?_ fun _ => ?_
      · refine keepsTo_bind (keepsTo_forget fun _ => .forget .cycle (by simp) style) fun _ => ?_
        refine keepsTo_bind (keepsTo_forget fun _ => .forget .motion (by simp) style) fun _ => ?_
        refine keepsTo_bind (keepsTo_removeVariable fun _ => .unassign _ (by simp)) fun _ => ?_
        exact keepsTo_removeVariable fun _ => .unassign _ (by simp)
      · refine keepsTo_bind (keepsTo_setVariable fun _ => .restate style) fun _ => ?_
        exact keepsTo_writeBlock fun _ => .block style

theorem keepsTo_setCoordinates (c : Command) : KeepsTo p AxisMay (setCoordinates c) := by
  refine keepsTo_get fun _ _ => keepsTo_bind ?_ fun _ => ?_
  · exact keepsTo_setRegister (fun _ x => .coordinate _ x (by simp)) _
  refine keepsTo_get fun _ _ => keepsTo_bind ?_ fun _ => ?_
  · exact keepsTo_setRegister (fun _ x => .coordinate _ x (by simp)) _
  exact keepsTo_get fun _ _ => keepsTo_setRegister (fun _ x => .coordinate _ x (by simp)) _

theorem keepsTo_setToolAxis (c : Command) : KeepsTo p AxisMay (setToolAxis c) := by
  refine keepsTo_get fun m _ => ?_
  split
  · refine keepsTo_bind ?_ fun _ => ?_
    · exact keepsTo_setRegister (fun _ x => .coordinate _ x (by simp)) _
    · exact keepsTo_setRegister (fun _ x => .coordinate _ x (by simp)) _
  · exact keepsTo_pure ()

theorem keepsTo_restatePosition : KeepsTo p RestateMay restatePosition := by
  refine keepsTo_get fun m _ => keepsTo_onlyIf (keepsTo_bind ?_ fun _ => ?_)
  · exact keepsTo_flag fun _ name _ => .point name
  · exact keepsTo_removeVariable fun _ => .restated

theorem keepsTo_adaptToCycle : KeepsTo p (AdaptMay p) adaptToCycle := by
  refine keepsTo_look fun m hm => ?_
  by_cases ha : m.active .cycle = []
  · simp only [ha, if_true]
    exact keepsTo_pure () m hm
  · simp only [ha, if_false]
    cases ho : m.vars.flag Variable.cycleOnce false with
    | false => exact keepsAt_modify (Course.one (.hideDepth ha ho) (.flag m false "Z"))
    | true =>
      refine keepsAt_bind ?_ hm fun _ => ?_
      · subst hm
        exact keepsAt_emit .book fun known => .cancel ha ho known
      refine keepsTo_bind ?_ fun _ => keepsTo_flag fun _ name _ => .point name
      refine keepsTo_bind (keepsTo_forget fun _ => .forget .cycle (by simp)) fun _ => ?_
      refine keepsTo_bind (keepsTo_forget fun _ => .forget .motion (by simp)) fun _ => ?_
      refine keepsTo_bind (keepsTo_removeVariable fun _ => .unassign _ (by simp)) fun _ => ?_
      exact keepsTo_removeVariable fun _ => .unassign _ (by simp)

theorem keepsTo_setArcWord {name : Text} (h : name ∈ (["I", "J", "K", "R"] : List Text))
    (x : Float) :
    KeepsTo p PathMay (setArcWord name x) :=
  keepsTo_bind (keepsTo_setRegister (fun _ x => .arcWord name x h) x) fun _ =>
    keepsTo_flag fun _ name _ => .point name

theorem keepsAt_emitArcWords (f : Frame) (c : Circle) (winding : Winding) (start : Point)
    (hm : m.profile = p) (ha : m.active .cycle = []) :
    KeepsAt PathMay m (emitArcWords f c winding start) := by
  have hcode : winding.code ∈ [Function.rapid, .linear, .arcClockwise, .arcCounter] := by
    cases winding <;> simp [Winding.code]
  refine keepsAt_get (keepsAt_bind (keepsAt_emitModal .book (.motionCode _ hcode ha)) hm
    fun _ => ?_)
  refine keepsTo_bind (keepsTo_flag fun _ name _ => .point name) fun _ => ?_
  refine keepsTo_get fun _ _ => keepsTo_ite (keepsTo_setArcWord (by simp) _) ?_
  refine keepsTo_bind (keepsTo_forIn _ fun a => ?_) fun _ => keepsTo_pure _
  refine keepsTo_bind (keepsTo_setArcWord ?_ _) fun _ => keepsTo_pure _
  cases a <;> decide

theorem keepsTo_followCircle (start : Point) (rapid : Bool) :
    KeepsTo p PathMay (followCircle start rapid) := by
  refine keepsTo_look fun m hm => ?_
  cases hc : m.circle with
  | none => exact keepsTo_pure false m hm
  | some c =>
    have warn (text : Text) (details : List (Text × Detail)) : KeepsTo p PathMay (do
        note .warning text details
        return false) :=
      keepsTo_bind (keepsTo_note (fun _ => .book) _ _ _) fun _ => keepsTo_pure false
    have drop : Course PathMay m { m with circle := none } :=
      Course.one .dropCircle (.circle m none)
    by_cases ha : rapid || m.active .cycle ≠ []
    · simp only [ha, if_true]
      exact keepsAt_set drop (warn _ _ _ hm)
    · simp only [ha]
      have ha : rapid = false ∧ m.active .cycle = [] := by simpa using ha
      cases Arc.winding? (Frame.named (m.vars.text Variable.plane Plane.xy.name)) c with
      | none => exact keepsAt_set drop (warn _ _ _ hm)
      | some winding =>
        refine keepsAt_set drop (keepsAt_bind (p := p) ?_ hm fun _ => keepsTo_pure true)
        exact keepsAt_emitArcWords _ c winding start hm ha.2

theorem keepsTo_emitStraight (rapid : Bool) : KeepsTo p PathMay (emitStraight rapid) := by
  refine keepsTo_look fun m hm => ?_
  by_cases ha : m.active .cycle = []
  · simp only [onlyIf, ha, decide_true, if_true]
    refine keepsAt_emitModal .book (.motionCode _ ?_ ha)
    split <;> simp
  · simp only [onlyIf, ha, decide_false, if_false, Bool.false_eq_true]
    exact keepsTo_pure () m hm

theorem keepsTo_takePath (start : Point) (rapid : Bool) :
    KeepsTo p PathMay (takePath start rapid) := by
  refine keepsTo_bind (keepsTo_followCircle _ _) fun arc => ?_
  refine keepsTo_bind (keepsTo_onlyIf (keepsTo_emitStraight _)) fun _ => ?_
  refine keepsTo_bind (keepsTo_onlyIf (keepsTo_setVariable fun _ => .straightened)) fun _ => ?_
  exact keepsTo_count (fun _ => .book) _

theorem keepsTo_queueMotion (start : Point) : KeepsTo p (TravelMay p) (queueMotion start) := by
  refine keepsTo_bind (keepsTo_restatePosition.mono fun _ _ h => .restate h) fun _ => ?_
  refine keepsTo_get fun m _ => keepsTo_bind ?_ fun _ => ?_
  · exact keepsTo_adaptToCycle.mono fun _ _ h => .adapt h
  · exact (keepsTo_takePath start _).mono fun _ _ h => .path h

theorem keepsTo_moveTo (c : Command) : KeepsTo p (MotionMay p) (moveTo c) := by
  refine keepsTo_ite (keepsTo_pure ()) (keepsTo_get fun m _ => ?_)
  refine keepsTo_bind ((keepsTo_setCoordinates c).mono fun _ _ h => .axis h) fun _ => ?_
  refine keepsTo_bind ((keepsTo_setToolAxis c).mono fun _ _ h => .axis h) fun _ => ?_
  refine keepsTo_bind ((keepsTo_queueMotion _).mono fun _ _ h => .travel h) fun _ => ?_
  refine keepsTo_bind (keepsTo_writeBlock fun _ => .block) fun _ => ?_
  exact keepsTo_callRepeated.mono fun _ _ h => .call h

theorem keepsTo_moveRapidly (c : Command) : KeepsTo p (MotionMay p) (moveRapidly c) :=
  keepsTo_bind (keepsTo_setVariable fun _ => .rapid) fun _ => keepsTo_moveTo c

theorem keepsTo_moveToStart (c : Command) : KeepsTo p (MotionMay p) (moveToStart c) := by
  refine keepsTo_ite (keepsTo_pure ()) ?_
  exact keepsTo_bind (keepsTo_setVariable fun _ => .restate) fun _ => keepsTo_moveRapidly c

theorem keepsTo_continueMotion (c : Command) : KeepsTo p (MotionMay p) (continueMotion c) :=
  keepsTo_get fun _ _ => keepsTo_ite (keepsTo_moveTo c)
    (keepsTo_note (fun _ => .travel (.path .book)) _ _ _)

theorem keepsTo_moveHome (axes : List Axis) : KeepsTo p (Verb.May p · .home) (moveHome axes) := by
  refine keepsTo_bind (keepsTo_emitModal (fun _ => .book _) fun _ => .homeCode) fun _ => ?_
  refine keepsTo_bind (keepsTo_emit (fun _ => .book _) fun _ => .home) fun _ => ?_
  refine keepsTo_bind ?_ fun _ => ?_
  · refine keepsTo_forIn axes fun a => keepsTo_get fun _ _ => ?_
    exact keepsTo_bind (keepsTo_queueNumber fun _ n => .homeAxis n) fun _ => keepsTo_pure _
  refine keepsTo_bind (keepsTo_count (fun _ => .book _) _) fun _ => ?_
  exact keepsTo_writeBlock fun _ => .block _ (by simp)

theorem keepsTo_goHome (c : Command) : KeepsTo p (Verb.May p · .home) (goHome c) := by
  refine keepsTo_bind (keepsTo_forIn _ fun axes => ?_) fun _ => ?_
  · exact keepsTo_bind (keepsTo_moveHome axes) fun _ => keepsTo_pure _
  refine keepsTo_bind (keepsTo_setVariable fun _ => .homeRestate) fun _ => ?_
  exact keepsTo_setVariable fun _ => .homeMotion

theorem keepsTo_remark {v : Verb} (hv : v ∈ [Verb.partNumber, .print, .nameOperation])
    (title text : Text) : KeepsTo p (Verb.May p · v) (remark title text) :=
  keepsTo_ite (keepsTo_pure ()) (keepsTo_comment fun _ t => .remark v t hv)

theorem keepsTo_setSpeeds (c : Command) : KeepsTo p SettingMay (setSpeeds c) := by
  rw [setSpeeds]
  split
  · exact keepsTo_pure ()
  · refine keepsTo_ite (keepsTo_bind ?_ fun _ => keepsTo_onlyIf ?_) ?_
    all_goals exact keepsTo_setVariable fun _ => .assign _ _ (by simp)

theorem keepsTo_spindleWord (state : SpindleState) (word : Text) :
    KeepsTo p SettingMay (spindleWord state word) := by
  have assign (key : Text) (v : Value) (h : key ∈ [Variable.speedLimit, Variable.spindleSpeed,
      Variable.spindleDirection, Variable.spindleMode]) :
      KeepsTo p SettingMay (setVariable key v) :=
    keepsTo_setVariable fun _ => .assign key v h
  refine keepsTo_ite (keepsTo_bind (assign _ _ (by simp)) fun _ => keepsTo_pure _) ?_
  refine keepsTo_ite (keepsTo_bind (assign _ _ (by simp)) fun _ => keepsTo_pure _) ?_
  refine keepsTo_ite (keepsTo_pure _) (keepsTo_ite (keepsTo_pure _) ?_)
  exact keepsTo_bind (keepsTo_onlyIf (assign _ _ (by simp))) fun _ => keepsTo_pure _

theorem keepsTo_runSpindle (c : Command) : KeepsTo p (Verb.May p · .spindle) (runSpindle c) := by
  refine keepsTo_bind ((keepsTo_setSpeeds c).mono fun _ _ h => .spindleSetting h) fun _ => ?_
  refine keepsTo_get fun m _ => keepsTo_bind ?_ fun state => ?_
  · exact (keepsTo_foldlM _ keepsTo_spindleWord _).mono fun _ _ h => .spindleSetting h
  refine keepsTo_bind ?_ fun _ => keepsTo_get fun m _ => ?_
  · exact keepsTo_emitModal (fun _ => .book _) fun _ => .spindleCode state
  refine keepsTo_bind (keepsTo_onlyIf (keepsTo_setRegister (fun _ x => .speed x) _)) fun _ => ?_
  exact keepsTo_writeBlock fun _ => .block _ (by simp)

theorem keepsTo_switchCoolant (c : Command) (kind : Text) :
    KeepsTo p (Verb.May p · .coolant) (switchCoolant c kind) := by
  have code (f : Function) (h : f ∈ [Function.coolantFlood, .coolantMist, .coolantOff]) :
      KeepsTo p (Verb.May p · .coolant) (emitModal .coolant f) :=
    keepsTo_emitModal (fun _ => .book _) fun _ => .coolantCode f h
  have kindly (t : Text) :
      KeepsTo p (Verb.May p · .coolant) (setVariable Variable.coolantKind (.text t)) :=
    keepsTo_setVariable fun _ => .coolantKind t
  refine keepsTo_ite (code _ (by simp)) ?_
  refine keepsTo_ite (keepsTo_bind (kindly _) fun _ => code _ (by simp)) ?_
  refine keepsTo_ite (keepsTo_bind (kindly _) fun _ => code _ (by simp)) ?_
  exact keepsTo_ite (code _ (by simp)) (keepsTo_ite (code _ (by simp)) (code _ (by simp)))

theorem keepsTo_enterTool (t : Tool) (v : Verb) : KeepsTo p (Verb.May p · v) (enterTool t) := by
  refine keepsTo_modify fun m _ => ?_
  split
  · exact Course.refl
  · exact Course.one (.book v) (.book m _ m.stats m.cycles m.last m.log)

theorem keepsTo_loadTool (c : Command) : KeepsTo p (Verb.May p · .loadTool) (loadTool c) := by
  rw [loadTool]
  split
  · exact keepsTo_pure ()
  · refine keepsTo_get fun m _ => keepsTo_ite (keepsTo_pure ()) ?_
    refine keepsTo_bind (keepsTo_enterTool _ _) fun _ => ?_
    refine keepsTo_bind (keepsTo_setVariable fun _ => .tool _) fun _ => ?_
    refine keepsTo_bind (keepsTo_count (fun _ => .book _) _) fun _ => ?_
    refine keepsTo_bind (keepsTo_setRegister (fun _ x => .toolNumber _ x (by simp)) _) fun _ => ?_
    refine keepsTo_bind (keepsTo_queue fun _ => .toolWord _ (by simp)) fun _ => ?_
    refine keepsTo_bind (keepsTo_emit (fun _ => .book _) fun _ => .toolChange) fun _ => ?_
    refine keepsTo_bind (keepsTo_forget fun _ => .toolMotion) fun _ => ?_
    refine keepsTo_bind (keepsTo_setVariable fun _ => .toolRestate) fun _ => ?_
    exact keepsTo_writeBlock fun _ => .block _ (by simp)

theorem keepsTo_selectTool (c : Command) : KeepsTo p (Verb.May p · .selectTool) (selectTool c) := by
  rw [selectTool]
  split
  · exact keepsTo_pure ()
  · refine keepsTo_bind (keepsTo_setRegister (fun _ x => .toolNumber _ x (by simp)) _) fun _ => ?_
    refine keepsTo_bind (keepsTo_queue fun _ => .toolWord _ (by simp)) fun _ => ?_
    exact keepsTo_writeBlock fun _ => .block _ (by simp)

theorem keepsTo_dwell (c : Command) : KeepsTo p (Verb.May p · .delay) (dwell c) := by
  rw [dwell]
  split
  · exact keepsTo_pure ()
  · refine keepsTo_get fun m _ => ?_
    refine keepsTo_bind (keepsTo_emit (fun _ => .book _) fun _ => .dwell) fun _ => ?_
    refine keepsTo_bind (keepsTo_queueNumber fun _ n => .dwellTime n) fun _ => ?_
    refine keepsTo_get fun m _ =>
      keepsTo_bind (keepsTo_setVariable fun _ => .dwellSum _) fun _ => ?_
    exact keepsTo_writeBlock fun _ => .block _ (by simp)

theorem keepsTo_switchOff {g : ModalGroup} {f : Function}
    (h : ∀ m, WrapUpMay p m (.select g.name f.name)) : KeepsTo p (WrapUpMay p) (switchOff g f) :=
  keepsTo_get fun _ _ => keepsTo_onlyIf (keepsTo_emitModal (fun _ => .book) h)

theorem keepsTo_wrapUp (c : Command) : KeepsTo p (WrapUpMay p) (wrapUp c) := by
  refine keepsTo_bind (keepsTo_switchOff fun _ => .spindleOff) fun _ => ?_
  refine keepsTo_bind (keepsTo_switchOff fun _ => .coolantOff) fun _ => ?_
  refine keepsTo_get fun m _ => keepsTo_bind (keepsTo_onlyIf ?_) fun _ => ?_
  · exact keepsTo_emit (fun _ => .book) fun _ => .programEnd
  refine keepsTo_bind (keepsTo_setVariable fun _ => .finished) fun _ => ?_
  refine keepsTo_bind (keepsTo_note (fun _ => .book) _ _ _) fun _ => ?_
  exact keepsTo_writeBlock fun _ => .block

theorem keepsTo_finish (c : Command) : KeepsTo p (Verb.May p · .finish) (finish c) :=
  keepsTo_bind (keepsTo_cancelCycle.mono fun _ _ h => .cancel (by simp) h) fun _ =>
    (keepsTo_wrapUp c).mono fun _ _ h => .wrapUp h

theorem keepsTo_compensate (c : Command) :
    KeepsTo p (Verb.May p · .cutterCompensation) (compensate c) := by
  have code (f : Function) (h : f ∈ [Function.cutcomLeft, .cutcomRight, .cutcomOff]) :
      KeepsTo p (Verb.May p · .cutterCompensation) (emitModal .cutcom f) :=
    keepsTo_emitModal (fun _ => .book _) fun _ => .cutcom f h
  refine keepsTo_ite (code _ (by simp)) (keepsTo_ite (code _ (by simp)) ?_)
  exact keepsTo_ite (code _ (by simp)) (keepsTo_pure ())

theorem keepsTo_announceCircle (c : Command) :
    KeepsTo p (Verb.May p · .circle) (announceCircle c) := by
  rw [announceCircle]
  split
  · exact keepsTo_modify fun m _ => Course.one (.circle _) (.circle m _)
  · exact keepsTo_note (fun _ => .book _) _ _ _

theorem keepsTo_selectPlane (c : Command) : KeepsTo p (Verb.May p · .plane) (selectPlane c) := by
  rw [selectPlane]
  split
  case h_1 pl _ =>
    refine keepsTo_bind (keepsTo_setVariable fun _ => .plane pl) fun _ => ?_
    refine keepsTo_bind (keepsTo_emitModal (fun _ => .book _) fun _ => .planeCode pl) fun _ => ?_
    exact keepsTo_writeBlock fun _ => .block _ (by simp)
  case h_2 => exact keepsTo_note (fun _ => .book _) _ _ _

theorem keepsTo_setCycleFeed (c : Command) (i : Nat) :
    KeepsTo p (Verb.May p · .cycle) (setCycleFeed c i) := by
  rw [setCycleFeed]
  split
  · exact keepsTo_setRegister (fun _ x => .feed _ x (by simp)) _
  · exact keepsTo_pure ()

theorem keepsTo_drilling {v : Verb} (hv : v ∈ [Verb.drillHere, .deepDrillHere, .cycle])
    (c : DrillCycle) (once : Bool) : KeepsTo p (Verb.May p · v) (startCycle c once) :=
  (keepsTo_startCycle c once).mono fun _ _ h => .start hv h

theorem keepsTo_repeatCycle (c : Command) : KeepsTo p (Verb.May p · .cycle) (repeatCycle c) := by
  have start (i : Nat) (d : DrillCycle) : KeepsTo p (Verb.May p · .cycle) (do
      setCycleFeed c i
      startCycle d false) :=
    keepsTo_bind (keepsTo_setCycleFeed c i) fun _ => keepsTo_drilling (by simp) d false
  refine keepsTo_get fun m _ => keepsTo_ite ?_ ?_
  · exact keepsTo_cancelCycle.mono fun _ _ h => .cancel (by simp) h
  · exact keepsTo_ite (start _ _) (keepsTo_ite (start _ _) (keepsTo_note (fun _ => .book _) _ _ _))

theorem keepsTo_drillHere {v : Verb} (hv : v ∈ [Verb.drillHere, .deepDrillHere, .cycle])
    (c : Command) (d : DrillCycle) : KeepsTo p (Verb.May p · v) (drillHere c d) :=
  keepsTo_ite (keepsTo_pure ()) (keepsTo_drilling hv d true)

theorem keepsTo_perform (v : Verb) (c : Command) : KeepsTo p (Verb.May p · v) (perform v c) := by
  have book : ∀ m, Verb.May p m v .book := fun _ => .book v
  have move {a : Action Unit} (hv : v.moves = true) (h : KeepsTo p (MotionMay p) a) :
      KeepsTo p (Verb.May p · v) a := h.mono fun _ _ h => .move hv h
  cases v with
  | partNumber =>
    refine keepsTo_bind (keepsTo_setVariable fun _ => .name _ _ _ (by simp)) fun _ => ?_
    exact keepsTo_remark (by simp) _ _
  | print => exact keepsTo_remark (by simp) _ _
  | nameOperation =>
    refine keepsTo_bind (keepsTo_setVariable fun _ => .name _ _ _ (by simp)) fun _ => ?_
    exact keepsTo_remark (by simp) _ _
  | startOperation =>
    refine keepsTo_bind ?_ fun _ => keepsTo_get fun _ _ => keepsTo_note book _ _ _
    exact keepsTo_modify fun m _ => Course.one .clearFlags (.clearFlags m)
  | feed =>
    rw [perform, setFeed]
    split
    · exact keepsTo_pure ()
    · exact keepsTo_setRegister (fun _ x => .feed _ x (by simp)) _
  | rapid => exact move rfl (keepsTo_moveRapidly c)
  | goto => exact move rfl (keepsTo_moveTo c)
  | circle => exact keepsTo_announceCircle c
  | plane => exact keepsTo_selectPlane c
  | start => exact move rfl (keepsTo_moveToStart c)
  | home => exact keepsTo_goHome c
  | continuation => exact move rfl (keepsTo_continueMotion c)
  | multiAxis => exact keepsTo_setVariable fun _ => .multiAxis _
  | cutterCompensation => exact keepsTo_compensate c
  | spindle => exact keepsTo_runSpindle c
  | coolant =>
    refine keepsTo_get fun m _ => keepsTo_bind (keepsTo_switchCoolant c _) fun _ => ?_
    exact keepsTo_writeBlock fun _ => .block _ (by simp)
  | loadTool => exact keepsTo_loadTool c
  | selectTool => exact keepsTo_selectTool c
  | delay => exact keepsTo_dwell c
  | drillHere => exact keepsTo_drillHere (by simp) c _
  | deepDrillHere => exact keepsTo_drillHere (by simp) c _
  | cycle => exact keepsTo_repeatCycle c
  | finish => exact keepsTo_finish c
  | ignore => exact keepsTo_note book _ _ _
  | refuse reason => exact keepsTo_throw _

end Machine
end Toolpath
