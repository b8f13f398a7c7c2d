import Toolpath.Proofs.Motions
import Toolpath.Proofs.Profiles

/-!
# Starting and cancelling canned cycles

What the actions on a canned cycle make of a machine, in full: the words they
queue, the code that becomes active, the variables they set. Every function has
a code here, and cycles are written as codes.
-/

namespace Toolpath

def Numeric.single (address : Text) (format : NumberFormat) (x : Float) : Numeric :=
  { address, modal := false, changed := true, value := x, previous := x, initial := x
    format := format.withAddress address }

theorem Numeric.new_ok {address : Text} {format : NumberFormat} {x : Float} {n : Numeric}
    (h : Numeric.new address format x false = .ok n) : n = Numeric.single address format x := by
  obtain ⟨_, -, h⟩ := bind_ok.mp h
  cases h
  rfl

namespace Machine

variable {m m' : Machine} {α : Type} {u : Unit}

def cancelled (m : Machine) : Machine :=
  { m with
    writer := m.writer.queue (codeOf m.profile .cycleCancel)
    modal := (m.modal.remove ModalGroup.cycle.name).remove ModalGroup.motion.name
    vars := (m.vars.remove Variable.cycle).remove Variable.cycleOnce }

theorem emit_clear_run (hcoded : m.profile.Coded) {a : Action α} :
    (do emit .cycleCancel; clearCycle; a).run m = a.run m.cancelled := by
  rw [EStateM.run_bind, emit_run, if_neg (hcoded .cycleCancel)]
  rfl

theorem cancelCycle_run (hcoded : m.profile.Coded) (style : m.profile.cycleStyle = .code) :
    cancelCycle.run m = if m.active .cycle = [] then .ok () m
      else writeBlock.run
        { m.cancelled with vars := m.cancelled.vars.set Variable.restate (.flag true) } := by
  simp only [cancelCycle, EStateM.run_bind, EStateM.run_get, style]
  split
  · rfl
  · exact emit_clear_run hcoded

def adapted (m : Machine) : Machine :=
  if m.active .cycle = [] then m
  else if m.vars.flag Variable.cycleOnce false then
    { m.cancelled with rack := m.rack.flag true (.register "Z") }
  else { m with rack := m.rack.flag false (.register "Z") }

theorem adaptToCycle_run (hcoded : m.profile.Coded) : adaptToCycle.run m = .ok () m.adapted := by
  simp only [adaptToCycle, EStateM.run_bind, EStateM.run_get, adapted]
  split
  · rfl
  · split
    · exact emit_clear_run hcoded
    · rfl

def cannedWords (m : Machine) (c : DrillCycle) : List Queued :=
  .code ⟨c.code.name, some ModalGroup.cycle.name, m.profile.code c.code⟩ ::
    ([("Z", c.dp), ("R", c.rfp + c.sdis)] ++
      if c.isDeep && c.peck != 0 then [("Q", c.peck)] else []).map
      fun w => .once (.numeric (Numeric.single (Text.ofString w.1) (m.format "Z") w.2))

theorem demand_ok {e : Except Violation α} {x : α} (h : (demand e).run m = .ok x m') :
    e = .ok x ∧ m' = m := by
  cases e with
  | ok y =>
    cases h
    exact ⟨rfl, rfl⟩
  | error v => cases h

theorem queueNumber_ok {address : Text} {format : NumberFormat} {x : Float}
    (h : (queueNumber address format x).run m = .ok u m') :
    m' = { m with
      writer := m.writer.queue (.once (.numeric (Numeric.single address format x))) } := by
  obtain ⟨n, m₁, h₁, h₂⟩ := run_bind_ok.mp h
  obtain ⟨hn, hm⟩ := demand_ok h₁
  cases h₂
  rw [hm, Numeric.new_ok hn]

def canned (m : Machine) (c : DrillCycle) : Machine :=
  { m with
    modal := ((m.modal.remove ModalGroup.cycle.name).set ModalGroup.cycle.name
      (.text (m.profile.code c.code))).remove ModalGroup.motion.name
    stats := { m.stats with cycles := m.stats.cycles + 1 }
    writer := { m.writer with pending := m.writer.pending ++ m.cannedWords c } }

theorem queueCanned_ok {c : DrillCycle} (hcoded : m.profile.Coded)
    (h : (queueCanned c).run m = .ok u m') : m' = m.canned c := by
  obtain ⟨_, _, h₁, h⟩ := run_bind_ok.mp h
  cases h₁
  obtain ⟨_, _, h₁, h⟩ := run_bind_ok.mp h
  rw [emitModal_run, if_neg (hcoded c.code)] at h₁
  cases h₁
  obtain ⟨_, _, h₁, h⟩ := run_bind_ok.mp h
  cases h₁
  obtain ⟨_, _, h₁, h⟩ := run_bind_ok.mp h
  cases h₁
  obtain ⟨_, _, h₁, h⟩ := run_bind_ok.mp h
  cases h₁
  obtain ⟨depth, _, h₁, h⟩ := run_bind_ok.mp h
  obtain ⟨hdepth, hm⟩ := demand_ok h₁
  cases hm
  obtain ⟨reference, _, h₁, h⟩ := run_bind_ok.mp h
  obtain ⟨hreference, hm⟩ := demand_ok h₁
  cases hm
  obtain ⟨_, _, h₁, h⟩ := run_bind_ok.mp h
  cases h₁
  obtain ⟨_, _, h₁, h⟩ := run_bind_ok.mp h
  cases h₁
  have hdepth := Numeric.new_ok hdepth
  have hreference := Numeric.new_ok hreference
  subst hdepth hreference
  by_cases hpeck : (c.isDeep && c.peck != 0) = true
  · rw [onlyIf, if_pos hpeck] at h
    have h := queueNumber_ok h
    rw [h]
    simp [canned, cannedWords, hpeck, selected, BlockWriter.queue, Memo.hasChanged, format,
      Profile.code]
  · rw [onlyIf, if_neg hpeck] at h
    cases h
    simp [canned, cannedWords, hpeck, selected, BlockWriter.queue, Memo.hasChanged, format,
      Profile.code]

def marked (m : Machine) (c : DrillCycle) (once : Bool) : Machine :=
  let vars := m.vars.set Variable.cycle (.cycle c)
  { m with
    vars := if once then vars.set Variable.cycleOnce
      (.flag true) else vars.remove Variable.cycleOnce }

/-- Whether the words of a cycle are queued: not when it is active already. -/
def announces (m : Machine) (c : DrillCycle) (once : Bool) : Bool :=
  m.vars.hasChanged Variable.cycle (.cycle c) || m.active .cycle = [] || once

def started (m : Machine) (c : DrillCycle) (once : Bool) : Machine :=
  if m.announces c once then (m.marked c once).canned c else m.marked c once

theorem startCanned_ok {c : DrillCycle} {once : Bool} (hcoded : m.profile.Coded)
    (h : (startCanned c once).run m = .ok u m') :
    (onlyIf once writeBlock).run (m.started c once) = .ok u m' := by
  have hmark : (markOnce once).run { m with vars := m.vars.set Variable.cycle (.cycle c) } =
      .ok () (m.marked c once) := by
    cases once <;> rfl
  obtain ⟨_, m₁, h₁, h₂⟩ := run_bind_ok.mp h
  cases h₁
  obtain ⟨_, m₁, h₁, h₃⟩ := run_bind_ok.mp h₂
  cases h₁
  obtain ⟨_, m₁, h₁, h₄⟩ := run_bind_ok.mp h₃
  cases hmark.symm.trans h₁
  obtain ⟨_, m₁, h₁, h₅⟩ := run_bind_ok.mp h₄
  have hm₁ : m₁ = m.started c once := by
    change (onlyIf (m.announces c once) (queueCanned c)).run (m.marked c once) = _ at h₁
    unfold started
    by_cases ha : m.announces c once = true
    · rw [if_pos ha]
      rw [onlyIf, if_pos ha] at h₁
      exact queueCanned_ok hcoded h₁
    · rw [if_neg ha]
      rw [onlyIf, if_neg ha] at h₁
      cases h₁
      rfl
  exact hm₁ ▸ h₅

def restated (m : Machine) : Machine :=
  if m.vars.flag Variable.restate false then
    { m with
      rack := ((m.rack.flag true (.register "X")).flag true (.register "Y")).flag true
        (.register "Z")
      vars := m.vars.remove Variable.restate }
  else m

theorem restatePosition_run : restatePosition.run m = .ok () m.restated := by
  simp only [restatePosition, EStateM.run_bind, EStateM.run_get, restated, onlyIf]
  split <;> rfl

variable {start : Point}

theorem followCircle_drilling {rapid arc : Bool} (ha : m.active .cycle ≠ [])
    (h : (followCircle start rapid).run m = .ok arc m') :
    arc = false ∧ ∃ circle log, m' = { m with circle, log } := by
  simp only [followCircle, EStateM.run_bind, EStateM.run_get] at h
  cases hc : m.circle with
  | none =>
    simp only [hc] at h
    cases h
    exact ⟨rfl, none, m.log, by rw [← hc]⟩
  | some c =>
    simp only [hc, ha, ne_eq, not_false_eq_true, decide_true, Bool.or_true, if_true] at h
    cases h
    exact ⟨rfl, none, _, rfl⟩

theorem emitStraight_drilling {rapid : Bool} (ha : m.active .cycle ≠ []) :
    (emitStraight rapid).run m = .ok () m := by
  simp only [emitStraight, EStateM.run_bind, EStateM.run_get, onlyIf, ha, decide_false,
    Bool.false_eq_true, if_false]
  rfl

theorem takePath_drilling {rapid : Bool} (ha : m.active .cycle ≠ [])
    (h : (takePath start rapid).run m = .ok u m') : m'.rack = m.rack := by
  obtain ⟨arc, m₁, h₁, h₂⟩ := run_bind_ok.mp h
  obtain ⟨rfl, circle, log, rfl⟩ := followCircle_drilling ha h₁
  obtain ⟨_, m₁, h₁, h₃⟩ := run_bind_ok.mp h₂
  cases (emitStraight_drilling (m := { m with circle, log }) ha).symm.trans h₁
  cases rapid <;> cases h₃ <;> rfl

theorem queueMotion_run (hcoded : m.profile.Coded) :
    (queueMotion start).run m = (takePath start m.restated.isRapid).run m.restated.adapted := by
  have hprofile : m.restated.profile = m.profile := by
    unfold restated
    split <;> rfl
  rw [queueMotion, EStateM.run_bind, restatePosition_run]
  change (adaptToCycle >>= fun _ => takePath start m.restated.isRapid).run m.restated = _
  rw [EStateM.run_bind, adaptToCycle_run (hprofile ▸ hcoded)]

theorem queueMotion_ok (hcoded : m.profile.Coded) (h : (queueMotion start).run m = .ok u m') :
    (takePath start m.restated.isRapid).run m.restated.adapted = .ok u m' :=
  (queueMotion_run hcoded).symm.trans h

theorem moveTo_canned {c : Command} (style : m.profile.cycleStyle = .code)
    (hne : c.numeric.isEmpty = false) (h : (moveTo c).run m = .ok u m') :
    ∃ m₁ m₂, Course AxisMay m m₁ ∧ (queueMotion m.position).run m₁ = .ok () m₂ ∧
      (∀ t, (m₂.writer.assemble m₂.rack true).1 = some t → (m₂.outlet.writeLine t).1 = none) ∧
      m' = m₂.wroteBlock := by
  obtain ⟨a₁, a₂, a₃, h₁, h₂, h₃, taken, hcall⟩ := moveTo_ok hne h
  have hc₁ := keepsTo_setCoordinates (p := m.profile) c m rfl () a₁ h₁
  have hc₂ := keepsTo_setToolAxis (p := a₁.profile) c a₁ rfl () a₂ h₂
  have hc₃ := keepsTo_queueMotion (p := a₂.profile) m.position a₂ rfl () a₃ h₃
  have hprofile : a₃.wroteBlock.profile = m.profile :=
    (Does.block a₃ taken).profile.trans (hc₃.profile.trans (hc₂.profile.trans hc₁.profile))
  refine ⟨a₂, a₃, hc₁.trans hc₂, h₃, taken, ?_⟩
  simp only [callRepeated, EStateM.run_bind, EStateM.run_get, hprofile, style] at hcall
  cases hcall
  rfl

end Machine
end Toolpath
