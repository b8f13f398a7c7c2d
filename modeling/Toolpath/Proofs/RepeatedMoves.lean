import Toolpath.Proofs.MoveTargets

/-!
# Repeated moves

A move that is made twice in a row writes nothing the second time. The first one leaves nothing
to write: its registers hold where it goes, its block takes all flags and queued words with it,
and the code of the motion is active. That holds also of a move that fails.
-/

namespace Toolpath

theorem Memo.hasChanged_set_text (m : Memo) (key t : Text) :
    (m.set key (.text t)).hasChanged key (.text t) = false := by
  simp [hasChanged, Value.same]

namespace Machine

open Registers (normalName)

variable {α β : Type} {p : Profile} {m m' : Machine} {c : Command} {a : Action α} {f : α → Action β}
  {r : Text} {y : α} {e : Stop} {ts : List (Text × Float)}

def left (a : Action α) (m : Machine) : Machine :=
  match a.run m with
  | .ok _ m' => m'
  | .error _ m' => m'

theorem left_ok (h : a.run m = .ok y m') : left a m = m' := by rw [left, h]

theorem left_error (h : a.run m = .error e m') : left a m = m' := by rw [left, h]

theorem left_bind_ok (h : a.run m = .ok y m') : left (a >>= f) m = left (f y) m' := by
  rw [left, EStateM.run_bind, h]
  rfl

theorem left_bind_error (h : a.run m = .error e m') : left (a >>= f) m = m' := by
  rw [left, EStateM.run_bind, h]

theorem writeBlock_nothing (h : m.writer.due m.rack = []) :
    writeBlock.run m = .ok () m.wroteBlock := by
  simp only [writeBlock, EStateM.run_bind, EStateM.run_get, EStateM.run_set, wroteBlock,
    BlockWriter.assemble_none h]
  rfl

/-- The machine with the code of a straight move active, if it has one and no cycle is. -/
def straightened (m : Machine) : Machine :=
  if m.active .cycle = [] ∧ m.profile.code .linear ≠ [] then
    m.selected ModalGroup.motion.name Function.linear.name
  else m

theorem emitStraight_run (m : Machine) :
    ∃ log, (emitStraight false).run m = .ok () { m.straightened with log } := by
  rw [straightened]
  by_cases hactive : m.active .cycle = []
  · rw [emitStraight, EStateM.run_bind, EStateM.run_get]
    dsimp only
    rw [onlyIf, if_pos (decide_eq_true hactive), if_neg Bool.false_ne_true, emitModal_run]
    by_cases hcode : m.profile.code .linear = []
    · rw [if_pos hcode, if_neg fun h => h.2 hcode]
      exact ⟨_, rfl⟩
    · rw [if_neg hcode, if_pos ⟨hactive, hcode⟩]
      exact ⟨_, rfl⟩
  · rw [if_neg fun h => hactive h.1]
    exact ⟨m.log, emitStraight_drilling hactive⟩

theorem takePath_straight (hcircle : m.circle = none) (start : Point) :
    ∃ stats log, (takePath start false).run m = .ok () { m.straightened with stats, log } := by
  obtain ⟨log, hstraight⟩ := emitStraight_run m
  refine ⟨{ m.straightened.stats with motions := m.straightened.stats.motions + 1 }, log, ?_⟩
  rw [takePath, EStateM.run_bind, followCircle_none hcircle]
  change (emitStraight false >>= _).run m = _
  rw [EStateM.run_bind, hstraight]
  rfl

theorem adaptToCycle_run_any (m : Machine) :
    ∃ writer log, (m.drillsOnce = false → writer = m.writer) ∧
    adaptToCycle.run m = .ok () { m.adapted with writer, log } := by
  rw [adaptToCycle, EStateM.run_bind, EStateM.run_get, adapted, drillsOnce]
  dsimp only
  by_cases hactive : m.active .cycle = []
  · rw [if_pos hactive, if_pos hactive]
    exact ⟨m.writer, m.log, fun _ => rfl, rfl⟩
  rw [if_neg hactive, if_neg hactive]
  cases honce : m.vars.flag Variable.cycleOnce false with
  | false => exact ⟨m.writer, m.log, fun _ => rfl, rfl⟩
  | true =>
    rw [if_pos rfl, if_pos rfl, EStateM.run_bind, emit_run]
    by_cases hcode : m.profile.code .cycleCancel = []
    · rw [if_pos hcode]
      exact ⟨m.writer, _, fun _ => rfl, rfl⟩
    · rw [if_neg hcode]
      exact ⟨_, m.log, fun h => absurd h (by simp [hactive]), rfl⟩

theorem restated_unchanged (h : m.vars.flag Variable.restate false = false) : m.restated = m := by
  rw [restated, h, if_neg Bool.false_ne_true]

theorem restated_drillsOnce (m : Machine) : m.restated.drillsOnce = m.drillsOnce := by
  have hne : Variable.cycleOnce ≠ Variable.restate := by decide
  have hflag : (m.vars.remove Variable.restate).flag Variable.cycleOnce false =
      m.vars.flag Variable.cycleOnce false := by
    simp [Memo.flag, hne]
  unfold restated
  split
  · exact congrArg (decide (m.active .cycle ≠ []) && ·) hflag
  · rfl

theorem restated_writer (m : Machine) : m.restated.writer = m.writer := by
  unfold restated
  split <;> rfl

theorem queueMotion_straight (hcircle : m.circle = none) (hrapid : m.isRapid = false)
    (start : Point) :
    ∃ writer stats log log', (m.drillsOnce = false → writer = m.writer) ∧
      (queueMotion start).run m = .ok ()
        { ({ m.restated.adapted with writer, log } : Machine).straightened with
          stats, log := log' } := by
  obtain ⟨-, hcircle', hrapid', -⟩ := restated_others m
  obtain ⟨writer, log, hwriter, hadapt⟩ := adaptToCycle_run_any m.restated
  have hnone : ({ m.restated.adapted with writer, log } : Machine).circle = none := by
    rw [(adapted_others m.restated).2, hcircle', hcircle]
  obtain ⟨stats, log', hpath⟩ := takePath_straight hnone start
  refine ⟨writer, stats, log, log', fun h => ?_, ?_⟩
  · rw [hwriter (m.restated_drillsOnce.trans h), restated_writer]
  · rw [queueMotion, EStateM.run_bind, restatePosition_run]
    change (adaptToCycle >>= fun _ => takePath start m.restated.isRapid).run m.restated = _
    rw [EStateM.run_bind, hadapt, hrapid', hrapid]
    exact hpath

/-- The code of a straight move is active, unless there is none or a cycle is active. -/
def Moving (m : Machine) : Prop :=
  m.active .cycle = [] → m.profile.code .linear ≠ [] →
    ∃ known : Memo, m.modal = known.set ModalGroup.motion.name (.text (m.profile.code .linear))

structure Aside (m m' : Machine) : Prop where
  profile : m'.profile = m.profile
  rack : m'.rack = m.rack
  vars : m'.vars = m.vars
  circle : m'.circle = m.circle
  cycle : m'.active .cycle = m.active .cycle

theorem straightened_aside (m : Machine) : Aside m m.straightened := by
  have hne : ModalGroup.cycle.name ≠ ModalGroup.motion.name := by decide
  unfold straightened
  split
  · refine ⟨rfl, rfl, rfl, rfl, ?_⟩
    simp [active, activeNamed, selected, Memo.text, hne]
  · exact ⟨rfl, rfl, rfl, rfl, rfl⟩

theorem moving_straightened (m : Machine) : m.straightened.Moving := by
  have haside := m.straightened_aside
  intro hidle hcode
  rw [haside.cycle] at hidle
  rw [haside.profile] at hcode ⊢
  rw [straightened, if_pos ⟨hidle, hcode⟩]
  exact ⟨m.modal, rfl⟩

theorem Moving.straightened (h : m.Moving) : m.straightened = m := by
  unfold Machine.straightened
  split
  case isTrue hstraight =>
    obtain ⟨known, hmodal⟩ := h hstraight.1 hstraight.2
    let code : Value := .text (m.profile.code .linear)
    have hset : m.modal.set ModalGroup.motion.name code = m.modal := by rw [hmodal, Memo.set_set]
    have hsame : m.modal.hasChanged ModalGroup.motion.name code = false := by
      rw [hmodal]
      exact known.hasChanged_set_text _ _
    calc m.selected ModalGroup.motion.name Function.linear.name
        = { m with
            modal := m.modal.set ModalGroup.motion.name code
            writer := if m.modal.hasChanged ModalGroup.motion.name code then _ else m.writer } :=
              rfl
      _ = m := by rw [hset, hsame, if_neg Bool.false_ne_true]
  case isFalse => rfl

/-! ## Machines that have arrived -/

/-- A straight move would add nothing to what waits to be written: the position is known, no
single hole is to be ended, and the code of the move is active. -/
structure Poised (m : Machine) : Prop where
  equipped : Equipped m
  circle : m.circle = none
  straight : m.isRapid = false
  located : m.vars.flag Variable.restate false = false
  repeated : m.drillsOnce = false
  moving : m.Moving
  uncalled : m.profile.cycleStyle = .call → m.vars.cycle? Variable.cycle = none

structure Arrived (m : Machine) : Prop extends Poised m where
  pending : m.writer.pending = []
  unflagged : ∀ r ∈ trackedNames, m.flagged r = false

structure Unmoved (m m' : Machine) : Prop where
  outlet : m'.outlet = m.outlet
  value : ∀ r, m'.value r = m.value r
  modal : m'.modal = m.modal
  vars : m'.vars = m.vars
  number : m'.writer.number = m.writer.number

theorem Unmoved.trans {m'' : Machine} (h : Unmoved m m') (h' : Unmoved m' m'') : Unmoved m m'' where
  outlet := h'.outlet.trans h.outlet
  value := fun r => (h'.value r).trans (h.value r)
  modal := h'.modal.trans h.modal
  vars := h'.vars.trans h.vars
  number := h'.number.trans h.number

theorem callRepeated_run (h : m.profile.cycleStyle = .call → m.vars.cycle? Variable.cycle = none) :
    callRepeated.run m = .ok () m := by
  rw [callRepeated, EStateM.run_bind, EStateM.run_get]
  dsimp only
  cases hstyle : m.profile.cycleStyle with
  | code => rfl
  | call =>
    rw [h hstyle]
    rfl

theorem due_eq_nil (hm : Equipped m) (hpending : m.writer.pending = [])
    (hflags : ∀ r ∈ trackedNames, m.flagged r = false) : m.writer.due m.rack = [] := by
  apply List.eq_nil_iff_forall_not_mem.mpr
  intro t ht
  obtain ⟨hmem, -⟩ := BlockWriter.mem_due.mp ht
  rw [hpending] at hmem
  obtain ⟨ref, href, horigin⟩ := BlockWriter.mem_tokens_origin hmem
  rw [hm.tracked] at href
  obtain ⟨r, hr, rfl⟩ := List.mem_map.mp href
  have hnone := BlockWriter.due_unflagged (r := r) hm.indexed (w := m.writer) (by simp [hpending])
    (fun n hn => by simpa [flagged, hn] using hflags r hr) t ht
  rw [Token.isOf, horigin] at hnone
  simp [Origin.isOf] at hnone

theorem wroteBlock_setup (m : Machine) :
    m.wroteBlock.profile = m.profile ∧ Alike m m.wroteBlock := by
  obtain ⟨-, h⟩ | ⟨-, number, counter, -, h⟩ := wroteBlock_cases m
  · rw [h]
    exact ⟨rfl, rfl, rfl, rfl⟩
  · rw [h]
    exact ⟨rfl, rfl, rfl, rfl⟩

theorem callRepeated_wroteBlock
    (h : m.profile.cycleStyle = .call → m.vars.cycle? Variable.cycle = none) :
    callRepeated.run m.wroteBlock = .ok () m.wroteBlock := by
  apply callRepeated_run
  rw [wroteBlock_vars, m.wroteBlock_setup.1]
  exact h

theorem left_travel {start : Point} {q : Machine} (hq : (queueMotion start).run m = .ok () q)
    (huncalled : q.profile.cycleStyle = .call → q.vars.cycle? Variable.cycle = none) :
    left (travel start) m = q.wroteBlock := by
  rw [travel, left_bind_ok hq]
  obtain hblock | ⟨f, hblock⟩ := q.writeBlock_end
  · rw [left_bind_ok hblock, left_ok (callRepeated_wroteBlock huncalled)]
  · rw [left_bind_error hblock]

theorem Equipped.wroteBlock (hm : Equipped m) : Equipped m.wroteBlock := by
  have hreads (r : Text) := BlockWriter.reads_due (r := r) hm.indexed m.writer
  refine ⟨?_, fun r hr => ?_, ?_, fun r hr => (wroteBlock_isModal hm.indexed).trans (hm.modal r hr)⟩
  · rw [wroteBlock_rack]
    exact (hreads []).indexed hm.indexed
  · obtain ⟨n, hn⟩ := hm.has r hr
    rw [wroteBlock_rack]
    obtain h | ⟨h, -⟩ := (hreads r).found n hn
    · exact ⟨_, h⟩
    · exact ⟨_, h⟩
  · exact m.wroteBlock_setup.2.tracked.trans hm.tracked

theorem wroteBlock_drillsOnce (m : Machine) : m.wroteBlock.drillsOnce = m.drillsOnce := by
  rw [drillsOnce, drillsOnce, active, active, activeNamed, activeNamed, wroteBlock_vars,
    wroteBlock_modal]

theorem adapted_drillsOnce (m : Machine) : m.adapted.drillsOnce = false := by
  unfold adapted
  split
  case isTrue hidle => simp [drillsOnce, hidle]
  case isFalse =>
    split
    case isTrue => simp [drillsOnce, cancelled, active, activeNamed, Memo.text]
    case isFalse honce => simp [drillsOnce, honce]

def passing : List Text := [Variable.restate, Variable.cycle, Variable.cycleOnce]

/-- Some of these variables are forgotten, and no other is changed. -/
def Forgets (keys : List Text) (vars vars' : Memo) : Prop :=
  ∀ key, vars'.get? key = vars.get? key ∨ key ∈ keys ∧ vars'.get? key = none

theorem Forgets.refl (keys : List Text) (vars : Memo) : Forgets keys vars vars := fun _ => .inl rfl

variable {keys : List Text} {key : Text} {vars vars' : Memo}

theorem Forgets.trans {vars vars' vars'' : Memo} (h : Forgets keys vars vars')
    (h' : Forgets keys vars' vars'') : Forgets keys vars vars'' := by
  intro key
  obtain hlast | hlast := h' key
  · rw [hlast]
    exact h key
  · exact .inr hlast

theorem forgets_remove (h : key ∈ keys) (vars : Memo) : Forgets keys vars (vars.remove key) := by
  intro k
  rw [Memo.get?_remove]
  split
  case isTrue hk => exact .inr ⟨hk ▸ h, rfl⟩
  case isFalse => exact .inl rfl

theorem restated_forgets (m : Machine) : Forgets passing m.vars m.restated.vars := by
  unfold restated
  split
  · exact forgets_remove (by decide) _
  · exact .refl _ _

theorem adapted_forgets (m : Machine) : Forgets passing m.vars m.adapted.vars := by
  unfold adapted
  split
  · exact .refl _ _
  split
  · exact (forgets_remove (by decide) _).trans (forgets_remove (by decide) _)
  · exact .refl _ _

theorem Forgets.flag (h : Forgets keys vars vars')
    (hflag : vars.flag key false = false) : vars'.flag key false = false := by
  obtain hsame | ⟨-, hnone⟩ := h key
  · rw [Memo.flag, hsame]
    exact hflag
  · rw [Memo.flag, hnone]

theorem Forgets.cycle? (h : Forgets keys vars vars')
    (hcycle : vars.cycle? key = none) : vars'.cycle? key = none := by
  obtain hsame | ⟨-, hnone⟩ := h key
  · rw [Memo.cycle?, hsame]
    exact hcycle
  · rw [Memo.cycle?, hnone]

theorem Forgets.get? (h : Forgets keys vars vars')
    (hkey : key ∉ keys) : vars'.get? key = vars.get? key :=
  (h key).resolve_right fun hforgotten => hkey hforgotten.1

theorem restated_located (m : Machine) : m.restated.vars.flag Variable.restate false = false := by
  unfold restated
  split
  case isTrue => simp [Memo.flag]
  case isFalse hlocated => exact Bool.eq_false_iff.mpr hlocated

theorem restated_value (hi : m.rack.registers.Indexed) (r : Text) :
    m.restated.value r = m.value r := by
  unfold restated
  split
  · let m₁ : Machine := { m with rack := m.rack.flag true (.register "X") }
    let m₂ : Machine := { m₁ with rack := m₁.rack.flag true (.register "Y") }
    have hi₁ : m₁.rack.registers.Indexed := (Does.flag m true "X").indexed hi
    have hi₂ : m₂.rack.registers.Indexed := (Does.flag m₁ true "Y").indexed hi₁
    calc value { m₂ with rack := m₂.rack.flag true (.register "Z") } r
        = m₂.value r := value_flag hi₂ true "Z" r
      _ = m₁.value r := value_flag hi₁ true "Y" r
      _ = m.value r := value_flag hi true "X" r
  · rfl

theorem adapted_value (hi : m.rack.registers.Indexed) (r : Text) :
    m.adapted.value r = m.value r := by
  unfold adapted
  split
  · rfl
  split
  · exact value_flag hi true "Z" r
  · exact value_flag hi false "Z" r

theorem Forgets.isRapid (h : Forgets keys m.vars m'.vars) (hm : m.isRapid = false) :
    m'.isRapid = false := by
  obtain hsame | ⟨-, hnone⟩ := h Variable.motion
  · rw [Machine.isRapid, Memo.text, hsame]
    exact hm
  · rw [Machine.isRapid, Memo.text, hnone]
    decide

theorem Poised.wroteBlock (hm : Poised m) : Arrived m.wroteBlock where
  equipped := hm.equipped.wroteBlock
  circle := m.wroteBlock_circle.trans hm.circle
  straight := by
    rw [isRapid, wroteBlock_vars]
    exact hm.straight
  located := by
    rw [wroteBlock_vars]
    exact hm.located
  repeated := m.wroteBlock_drillsOnce.trans hm.repeated
  moving := by
    unfold Moving active activeNamed
    rw [wroteBlock_modal, m.wroteBlock_setup.1]
    exact hm.moving
  uncalled := by
    rw [wroteBlock_vars, m.wroteBlock_setup.1]
    exact hm.uncalled
  pending := m.wroteBlock_pending
  unflagged := by
    intro r hr
    have htracked : .register r ∈ m.writer.tracked := by
      rw [hm.equipped.tracked]
      exact List.mem_map_of_mem hr
    rw [wroteBlock_flagged_eq hm.equipped.indexed htracked, hm.equipped.modal r hr, Bool.not_true,
      Bool.and_false]

theorem queueMotion_poised (hm : Equipped m) (hcircle : m.circle = none)
    (hrapid : m.isRapid = false)
    (huncalled : m.profile.cycleStyle = .call → m.vars.cycle? Variable.cycle = none)
    (start : Point) :
    ∃ q, (queueMotion start).run m = .ok () q ∧ Poised q ∧ (∀ r, q.value r = m.value r) ∧
      Forgets passing m.vars q.vars ∧ q.verbs = m.verbs := by
  obtain ⟨writer, stats, log, log', -, hq⟩ := queueMotion_straight hcircle hrapid start
  let a : Machine := { m.restated.adapted with writer, log }
  let q : Machine := { a.straightened with stats, log := log' }
  have hcourse := keepsTo_queueMotion start m rfl () q hq
  have haside : Aside m.restated.adapted q := { a.straightened_aside with }
  have hforgets : Forgets passing m.vars q.vars := by
    rw [haside.vars]
    exact m.restated_forgets.trans m.restated.adapted_forgets
  have hpoised : Poised q :=
    { equipped := hcourse.equipped hm
      circle := by
        rw [haside.circle, (adapted_others _).2, (restated_others m).2.1, hcircle]
      straight := hforgets.isRapid hrapid
      located := by
        rw [haside.vars]
        exact m.restated.adapted_forgets.flag m.restated_located
      repeated := by
        rw [drillsOnce, haside.vars, haside.cycle]
        exact m.restated.adapted_drillsOnce
      moving := a.moving_straightened
      uncalled := by
        rw [hcourse.profile]
        exact fun hstyle => hforgets.cycle? (huncalled hstyle) }
  have hindexed : m.restated.rack.registers.Indexed :=
    (keepsTo_restatePosition (p := m.profile) m rfl () m.restated restatePosition_run).equipped
      hm |>.indexed
  refine ⟨q, hq, hpoised, fun r => ?_, hforgets, hcourse.alike.verbs⟩
  rw [value, haside.rack, ← value, adapted_value hindexed, restated_value hm.indexed]

theorem adapted_eq (h : m.drillsOnce = false) : m.adapted = { m with rack := m.adapted.rack } := by
  unfold adapted
  split
  case isTrue => rfl
  case isFalse hactive =>
    split
    case isTrue honce => simp [drillsOnce, hactive, honce] at h
    case isFalse => rfl

theorem adapted_unflagged (hi : m.rack.registers.Indexed) (h : m.drillsOnce = false)
    (hr : m.flagged r = false) : m.adapted.flagged r = false := by
  unfold adapted
  split
  case isTrue => exact hr
  case isFalse hactive =>
    split
    case isTrue honce => simp [drillsOnce, hactive, honce] at h
    case isFalse =>
      unfold flagged
      rw [Rack.flag_register]
      by_cases hname : normalName r = normalName "Z"
      · rw [Registers.find?_modify_same hname, Option.map_map]
        cases m.rack.registers.find? r <;> rfl
      · rw [Registers.find?_modify_other hi hname]
        exact hr

theorem Arrived.travel (hm : Arrived m) (start : Point) :
    ∃ n, (travel start).run m = .ok () n ∧ Unmoved m n := by
  obtain ⟨writer, stats, log, log', hwriter, hq⟩ := queueMotion_straight hm.circle hm.straight start
  obtain ⟨q, hq', hpoised, hvalue, -, -⟩ :=
    queueMotion_poised hm.equipped hm.circle hm.straight hm.uncalled start
  let a : Machine := { m with rack := m.adapted.rack, log }
  have hmoving : a.straightened = a := Moving.straightened (m := a) hm.moving
  have hqueued : q = { m with rack := m.adapted.rack, stats, log := log' } := by
    rw [restated_unchanged hm.located, hwriter hm.repeated, adapted_eq hm.repeated] at hq
    have hsame : q = { a.straightened with stats, log := log' } :=
      (EStateM.Result.ok.inj (hq'.symm.trans hq)).2
    rw [hsame, hmoving]
  have hnone : q.writer.due q.rack = [] := by
    apply due_eq_nil hpoised.equipped
    · rw [hqueued]
      exact hm.pending
    · intro r hr
      rw [hqueued]
      exact adapted_unflagged hm.equipped.indexed hm.repeated (hm.unflagged r hr)
  have hblock : q.wroteBlock =
      { q with writer := { q.writer with pending := [] }, rack := q.writer.spent q.rack } := by
    rw [Machine.wroteBlock, BlockWriter.assemble_none hnone]
  refine ⟨q.wroteBlock, ?_, ?_, fun r => ?_, ?_, ?_, ?_⟩
  · rw [Machine.travel, EStateM.run_bind, hq']
    change (writeBlock >>= fun _ => callRepeated).run q = _
    rw [EStateM.run_bind, writeBlock_nothing hnone]
    exact callRepeated_wroteBlock hpoised.uncalled
  · rw [hblock, hqueued]
  · rw [(wroteBlock_value hpoised.equipped.indexed).1, hvalue]
  · rw [hblock, hqueued]
  · rw [hblock, hqueued]
  · rw [hblock, hqueued]

def Completes (a : Action α) (m : Machine) : Prop := ∃ y m', a.run m = .ok y m'

theorem Arrived.assigned (hm : Arrived m) (hnames : ∀ t ∈ ts, t.1 ∈ trackedNames)
    (h : m.Stands ts) :
    Arrived (m.assigned ts) := by
  have hsame := h.assigned hm.equipped hnames
  have hequipped := hm.equipped.assigned hnames
  have hflags : ∀ r ∈ trackedNames, (m.assigned ts).flagged r = false :=
    fun r hr => (hsame r).2.trans (hm.unflagged r hr)
  rw [assigned_eq] at hequipped hflags ⊢
  exact { hm with equipped := hequipped, unflagged := hflags }

theorem Stands.unmoved (hm : Equipped m) (hnames : ∀ t ∈ ts, t.1 ∈ trackedNames) (h : m.Stands ts) :
    Unmoved m (m.assigned ts) := by
  have hvalue (r : Text) := (h.assigned hm hnames r).1
  rw [assigned_eq] at hvalue ⊢
  exact ⟨rfl, hvalue, rfl, rfl, rfl⟩

/-- The registers hold where a move goes, and if it goes anywhere, the machine has arrived there. -/
structure AtTarget (c : Command) (m : Machine) : Prop where
  equipped : Equipped m
  stands : m.Stands (m.targets c)
  arrived : (∀ t ∈ m.targets c, Number.isFinite t.2 = true) → Arrived m

theorem atTarget_left (hm : Equipped m) (hcircle : m.circle = none) (hrapid : m.isRapid = false)
    (huncalled : m.profile.cycleStyle = .call → m.vars.cycle? Variable.cycle = none)
    (hne : c.numeric.isEmpty = false) :
    AtTarget c (left (moveTo c) m) ∧ (left (moveTo c) m).targets c = m.targets c ∧
      (left (moveTo c) m).verbs = m.verbs := by
  have hnames := m.targets_tracked c
  have hstands := assigned_stands hm hnames (m.targets_apart c)
  have hassigned := hm.assigned hnames
  have hmove : left (moveTo c) m = left (assign (m.targets c) >>= fun _ =>
      travel m.position) m := by
    rw [left, moveTo_run hm hne]
    rfl
  have heq := m.assigned_eq (m.targets c)
  rw [hmove]
  by_cases hfinite : ∀ t ∈ m.targets c, Number.isFinite t.2 = true
  · obtain ⟨q, hq, hpoised, hvalue, hforgets, hverbs⟩ :=
      queueMotion_poised hassigned (heq ▸ hcircle)
      (by rw [heq]; exact hrapid) (by rw [heq]; exact huncalled) m.position
    rw [left_bind_ok (assign_finite m hfinite), left_travel hq hpoised.uncalled]
    have hvalues (r : Text) : q.wroteBlock.value r = (m.assigned (m.targets c)).value r := by
      rw [(wroteBlock_value hpoised.equipped.indexed).1, hvalue]
    have hvars : q.wroteBlock.vars.flag Variable.multiAxis false =
        m.vars.flag Variable.multiAxis false := by
      rw [wroteBlock_vars, Memo.flag, hforgets.get? (by decide), heq]
      rfl
    have htargets := targets_again hm hvalues hvars
    refine ⟨⟨hpoised.equipped.wroteBlock, ?_, fun _ => hpoised.wroteBlock⟩, htargets, ?_⟩
    · rw [htargets]
      exact hstands.congr hvalues
    · rw [q.wroteBlock_setup.2.verbs, hverbs, heq]
  · obtain ⟨e, he⟩ := assign_infinite hm hnames hfinite
    rw [left_bind_error he]
    have htargets : (m.assigned (m.targets c)).targets c = m.targets c :=
      targets_again hm (fun _ => rfl) (by rw [heq])
    refine ⟨⟨hassigned, ?_, fun h => absurd (htargets ▸ h) hfinite⟩, htargets, ?_⟩
    · rw [htargets]
      exact hstands
    · rw [heq]

theorem AtTarget.again (h : AtTarget c m) (hne : c.numeric.isEmpty = false) :
    Unmoved m (left (moveTo c) m) ∧
      ((∀ t ∈ m.targets c, Number.isFinite t.2 = true) → Completes (moveTo c) m) := by
  have hnames := m.targets_tracked c
  have hstill := h.stands.unmoved h.equipped hnames
  by_cases hfinite : ∀ t ∈ m.targets c, Number.isFinite t.2 = true
  · obtain ⟨n, hn, hunmoved⟩ := ((h.arrived hfinite).assigned hnames h.stands).travel m.position
    have hrun : (moveTo c).run m = .ok () n := by
      rw [moveTo_run h.equipped hne, EStateM.run_bind, assign_finite m hfinite]
      exact hn
    rw [left_ok hrun]
    exact ⟨hstill.trans hunmoved, fun _ => ⟨(), n, hrun⟩⟩
  · obtain ⟨e, he⟩ := assign_infinite h.equipped hnames hfinite
    have hrun : (moveTo c).run m = .error e (m.assigned (m.targets c)) := by
      rw [moveTo_run h.equipped hne, EStateM.run_bind, he]
    rw [left_error hrun]
    exact ⟨hstill, fun h => absurd h hfinite⟩

theorem finite_of_completes (hm : Equipped m) (hne : c.numeric.isEmpty = false)
    (h : Completes (moveTo c) m) :
    ∀ t ∈ m.targets c, Number.isFinite t.2 = true := by
  by_contra hinfinite
  obtain ⟨e, he⟩ := assign_infinite hm (m.targets_tracked c) hinfinite
  obtain ⟨y, m', h⟩ := h
  rw [moveTo_run hm hne, EStateM.run_bind, he] at h
  cases h

theorem Equipped.booked (hm : Equipped m) (stats : Stats) (last : Command) (log : List Note) :
    Equipped { m with stats, last, log } :=
  { hm with }

theorem AtTarget.booked (h : AtTarget c m) (stats : Stats) (last : Command) (log : List Note) :
    AtTarget c { m with stats, last, log } where
  equipped := h.equipped.booked stats last log
  stands := Stands.congr (m := m) (fun _ => rfl) h.stands
  arrived := fun hfinite => { h.arrived hfinite with equipped := h.equipped.booked stats last log }

/-- A move that is made again, after nothing but what goes into the books, changes nothing; and
it comes to its end if the first one did. -/
theorem moveTo_again (hm : Equipped m) (hcircle : m.circle = none) (hrapid : m.isRapid = false)
    (huncalled : m.profile.cycleStyle = .call → m.vars.cycle? Variable.cycle = none) {n : Machine}
    {stats : Stats} {last : Command} {log : List Note}
    (hn : n = { left (moveTo c) m with stats, last, log }) :
    n.verbs = m.verbs ∧ Unmoved n (left (moveTo c) n) ∧
      (Completes (moveTo c) m → Completes (moveTo c) n) := by
  cases hempty : c.numeric.isEmpty with
  | true =>
    have hrun (m : Machine) : (moveTo c).run m = .ok () m := by
      rw [moveTo, hempty]
      rfl
    rw [left_ok (hrun m)] at hn
    rw [left_ok (hrun n)]
    exact ⟨by rw [hn], ⟨rfl, fun _ => rfl, rfl, rfl, rfl⟩, fun _ => ⟨(), n, hrun n⟩⟩
  | false =>
    obtain ⟨hthere, htargets, hverbs⟩ := atTarget_left hm hcircle hrapid huncalled hempty
    have hagain := (hthere.booked stats last log).again hempty
    rw [← hn] at hagain
    refine ⟨by rw [hn, hverbs], hagain.1, fun hfirst => hagain.2 ?_⟩
    have hsame : n.targets c = m.targets c := by
      rw [hn]
      exact htargets
    rw [hsame]
    exact finite_of_completes hm hempty hfirst

theorem left_dispatch {v : Verb} {c' : Command} (hv : m.verbs.resolve c = some (v, c')) :
    ∃ last, left (dispatch c) m = { left (perform v c') m.counted with last } := by
  rw [left, left, dispatch_run hv]
  cases (perform v c').run m.counted with
  | ok y a =>
    dsimp only
    split
    · exact ⟨a.last, rfl⟩
    · exact ⟨c', rfl⟩
  | error e a =>
    cases e with
    | failure f => exact ⟨a.last, rfl⟩
    | violation w => exact ⟨a.last, rfl⟩

theorem completes_dispatch {v : Verb} {c' : Command} (hv : m.verbs.resolve c = some (v, c')) :
    Completes (dispatch c) m ↔ Completes (perform v c') m.counted := by
  rw [Completes, Completes, dispatch_run hv]
  cases (perform v c').run m.counted with
  | ok y a => exact ⟨fun _ => ⟨y, a, rfl⟩, fun _ => ⟨(), _, rfl⟩⟩
  | error e a =>
    refine ⟨fun ⟨y, m', h⟩ => ?_, fun ⟨y, m', h⟩ => nomatch h⟩
    cases e with
    | failure f => cases h
    | violation w => cases h

/-- A move that is dispatched twice in a row writes nothing the second time, from every
reachable state in which all usual registers are modal, motion is straight, no circle is
announced and no cycle is called at every position. What the first one leaves, all registers,
active codes, variables and the next block number, stays, also when it failed; and when it came
to its end, so does the second one. -/
theorem repeated_move_writes_nothing {m₀ : Machine} {steps : List (Command × Machine)}
    {c' : Command} {notes notes' : List Note} (hopens : Opens p m₀)
    (hmodal : ∀ r ∈ trackedNames, m₀.isModal r = true) (hrun : Leads m₀ steps)
    (hm : m = (final m₀ steps).addNotes notes) (hgoto : m.verbs.resolve c = some (.goto, c'))
    (hstraight : m.isRapid = false) (hcircle : m.circle = none)
    (huncalled : m.profile.cycleStyle = .call → m.vars.cycle? Variable.cycle = none)
    (hm' : m' = (left (dispatch c) m).addNotes notes') :
    (left (dispatch c) m').outlet = m'.outlet ∧ (∀ r, (left (dispatch c) m').value r = m'.value r) ∧
      (left (dispatch c) m').modal = m'.modal ∧ (left (dispatch c) m').vars = m'.vars ∧
      (left (dispatch c) m').writer.nextNumber = m'.writer.nextNumber ∧
      (Completes (dispatch c) m → Completes (dispatch c) m') := by
  have hequipped : Equipped m.counted := by
    rw [hm]
    exact (hrun.equipped (hopens.equipped hmodal)).booked _ _ _
  obtain ⟨last, hfirst⟩ := left_dispatch hgoto
  have hcounted : m'.counted =
      { left (moveTo c') m.counted with
        stats := m'.counted.stats, last := m'.counted.last, log := m'.log } := by
    rw [hm', hfirst]
    rfl
  obtain ⟨hverbs, hstill, hends⟩ := moveTo_again hequipped hcircle hstraight huncalled hcounted
  have hgoto' : m'.verbs.resolve c = some (.goto, c') := (congrArg (·.resolve c) hverbs).trans hgoto
  obtain ⟨last', hsecond⟩ := left_dispatch hgoto'
  rw [hsecond, completes_dispatch hgoto, completes_dispatch hgoto']
  refine ⟨hstill.outlet, hstill.value, hstill.modal, hstill.vars, ?_, hends⟩
  exact congrArg Counter.value hstill.number

set_option maxRecDepth 100000 in
/-- A move with a tool axis, away from a single hole. -/
theorem repeated_move_writes_nothing_off_hole :
    ∃ (m₀ m : Machine) (steps : List (Command × Machine)) (c : Command),
    Opens { cycleStyle := .code } m₀ ∧ (∀ r ∈ trackedNames, m₀.isModal r = true) ∧ Leads m₀ steps ∧
      m = final m₀ steps ∧ steps.map Prod.fst = [{ major := "multax", minor := ["on"] },
        { major := "cycle81", numeric := [10, 0, 2, -5] }] ∧
      c = { major := "goto", numeric := [1, 2, 3, 0, 0, 1] } ∧
      m.vars.flag Variable.multiAxis false = true ∧ m.drillsOnce = true ∧
      (left (dispatch c) m).outlet.lines.length = m.outlet.lines.length + 1 ∧
      (left (dispatch c) (left (dispatch c) m)).outlet = (left (dispatch c) m).outlet := by
  let p : Profile := { cycleStyle := .code }
  let cs : List Command :=
    [{ major := "multax", minor := ["on"] }, { major := "cycle81", numeric := [10, 0, 2, -5] }]
  let c : Command := { major := "goto", numeric := [1, 2, 3, 0, 0, 1] }
  let check (m₀ : Machine) (steps : List (Command × Machine)) (m' : Machine) : Bool :=
    let m := final m₀ steps
    decide (∀ r ∈ trackedNames, m₀.isModal r = true) && !m.isRapid && m.circle.isNone &&
      m.vars.flag Variable.multiAxis false && m.drillsOnce &&
      decide ((left (dispatch c) m).outlet.lines.length = m.outlet.lines.length + 1)
  have hcheck : rehearse p cs c check = true := by decide +kernel
  obtain ⟨m₀, steps, m', hopens, hrun, hcs, -, hcheck⟩ := exists_of_rehearse hcheck
  simp only [check, Bool.and_eq_true, decide_eq_true_eq, Bool.not_eq_true',
    Option.isNone_iff_eq_none] at hcheck
  obtain ⟨⟨⟨⟨⟨hmodal, hstraight⟩, hcircle⟩, haxes⟩, honce⟩, hline⟩ := hcheck
  have hverbs : (final m₀ steps).verbs = .standard :=
    hrun.kept (P := fun a => a.verbs = .standard)
      (fun _ _ _ ha hab => hab.course.alike.verbs.trans ha) hopens.fresh.verbs
  have hgoto : (final m₀ steps).verbs.resolve c = some (.goto, c) := by
    have hfound : Verbs.standard.find? "goto" = some .goto := by decide
    simp only [hverbs, Verbs.resolve, c, hfound]
  have hstyle : (final m₀ steps).profile.cycleStyle = .code := by
    rw [(hrun.ready hopens.ready).profile]
  have hnoted (a : Machine) : a = a.addNotes [] := rfl
  have hstill := repeated_move_writes_nothing hopens hmodal hrun (hnoted _) hgoto hstraight hcircle
    (fun hcall => absurd (hstyle.symm.trans hcall) (by decide)) (hnoted _)
  exact ⟨m₀, _, steps, c, hopens, hmodal, hrun, rfl, hcs, rfl, haxes, honce, hline, hstill.1⟩

end Machine
end Toolpath
