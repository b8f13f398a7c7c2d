import Toolpath.Proofs.CheckedMotions
import Toolpath.Proofs.QueuedWords

/-!
# The numbers of a command

The numbers that are checked when a command is carried out are given, are the angles of the
rotary axes, or are computed: what an arc is written with, the height a canned cycle starts
from, and a dwell in revolutions. All are checked before anything is written, so a command
breaks a contract exactly when one of them is not finite.
-/

namespace Toolpath

open Registers (normalName)

namespace DrillCycle

def depths (c : DrillCycle) : List Float := c.dp :: if c.isDeep && c.peck != 0 then [c.peck] else []

def reference (c : DrillCycle) : Float := c.rfp + c.sdis

end DrillCycle

namespace Machine

variable {N : Float → Prop} {α β : Type} {m m' : Machine} {c : Command} {v : Verb}

def cycleOf? (m : Machine) (v : Verb) (c : Command) : Option (DrillCycle × Bool) :=
  match v with
  | .drillHere => if c.numeric.isEmpty then none else some (.plain c, true)
  | .deepDrillHere => if c.numeric.isEmpty then none else some (.deep c, true)
  | .cycle => (m.repeats? c).map (·, false)
  | _ => none

def cannedOf? (m : Machine) (v : Verb) (c : Command) : Option DrillCycle :=
  (m.cycleOf? v c).bind fun (d, once) =>
    if m.profile.cycleStyle = .code && m.announces d once then some d else none

def cycleFeed (c : Command) : List Float :=
  if c.hasMinor ["off"] then []
  else if c.hasMinor ["drill"] then c.numeric[2]?.toList
  else if c.hasMinor ["deep"] then c.numeric[3]?.toList
  else []

def speedAfter (m : Machine) (c : Command) : Float :=
  match c.numeric with
  | [] => m.vars.float Variable.spindleSpeed 0
  | speed :: rest =>
    if c.hasMinor ["maxrpm"] && rest.isEmpty then m.vars.float Variable.spindleSpeed 0 else speed

def SpindleState.follow (state : SpindleState) (word : Text) : SpindleState :=
  if [Text.ofString "clw", "clockwise"].contains word then .clockwise
  else if [Text.ofString "cclw", "ccw"].contains word then .counter
  else if [Text.ofString "orient"].contains word then .orient
  else if [Text.ofString "off"].contains word then .off
  else state

def spindleAfter (m : Machine) (c : Command) : SpindleState :=
  c.minor.foldl SpindleState.follow (.named (m.vars.text Variable.spindleDirection "clw"))

/-- The numbers that a command gives, or that the machine holds already. -/
def given (m : Machine) (v : Verb) (c : Command) : List Float :=
  match v with
  | .feed => c.numeric.head?.toList
  | .spindle => if (m.spindleAfter c).turns && 0 < m.speedAfter c then [m.speedAfter c] else []
  | .selectTool => c.numeric.head?.toList.map Number.round
  | .delay => if c.hasMinor ["rev"] then [] else c.numeric.head?.toList.map Number.abs
  | .cycle => cycleFeed c ++ (m.cannedOf? v c).elim [] DrillCycle.depths
  | .drillHere | .deepDrillHere => (m.cannedOf? v c).elim [] DrillCycle.depths
  | _ => if m.movesBy v c then (m.target c).coordinates else []

def computed (m : Machine) (v : Verb) (c : Command) : List Float :=
  match v with
  | .delay =>
    if c.hasMinor ["rev"] then
      c.numeric.head?.toList.map fun amount =>
        dwellSeconds c amount (m.vars.float Variable.spindleSpeed 0)
    else []
  | .cycle | .drillHere | .deepDrillHere => (m.cannedOf? v c).elim [] fun d => [d.reference]
  | _ =>
    if m.movesBy v c then
      m.pathNumbers (isRapid { m with vars := announced v m.vars } || m.drills) m.position
        (m.target c)
    else []

def handed (m : Machine) (v : Verb) (c : Command) : List Float :=
  m.given v c ++ (if m.movesBy v c then m.axisAngles c else []) ++ m.computed v c

theorem announced_intact (hm : m.Intact N) (v : Verb) :
    Intact N { m with vars := announced v m.vars } := by
  refine { hm with vars := ?_ }
  cases v with
  | rapid => exact hm.vars.set (by decide) (by decide)
  | start => exact (hm.vars.set (by decide) (by decide)).set (by decide) (by decide)
  | _ => exact hm.vars

theorem announced_get? (v : Verb) (vars : Memo) {key : Text} (hmotion : key ≠ Variable.motion)
    (hrestate : key ≠ Variable.restate) : (announced v vars).get? key = vars.get? key := by
  cases v with
  | rapid => rw [announced, Memo.get?_set, if_neg hmotion]
  | start => rw [announced, Memo.get?_set, if_neg hmotion, Memo.get?_set, if_neg hrestate]
  | _ => rfl

theorem announced_drills (m : Machine) (v : Verb) :
    drills { m with vars := announced v m.vars } = m.drills := by
  have honce := announced_get? v m.vars
    (show Variable.cycleOnce ≠ Variable.motion by decide) (by decide)
  simp only [drills, Memo.flag, honce]
  rfl

theorem announced_axisAngles (m : Machine) (v : Verb) (c : Command) :
    axisAngles { m with vars := announced v m.vars } c = m.axisAngles c := by
  have haxes := announced_get? v m.vars
    (show Variable.multiAxis ≠ Variable.motion by decide) (by decide)
  simp only [axisAngles, Memo.flag, haxes]

theorem announced_pathNumbers (m : Machine) (v : Verb) (straight : Bool) (start stop : Point) :
    pathNumbers { m with vars := announced v m.vars } straight start stop =
      m.pathNumbers straight start stop := by
  have hplane := announced_get? v m.vars
    (show Variable.plane ≠ Variable.motion by decide) (by decide)
  simp only [pathNumbers, Memo.text, hplane]

theorem handed_moving (h : m.movesBy v c = true) :
    m.handed v c = (m.target c).coordinates ++ m.axisAngles c ++
      m.pathNumbers (isRapid { m with vars := announced v m.vars } || m.drills) m.position
        (m.target c) := by
  cases v with
  | goto | rapid | start | continuation => simp only [handed, given, computed, h, if_true]
  | _ => simp [movesBy, Verb.moves] at h

theorem checks_moving (hm : m.Intact N) (hc : ∀ x ∈ c.numeric, N x) (h : m.movesBy v c = true) :
    Checks (Intact N) (m.handed v c) (perform v c) m := by
  have hmove := checks_moveTo (announced_intact hm v) hc (numeric_of_movesBy h)
  rw [announced_drills, announced_axisAngles, announced_pathNumbers, ← List.append_assoc] at hmove
  rw [handed_moving h]
  unfold Checks
  rw [perform_moving h]
  exact hmove

theorem safe_moveTo (hne : c.numeric.isEmpty = true) : Safe (Intact N) (moveTo c) := by
  rw [moveTo, if_pos hne]
  exact safe_pure ()

theorem handed_still (hv : v.moves = true) (h : m.movesBy v c = false) : m.handed v c = [] := by
  cases v with
  | goto | rapid | start | continuation => simp [handed, given, computed, h]
  | _ => cases hv

theorem checks_still (hm : m.Intact N) (hv : v.moves = true) (h : m.movesBy v c = false) :
    Checks (Intact N) (m.handed v c) (perform v c) m := by
  have hempty (hrow : v ≠ .continuation) : c.numeric.isEmpty = true := by
    simpa [movesBy, hv, hrow] using h
  rw [handed_still hv h]
  cases v with
  | goto => exact safe_moveTo (hempty (by decide)) m hm
  | rapid =>
    exact safe_bind (safe_setVariable (by decide) (by decide))
      (fun _ => safe_moveTo (hempty (by decide))) m hm
  | start =>
    simp only [perform, moveToStart, hempty (by decide), if_true]
    exact checks_pure hm ()
  | continuation =>
    refine checks_get ?_
    dsimp only
    split
    case isTrue hlast =>
      cases hne : c.numeric.isEmpty with
      | true => exact safe_moveTo hne m hm
      | false =>
        simp only [Bool.or_eq_true, decide_eq_true_eq] at hlast
        simp [movesBy, hv, hne] at h
        exact absurd hlast (not_or.mpr h)
    case isFalse => exact safe_note _ _ _ m hm
  | _ => cases hv

theorem checks_queueCanned (hm : m.Intact N) (c : DrillCycle) :
    Checks (Intact N) (c.depths ++ [c.reference]) (queueCanned c) m := by
  have h₁ := (safe_forget .cycle m hm).kept rfl
  have h₂ := h₁.selected ModalGroup.cycle.name c.code.name
  have h₃ := (safe_forget .motion _ h₂).kept rfl
  have h₄ := (safe_count (fun s => { s with cycles := s.cycles + 1 }) _ h₃).kept rfl
  have hmodal :=
    emitModal_run { m with modal := m.modal.remove ModalGroup.cycle.name } .cycle c.code
  rw [if_neg (hm.coded c.code)] at hmodal
  refine checks_after (x := ()) rfl (checks_after hmodal (checks_after (x := ()) rfl
    (checks_after (x := ()) rfl (checks_get ?_))))
  have horder : SameFaults
      ([c.dp] ++ ([c.reference] ++ if c.isDeep && c.peck != 0 then [c.peck] else []))
      (c.depths ++ [c.reference]) := by
    intro x _
    simp only [DrillCycle.depths, List.cons_append, List.nil_append, List.mem_cons, List.mem_append]
    tauto
  refine Checks.congr ?_ horder
  refine (guards_demand h₄ _ _ _).bind fun hdp => (guards_demand h₄ _ _ _).bind fun hreference => ?_
  have h₅ := h₄.queueing (hdp _ List.mem_cons_self) "Z" (m.format "Z")
  have h₆ := h₅.queueing (hreference _ List.mem_cons_self) "R" (m.format "Z")
  refine checks_after (x := ()) rfl (checks_after (x := ()) rfl ?_)
  unfold onlyIf
  split
  · exact (guards_queueNumber h₆ _ _ _).checks fun hpeck =>
      h₆.queueing (hpeck _ List.mem_cons_self) _ _
  · exact checks_pure h₆ ()

def cannedNumbers (m : Machine) (c : DrillCycle) (once : Bool) : List Float :=
  if m.profile.cycleStyle = .code && m.announces c once then c.depths ++ [c.reference] else []

theorem Intact.marked (hm : m.Intact N) {c : DrillCycle} (hname : c.name ≠ []) (once : Bool) :
    (m.marked c once).Intact N := by
  refine { hm with vars := ?_ }
  have hvars := hm.vars.setCycle hname
  cases once with
  | true => exact hvars.set (by decide) (by decide)
  | false => exact hvars.remove (by decide)

theorem checks_startCycle (hm : m.Intact N) {c : DrillCycle} (hname : c.name ≠ []) (once : Bool) :
    Checks (Intact N) (m.cannedNumbers c once) (startCycle c once) m := by
  refine checks_get ?_
  unfold cannedNumbers
  cases hs : m.profile.cycleStyle with
  | call =>
    cases once with
    | true => exact safe_callCycle hname _ m hm
    | false => exact ⟨allFinite_nil, { hm with vars := hm.vars.setCycle hname }⟩
  | code =>
    have hmark : (markOnce once).run { m with vars := m.vars.set Variable.cycle (.cycle c) } =
        .ok () (m.marked c once) := by
      cases once <;> rfl
    have hmarked := hm.marked hname once
    refine checks_get (checks_after (x := ()) rfl (checks_after hmark ?_))
    change Checks _ _ (onlyIf (m.announces c once) (queueCanned c) >>= fun _ =>
      onlyIf once writeBlock) _
    refine Checks.bind ?_ fun _ => safe_onlyIf safe_writeBlock
    unfold onlyIf
    cases m.announces c once with
    | true => exact checks_queueCanned hmarked c
    | false => exact checks_pure hmarked ()

theorem safe_cancelCycle : Safe (Intact N) cancelCycle := by
  refine safe_get fun m hm => ?_
  cases m.profile.cycleStyle with
  | call =>
    refine Checks.bind (safe_removeVariable ?_ m hm) fun _ => safe_modify fun _ h => { h with }
    decide
  | code =>
    have hclear : Safe (Intact N) clearCycle :=
      safe_bind (safe_forget _) fun _ => safe_bind (safe_forget _) fun _ =>
        safe_bind (safe_removeVariable (by decide)) fun _ => safe_removeVariable (by decide)
    refine safe_ite (safe_pure ()) (safe_bind (safe_emit _) fun _ =>
      safe_bind hclear fun _ => ?_) m hm
    exact safe_bind (safe_setVariable (by decide) (by decide)) fun _ => safe_writeBlock

variable {d : DrillCycle}

theorem cannedOf?_numbers {once : Bool} (h : m.cycleOf? v c = some (d, once)) :
    (m.cannedOf? v c).elim [] DrillCycle.depths ++
      ((m.cannedOf? v c).elim [] fun d => [d.reference]) = m.cannedNumbers d once := by
  simp only [cannedOf?, h, Option.bind_some, cannedNumbers]
  split <;> rfl

theorem checks_drillHere (hm : m.Intact N) (hv : v ∈ [Verb.drillHere, .deepDrillHere])
    (hname : d.name ≠ [])
    (hd : m.cycleOf? v c = if c.numeric.isEmpty then none else some (d, true)) :
    Checks (Intact N) (m.handed v c) (drillHere c d) m := by
  have hhanded : m.handed v c = (m.cannedOf? v c).elim [] DrillCycle.depths ++
      (m.cannedOf? v c).elim [] fun d => [d.reference] := by
    simp only [List.mem_cons, List.not_mem_nil, or_false] at hv
    rcases hv with rfl | rfl <;> simp [handed, given, computed, movesBy, Verb.moves]
  unfold drillHere
  split at hd
  case isTrue hempty =>
    have hnone : m.handed v c = [] := by simp [hhanded, cannedOf?, hd]
    rw [if_pos hempty, hnone]
    exact checks_pure hm ()
  case isFalse hempty =>
    rw [if_neg hempty, hhanded, cannedOf?_numbers hd]
    exact checks_startCycle hm hname true

theorem checks_repeated (hm : m.Intact N) (hname : d.name ≠ []) (i : Nat) :
    Checks (Intact N) (c.numeric[i]?.toList ++ m.cannedNumbers d false)
      (do setCycleFeed c i; startCycle d false) m := by
  unfold setCycleFeed
  cases c.numeric[i]? with
  | none => exact checks_after (x := ()) rfl (checks_startCycle hm hname false)
  | some x =>
    have hF : Text.ofString "F" ∈ apartNames := by decide
    refine (guards_apart hm hF x).bind fun hx => ?_
    exact checks_startCycle (hm.holding_apart hF (hx _ List.mem_cons_self)) hname false

theorem checks_repeatCycle (hm : m.Intact N) (c : Command) :
    Checks (Intact N) (m.handed .cycle c) (repeatCycle c) m := by
  have hhanded : m.handed .cycle c = cycleFeed c ++
      ((m.cannedOf? .cycle c).elim [] DrillCycle.depths ++
      (m.cannedOf? .cycle c).elim [] fun d => [d.reference]) := by
    simp [handed, given, computed, movesBy, Verb.moves]
  have hnone (h : m.repeats? c = none) (hfeed : cycleFeed c = []) : m.handed .cycle c = [] := by
    simp [hhanded, hfeed, cannedOf?, cycleOf?, h]
  have hsome {d : DrillCycle} (h : m.repeats? c = some d) :
      m.handed .cycle c = cycleFeed c ++ m.cannedNumbers d false := by
    have hcycle : m.cycleOf? .cycle c = some (d, false) := by simp [cycleOf?, h]
    rw [hhanded, cannedOf?_numbers hcycle]
  refine checks_get ?_
  dsimp only
  by_cases hoff : c.hasMinor ["off"] = true
  · rw [if_pos hoff, hnone (by simp [repeats?, hoff]) (by simp [cycleFeed, hoff])]
    exact safe_cancelCycle m hm
  rw [if_neg hoff]
  by_cases hdrill : c.hasMinor ["drill"] = true
  · have hfeed : cycleFeed c = c.numeric[2]?.toList := by simp [cycleFeed, hoff, hdrill]
    have hcycle : m.repeats? c = some (.shortPlain c (m.value "Z")) := by
      simp [repeats?, hoff, hdrill]
    rw [if_pos hdrill, hsome hcycle, hfeed]
    exact checks_repeated hm (show DrillCycle.plainName ≠ [] by decide) 2
  rw [if_neg hdrill]
  by_cases hdeep : c.hasMinor ["deep"] = true
  · have hfeed : cycleFeed c = c.numeric[3]?.toList := by simp [cycleFeed, hoff, hdrill, hdeep]
    have hcycle : m.repeats? c = some (.shortDeep c (m.value "Z")) := by
      simp [repeats?, hoff, hdrill, hdeep]
    rw [if_pos hdeep, hsome hcycle, hfeed]
    exact checks_repeated hm (show DrillCycle.deepName ≠ [] by decide) 3
  · rw [if_neg hdeep, hnone (by simp [repeats?, hoff, hdrill, hdeep])
      (by simp [cycleFeed, hoff, hdrill, hdeep])]
    exact safe_note _ _ _ m hm

theorem setSpeeds_spec (hm : m.Intact N) (hc : ∀ x ∈ c.numeric, N x) :
    ∃ vars, (setSpeeds c).run m = .ok () { m with vars } ∧ vars.Intact N ∧
      vars.float Variable.spindleSpeed 0 = m.speedAfter c ∧
      vars.get? Variable.spindleDirection = m.vars.get? Variable.spindleDirection := by
  have hlimit : Variable.spindleSpeed ≠ Variable.speedLimit := by decide
  have hdirection : Variable.spindleDirection ≠ Variable.spindleSpeed := by decide
  have hdirection' : Variable.spindleDirection ≠ Variable.speedLimit := by decide
  unfold setSpeeds speedAfter
  cases hnumeric : c.numeric with
  | nil => exact ⟨m.vars, rfl, hm.vars, rfl, rfl⟩
  | cons speed rest =>
    have hspeed : N speed := hc speed (by simp [hnumeric])
    dsimp only
    by_cases hmax : c.hasMinor ["maxrpm"] = true
    · have hvars := hm.vars.set (v := .float (rest.getLastD speed)) (by decide) hlimit.symm
      rw [if_pos hmax]
      cases rest with
      | nil => exact ⟨_, rfl, hvars, by simp [hmax, Memo.float, hlimit], by simp [hdirection']⟩
      | cons limit rest =>
        refine ⟨_, rfl, hvars.setSpeed hspeed, by simp [Memo.float], ?_⟩
        simp [hdirection, hdirection']
    · rw [if_neg hmax]
      exact ⟨_, rfl, hm.vars.setSpeed hspeed, by simp [hmax, Memo.float], by simp [hdirection]⟩

theorem spindleWord_spec (hm : m.Intact N) (state : SpindleState) (word : Text) :
    ∃ vars, (spindleWord state word).run m = .ok (state.follow word) { m with vars } ∧
      vars.Intact N ∧ vars.get? Variable.spindleSpeed = m.vars.get? Variable.spindleSpeed := by
  have hdirection : Variable.spindleSpeed ≠ Variable.spindleDirection := by decide
  have hmode : Variable.spindleSpeed ≠ Variable.spindleMode := by decide
  unfold spindleWord SpindleState.follow
  dsimp only
  split
  · exact ⟨_, rfl, hm.vars.set (by decide) hdirection.symm, by simp [hdirection]⟩
  split
  · exact ⟨_, rfl, hm.vars.set (by decide) hdirection.symm, by simp [hdirection]⟩
  split
  · exact ⟨_, rfl, hm.vars, rfl⟩
  split
  · exact ⟨_, rfl, hm.vars, rfl⟩
  unfold onlyIf
  split
  · exact ⟨_, rfl, hm.vars.set (by decide) hmode.symm, by simp [hmode]⟩
  · exact ⟨_, rfl, hm.vars, rfl⟩

theorem spindleWords_spec (hm : m.Intact N) (words : List Text) (state : SpindleState) :
    ∃ vars, (words.foldlM spindleWord state).run m = .ok (words.foldl SpindleState.follow state)
        { m with vars } ∧ vars.Intact N ∧
      vars.get? Variable.spindleSpeed = m.vars.get? Variable.spindleSpeed := by
  induction words generalizing m state with
  | nil => exact ⟨m.vars, rfl, hm.vars, rfl⟩
  | cons word words ih =>
    obtain ⟨vars, hrun, hvars, hspeed⟩ := spindleWord_spec hm state word
    obtain ⟨vars', hrun', hvars', hspeed'⟩ :=
      ih (m := { m with vars }) { hm with vars := hvars } (state.follow word)
    refine ⟨vars', ?_, hvars', hspeed'.trans hspeed⟩
    rw [List.foldlM_cons, List.foldl_cons, EStateM.run_bind, hrun]
    exact hrun'

theorem checks_runSpindle (hm : m.Intact N) (hc : ∀ x ∈ c.numeric, N x) :
    Checks (Intact N) (m.handed .spindle c) (runSpindle c) m := by
  have hhanded : m.handed .spindle c =
      if (m.spindleAfter c).turns && 0 < m.speedAfter c then [m.speedAfter c] else [] := by
    simp [handed, given, computed, movesBy, Verb.moves]
  obtain ⟨vars, hspeeds, hvars, hspeed, hdirection⟩ := setSpeeds_spec hm hc
  have h₁ : Intact N { m with vars } := { hm with vars := hvars }
  obtain ⟨vars', hwords, hvars', hspeed'⟩ := spindleWords_spec h₁ c.minor
    (.named (vars.text Variable.spindleDirection "clw"))
  have hstate : c.minor.foldl SpindleState.follow
      (.named (vars.text Variable.spindleDirection "clw")) = m.spindleAfter c := by
    simp only [spindleAfter, Memo.text, hdirection]
  have hfloat : vars'.float Variable.spindleSpeed 0 = m.speedAfter c := by
    rw [← hspeed]
    simp only [Memo.float, hspeed']
  have h₂ : Intact N { m with vars := vars' } := { hm with vars := hvars' }
  have h₃ := h₂.selected ModalGroup.spindle.name (m.spindleAfter c).code.name
  have hmodal := emitModal_run { m with vars := vars' } .spindle (m.spindleAfter c).code
  rw [if_neg (hm.coded _)] at hmodal
  rw [hstate] at hwords
  rw [hhanded]
  refine checks_after hspeeds
    (checks_get (checks_after hwords (checks_after hmodal (checks_get ?_))))
  change Checks _ _ (onlyIf ((m.spindleAfter c).turns && 0 < vars'.float Variable.spindleSpeed 0)
    (setRegister "S" (vars'.float Variable.spindleSpeed 0)) >>= fun _ => writeBlock) _
  rw [hfloat]
  refine Checks.bind ?_ fun _ => safe_writeBlock
  unfold onlyIf
  split
  · exact checks_apart h₃ (by decide) _
  · exact checks_pure h₃ ()

theorem checks_dwell (hm : m.Intact N) (c : Command) :
    Checks (Intact N) (m.handed .delay c) (dwell c) m := by
  have hhanded : m.handed .delay c = c.numeric.head?.toList.map fun amount =>
      dwellSeconds c amount (m.vars.float Variable.spindleSpeed 0) := by
    by_cases hrev : c.hasMinor ["rev"] = true <;>
      simp [handed, given, computed, movesBy, Verb.moves, hrev, dwellSeconds]
  rw [hhanded]
  unfold dwell
  cases c.numeric with
  | nil => exact checks_pure hm ()
  | cons amount rest =>
    have hemit := emit_run m .dwell
    rw [if_neg (hm.coded .dwell)] at hemit
    have h₁ := (safe_emit .dwell m hm).kept hemit
    refine checks_get (checks_after hemit ?_)
    refine Checks.bind ((guards_queueNumber h₁ _ _ _).checks fun hx => ?_) fun _ => ?_
    · exact h₁.queueing (hx _ List.mem_cons_self) _ _
    · refine safe_get fun m hm => ?_
      exact safe_bind (safe_setVariable (by decide) (by decide)) (fun _ => safe_writeBlock) m hm

theorem checks_selectTool (hm : m.Intact N) (c : Command) :
    Checks (Intact N) (m.handed .selectTool c) (selectTool c) m := by
  have hhanded : m.handed .selectTool c = c.numeric.head?.toList.map Number.round := by
    simp [handed, given, computed, movesBy, Verb.moves]
  rw [hhanded]
  unfold selectTool
  cases c.numeric with
  | nil => exact checks_pure hm ()
  | cons x rest =>
    refine (checks_apart hm (by decide) _).bind fun _ => ?_
    exact safe_bind (safe_queueRegister _) fun _ => safe_writeBlock

theorem safe_loadTool (c : Command) : Safe (Intact N) (loadTool c) := by
  have hwhole (n : Int64) : AllFinite [Number.ofInt n.toInt] :=
    allFinite_cons.mpr ⟨Number.isFinite_ofInt n, allFinite_nil⟩
  intro m hm
  unfold loadTool
  cases c.numeric with
  | nil => exact checks_pure hm ()
  | cons x rest =>
    refine checks_get (safe_ite (safe_pure ()) ?_ m hm)
    refine safe_bind (safe_modify fun m hm => ?_) fun _ => ?_
    · split
      · exact hm
      · exact { hm with }
    refine safe_bind (safe_setVariable (by decide) (by decide)) fun _ =>
      safe_bind (safe_count _) fun _ => ?_
    refine safe_bind (fun m hm => ?_) fun _ => ?_
    · exact (checks_apart hm (by decide) _).congr (.of_allFinite (hwhole _) allFinite_nil)
    refine safe_bind (safe_queueRegister _) fun _ => safe_bind (safe_emit _) fun _ => ?_
    refine safe_bind (safe_forget _) fun _ => ?_
    exact safe_bind (safe_setVariable (by decide) (by decide)) fun _ => safe_writeBlock

theorem checks_setFeed (hm : m.Intact N) (c : Command) :
    Checks (Intact N) (m.handed .feed c) (setFeed c) m := by
  have hhanded : m.handed .feed c = c.numeric.head?.toList := by
    simp [handed, given, computed, movesBy, Verb.moves]
  rw [hhanded]
  unfold setFeed
  cases c.numeric with
  | nil => exact checks_pure hm ()
  | cons x rest => exact checks_apart hm (by decide) x

theorem safe_remark (title text : Text) : Safe (Intact N) (remark title text) :=
  safe_ite (safe_pure ()) (safe_comment _)

theorem safe_startOperation (c : Command) : Safe (Intact N) (startOperation c) := by
  refine safe_bind (safe_modify fun m hm => { hm with registers := hm.registers.clearFlags })
    fun _ => ?_
  exact safe_get fun m hm => safe_note _ _ _ m hm

theorem safe_announceCircle (hc : ∀ x ∈ c.numeric, N x) (hzero : N 0) :
    Safe (Intact N) (announceCircle c) := by
  unfold announceCircle
  split
  case h_1 cx cy cz i j k rest hnumeric =>
    refine safe_modify fun m hm => { hm with circle := fun circle hcircle => ?_ }
    cases hcircle
    refine ⟨fun a => ?_, Command.number_of hc hzero 6⟩
    cases a <;> exact hc _ (by simp [hnumeric, Point.along])
  case h_2 => exact safe_note _ _ _

theorem safe_selectPlane (c : Command) : Safe (Intact N) (selectPlane c) := by
  unfold selectPlane
  split
  · refine safe_bind (safe_setVariable (by decide) (by decide)) fun _ => ?_
    exact safe_bind (safe_emitModal _ _) fun _ => safe_writeBlock
  · exact safe_note _ _ _

theorem safe_moveHome (axes : List Axis) : Safe (Intact N) (moveHome axes) := by
  have hzero : AllFinite [0] := allFinite_cons.mpr ⟨by decide, allFinite_nil⟩
  have hqueue (address : Text) (format : NumberFormat) :
      Safe (Intact N) (queueNumber address format 0) := by
    intro m hm
    refine ((guards_queueNumber hm address format 0).checks fun hx => ?_).congr
      (.of_allFinite hzero allFinite_nil)
    exact hm.queueing (hx _ List.mem_cons_self) _ _
  refine safe_bind (safe_emitModal _ _) fun _ => safe_bind (safe_emit _) fun _ => ?_
  refine safe_bind (safe_forIn (fun a => safe_get fun m hm => ?_) axes) fun _ => ?_
  · exact (hqueue _ _ m hm).bind fun _ => safe_pure _
  · exact safe_bind (safe_count _) fun _ => safe_writeBlock

theorem safe_goHome (c : Command) : Safe (Intact N) (goHome c) := by
  refine safe_bind (safe_forIn (fun axes => ?_) _) fun _ => ?_
  · exact safe_bind (safe_moveHome axes) fun _ => safe_pure _
  · refine safe_bind (safe_setVariable (by decide) (by decide)) fun _ => ?_
    exact safe_setVariable (by decide) (by decide)

theorem safe_compensate (c : Command) : Safe (Intact N) (compensate c) :=
  safe_ite (safe_emitModal _ _)
    (safe_ite (safe_emitModal _ _) (safe_ite (safe_emitModal _ _) (safe_pure ())))

theorem safe_runCoolant (c : Command) : Safe (Intact N) (runCoolant c) := by
  have hset {kind : Text} {f : Function} : Safe (Intact N) (do
      setVariable Variable.coolantKind (.text kind)
      emitModal .coolant f) :=
    safe_bind (safe_setVariable (by decide) (by decide)) fun _ => safe_emitModal _ _
  have hswitch (kind : Text) : Safe (Intact N) (switchCoolant c kind) :=
    safe_ite (safe_emitModal _ _) (safe_ite hset (safe_ite hset
      (safe_ite (safe_emitModal _ _) (safe_ite (safe_emitModal _ _) (safe_emitModal _ _)))))
  exact safe_get fun m hm => safe_bind (hswitch _) (fun _ => safe_writeBlock) m hm

theorem safe_finish (c : Command) : Safe (Intact N) (finish c) := by
  have hoff (g : ModalGroup) (f : Function) : Safe (Intact N) (switchOff g f) :=
    safe_get fun m hm => safe_onlyIf (safe_emitModal _ _) m hm
  refine safe_bind safe_cancelCycle fun _ => safe_bind (hoff _ _) fun _ =>
    safe_bind (hoff _ _) fun _ => ?_
  refine safe_get fun m hm => safe_bind (safe_onlyIf (safe_emit _)) (fun _ => ?_) m hm
  refine safe_bind (safe_setVariable (by decide) (by decide)) fun _ => ?_
  exact safe_bind (safe_note _ _ _) fun _ => safe_writeBlock

theorem perform_checks (hm : m.Intact N) (hzero : N 0) (hc : ∀ x ∈ c.numeric, N x) (v : Verb) :
    Checks (Intact N) (m.handed v c) (perform v c) m := by
  have hsafe {v : Verb} {a : Action Unit} (ha : Safe (Intact N) a) (hhanded : m.handed v c = []) :
      Checks (Intact N) (m.handed v c) a m := hhanded ▸ ha m hm
  cases v with
  | goto | rapid | start | continuation =>
    cases h : m.movesBy _ c with
    | true => exact checks_moving hm hc h
    | false => exact checks_still hm rfl h
  | feed => exact checks_setFeed hm c
  | spindle => exact checks_runSpindle hm hc
  | selectTool => exact checks_selectTool hm c
  | delay => exact checks_dwell hm c
  | cycle => exact checks_repeatCycle hm c
  | drillHere => exact checks_drillHere hm (by simp) (show DrillCycle.plainName ≠ [] by decide) rfl
  | deepDrillHere =>
    exact checks_drillHere hm (by simp) (show DrillCycle.deepName ≠ [] by decide) rfl
  | partNumber =>
    exact hsafe (safe_bind (safe_setVariable (by decide) (by decide)) fun _ => safe_remark _ _) rfl
  | print => exact hsafe (safe_remark _ _) rfl
  | nameOperation =>
    exact hsafe (safe_bind (safe_setVariable (by decide) (by decide)) fun _ => safe_remark _ _) rfl
  | startOperation => exact hsafe (safe_startOperation c) rfl
  | circle => exact hsafe (safe_announceCircle hc hzero) rfl
  | plane => exact hsafe (safe_selectPlane c) rfl
  | home => exact hsafe (safe_goHome c) rfl
  | multiAxis => exact hsafe (safe_setVariable (by decide) (by decide)) rfl
  | cutterCompensation => exact hsafe (safe_compensate c) rfl
  | coolant => exact hsafe (safe_runCoolant c) rfl
  | loadTool => exact hsafe (safe_loadTool c) rfl
  | finish => exact hsafe (safe_finish c) rfl
  | ignore => exact hsafe (safe_note _ _ _) rfl
  | refuse reason => exact hsafe (safe_fail _) rfl

end Machine
end Toolpath
