import Toolpath.Proofs.CheckedActions
import Toolpath.Proofs.RapidRows

/-!
# The numbers of a motion

A motion has its coordinates checked, then the angles of the rotary axes, then
what is computed for an arc: its radius, or the offsets of its center. Of an arc
nothing is computed when the motion is rapid, or when it drills a hole.
-/

namespace Toolpath

open Registers (normalName)

def Point.coordinates (p : Point) : List Float := [p.x, p.y, p.z]

def Circle.numbers (p : Profile) (f : Frame) (c : Circle) (winding : Winding) (start stop : Point) :
    List Float :=
  if p.arcRadius && Arc.sweep f start stop c.center (winding = .counter) < Number.pi then
    [Arc.radius f c start]
  else [f.first, f.second].map fun a => c.center.along a - start.along a

theorem Command.number_of {N : Float → Prop} {c : Command} (hc : ∀ x ∈ c.numeric, N x)
    {default : Float} (hdefault : N default) (i : Nat) : N (c.number i default) := by
  rw [Command.number, List.getD_eq_getElem?_getD]
  cases hi : c.numeric[i]? with
  | none => exact hdefault
  | some x => exact hc x (List.mem_of_getElem? hi)

namespace Machine

variable {N : Float → Prop} {α β : Type} {m m' : Machine} {c : Command} {v : Verb}

/-- The point that a command moves to: a coordinate that it leaves out stays. -/
def target (m : Machine) (c : Command) : Point :=
  ⟨c.number 0 (m.value "X"), c.number 1 (m.value "Y"), c.number 2 (m.value "Z")⟩

def axisAngles (m : Machine) (c : Command) : List Float :=
  match m.vars.flag Variable.multiAxis false, c.numeric with
  | true, _ :: _ :: _ :: i :: j :: k :: _ => [(ToolAxis.angles i j k).1, (ToolAxis.angles i j k).2]
  | _, _ => []

def drills (m : Machine) : Bool := m.active .cycle ≠ [] && !m.vars.flag Variable.cycleOnce false

def pathNumbers (m : Machine) (straight : Bool) (start stop : Point) : List Float :=
  match m.circle with
  | none => []
  | some c =>
    let f := Frame.named (m.vars.text Variable.plane Plane.xy.name)
    if straight then []
    else (Arc.winding? f c).elim [] fun winding => c.numbers m.profile f winding start stop

theorem drills_eq_true : m.drills = true ↔ m.Repeating := by
  simp only [drills, ne_eq, decide_not, Bool.and_eq_true, Bool.not_eq_true',
    decide_eq_false_iff_not]
  exact ⟨fun h => ⟨h.1, h.2⟩, fun h => ⟨h.active, h.repeated⟩⟩

theorem value_flag (hi : m.rack.registers.Indexed) (b : Bool) (a r : Text) :
    value { m with rack := m.rack.flag b (.register a) } r = m.value r := by
  rw [Rack.flag_register]
  by_cases ha : normalName r = normalName a
  · simp [value, Registers.find?_modify_same ha, Function.comp_def]
  · simp [value, Registers.find?_modify_other hi ha]

theorem value_holding (hi : m.rack.registers.Indexed) {r : Text} (h : m.rack.registers.Has r)
    (name : Text) (x : Float) :
    (m.holding name x).value r = if normalName r = normalName name then x else m.value r := by
  obtain ⟨n, hn⟩ := h
  by_cases hr : normalName r = normalName name
  · rw [if_pos hr]
    simp [value, holding, Registers.find?_modify_same hr, hn, Numeric.hold]
  · rw [if_neg hr]
    simp [value, holding, Registers.find?_modify_other hi hr]

theorem Intact.value (h : m.Intact N) (a : Axis) : N (m.value a.register) := by
  have hmem : a.register ∈ Text.ofString "T" :: trackedNames := by cases a <;> decide
  obtain ⟨n, hn⟩ := h.registers.has _ hmem
  rw [Machine.value, hn]
  exact h.registers.position hn

theorem Intact.along (h : m.Intact N) (a : Axis) : N (m.position.along a) := by
  cases a with
  | x => exact h.value .x
  | y => exact h.value .y
  | z => exact h.value .z

variable {p : Point} {name : Text}

theorem position_eq (h : ∀ a : Axis, m.value a.register = p.along a) : m.position = p := by
  have hx : m.value "X" = p.x := h .x
  have hy : m.value "Y" = p.y := h .y
  have hz : m.value "Z" = p.z := h .z
  rw [position, hx, hy, hz]

def apartNames : List Text := ["T", "I", "J", "K", "R", "A", "B", "F", "S"]

theorem normalName_apart (hname : name ∈ apartNames) (a : Axis) :
    normalName a.register ≠ normalName name := by
  have h : ∀ name ∈ apartNames, ∀ a ∈ [Axis.x, .y, .z],
      normalName a.register ≠ normalName name := by decide
  exact h name hname a (by cases a <;> decide)

theorem Intact.holding_apart (hm : m.Intact N) (hname : name ∈ apartNames) {x : Float}
    (hx : Number.isFinite x = true) : (m.holding name x).Intact N :=
  hm.holding hx fun a ha => absurd ha (normalName_apart hname a)

theorem guards_apart (hm : m.Intact N) (hname : name ∈ apartNames) (x : Float) :
    Guards (Intact N) [x] (setRegister name x) m () (m.holding name x) := by
  have hmem : ∀ name ∈ apartNames, name ∈ Text.ofString "T" :: trackedNames := by decide
  exact guards_setRegister hm (hm.registers.has name (hmem name hname)) x

theorem checks_apart (hm : m.Intact N) (hname : name ∈ apartNames) (x : Float) :
    Checks (Intact N) [x] (setRegister name x) m :=
  (guards_apart hm hname x).checks fun hx => hm.holding_apart hname (hx x List.mem_cons_self)

theorem checks_forIn {I : Machine → Prop} {g : β → Action Unit} {x : β → Float}
    (hg : ∀ b m, I m → ∃ m', Guards I [x b] (g b) m () m' ∧ (Number.isFinite (x b) = true → I m'))
    (bs : List β) (hm : I m) :
    Checks I (bs.map x) (forIn bs PUnit.unit fun b _ => do
      g b
      pure (ForInStep.yield PUnit.unit) : Action PUnit) m := by
  induction bs generalizing m with
  | nil => exact checks_pure hm _
  | cons b bs ih =>
    obtain ⟨m', hguards, hm'⟩ := hg b m hm
    rw [List.forIn_cons]
    have hyield : Guards I [x b]
        (do g b; pure (ForInStep.yield PUnit.unit) : Action (ForInStep PUnit)) m
        (.yield PUnit.unit) m' :=
      hguards.andThen fun _ => Guards.of_run rfl
    exact hyield.bind fun hx => ih (hm' (hx _ List.mem_cons_self))

theorem guards_setArcWord (hm : m.Intact N) (hname : name ∈ apartNames) (x : Float) :
    ∃ m', Guards (Intact N) [x] (setArcWord name x) m () m' ∧
      (Number.isFinite x = true → m'.Intact N) := by
  refine ⟨_, (guards_apart hm hname x).andThen fun _ => Guards.of_run rfl, fun hx => ?_⟩
  exact (safe_flag true [name] _ (hm.holding_apart hname hx)).kept rfl

theorem checks_emitArcWords (hm : m.Intact N) (f : Frame) (c : Circle) (winding : Winding)
    (start : Point) :
    Checks (Intact N) (c.numbers m.profile f winding start m.position)
      (emitArcWords f c winding start) m := by
  have hmodal : (emitModal .motion winding.code).run m =
      .ok () (m.selected ModalGroup.motion.name winding.code.name) := by
    rw [emitModal_run, if_neg (hm.coded winding.code)]
  have hselected := hm.selected ModalGroup.motion.name winding.code.name
  have hflagged := (safe_flag true f.registers _ hselected).kept rfl
  refine checks_get (checks_after hmodal (checks_after (x := ()) rfl (checks_get ?_)))
  change Checks _ _ (if m.profile.arcRadius &&
    Arc.sweep f start m.position c.center (winding = .counter) < Number.pi then _ else _) _
  unfold Circle.numbers
  split
  · obtain ⟨m', hguards, hm'⟩ :=
      guards_setArcWord hflagged (show Text.ofString "R" ∈ _ by decide) (Arc.radius f c start)
    exact hguards.checks fun hx => hm' (hx _ List.mem_cons_self)
  · refine (checks_forIn (fun a m hm => guards_setArcWord hm ?_ _) _ hflagged).bind
      fun _ => safe_pure ()
    cases a <;> decide

theorem checks_followCircle (hm : m.Intact N) (start : Point) (rapid : Bool) :
    Checks (Intact N) (m.pathNumbers (rapid || m.active .cycle ≠ []) start m.position)
      (followCircle start rapid) m := by
  have hwarn (text : Text) (details : List (Text × Detail)) : Safe (Intact N) (do
      note .warning text details
      return false) :=
    safe_bind (safe_note _ _ _) fun _ => safe_pure false
  have hdropped : Intact N { m with circle := none } := { hm with circle := fun c h => by cases h }
  rw [followCircle_eq]
  refine checks_get ?_
  unfold pathNumbers
  cases hc : m.circle with
  | none => exact checks_pure hm false
  | some c =>
    have hdrop : (modify fun m => { m with circle := none } : Action Unit).run m =
        .ok () { m with circle := none } := rfl
    refine checks_after hdrop ?_
    by_cases hstraight : (rapid || decide (m.active .cycle ≠ [])) = true
    · simp only [if_pos hstraight]
      exact hwarn _ _ _ hdropped
    · simp only [if_neg hstraight]
      cases Arc.winding? (Frame.named (m.vars.text Variable.plane Plane.xy.name)) c with
      | none => exact hwarn _ _ _ hdropped
      | some winding =>
        exact (checks_emitArcWords hdropped _ c winding start).bind fun _ => safe_pure true

theorem checks_takePath (hm : m.Intact N) (start : Point) (rapid : Bool) :
    Checks (Intact N) (m.pathNumbers (rapid || m.active .cycle ≠ []) start m.position)
      (takePath start rapid) m := by
  refine (checks_followCircle hm start rapid).bind fun arc => ?_
  refine safe_bind (safe_onlyIf (safe_get fun m hm => ?_)) fun _ => ?_
  · exact safe_onlyIf (safe_emitModal _ _) m hm
  · refine safe_bind (safe_onlyIf (safe_setVariable (by decide) (by decide))) fun _ => ?_
    exact safe_count _

structure SamePath (m m' : Machine) : Prop where
  profile : m'.profile = m.profile
  circle : m'.circle = m.circle
  plane : m'.vars.text Variable.plane Plane.xy.name = m.vars.text Variable.plane Plane.xy.name
  position : m'.position = m.position

theorem SamePath.refl (m : Machine) : SamePath m m := ⟨rfl, rfl, rfl, rfl⟩

theorem SamePath.trans {m'' : Machine} (h : SamePath m m') (h' : SamePath m' m'') :
    SamePath m m'' :=
  ⟨h'.profile.trans h.profile, h'.circle.trans h.circle, h'.plane.trans h.plane,
    h'.position.trans h.position⟩

theorem SamePath.pathNumbers (h : SamePath m m') (straight : Bool) (start stop : Point) :
    m'.pathNumbers straight start stop = m.pathNumbers straight start stop := by
  unfold Machine.pathNumbers
  rw [h.circle, h.plane, h.profile]

theorem Intact.flag_position (hm : m.Intact N) (b : Bool) (name : Text) :
    position { m with rack := m.rack.flag b (.register name) } = m.position := by
  unfold position
  rw [value_flag hm.registers.indexed, value_flag hm.registers.indexed,
    value_flag hm.registers.indexed]

theorem Intact.restated (hm : m.Intact N) : m.restated.Intact N ∧ SamePath m m.restated := by
  have hplane : Variable.plane ≠ Variable.restate := by decide
  unfold Machine.restated
  split
  · have h₁ := hm.flag true "X"
    have h₂ := h₁.flag true "Y"
    have h₃ := h₂.flag true "Z"
    refine ⟨{ h₃ with vars := h₃.vars.remove (by decide) }, rfl, rfl, ?_, ?_⟩
    · simp [Memo.text, hplane]
    · exact (h₂.flag_position true "Z").trans
        ((h₁.flag_position true "Y").trans (hm.flag_position true "X"))
  · exact ⟨hm, SamePath.refl m⟩

theorem Intact.cancelled (hm : m.Intact N) : m.cancelled.Intact N :=
  { hm with
    writer := hm.writer.queue fun _ h => by cases h
    vars := (hm.vars.remove (by decide)).remove (by decide) }

theorem Intact.adapted (hm : m.Intact N) : m.adapted.Intact N ∧ SamePath m m.adapted := by
  have hcycle : Variable.plane ≠ Variable.cycle := by decide
  have honce : Variable.plane ≠ Variable.cycleOnce := by decide
  unfold Machine.adapted
  split
  · exact ⟨hm, SamePath.refl m⟩
  · split
    · have hcancelled := hm.cancelled
      refine ⟨hcancelled.flag true "Z", rfl, rfl, ?_, hcancelled.flag_position true "Z"⟩
      simp [Machine.cancelled, Memo.text, hcycle, honce]
    · exact ⟨hm.flag false "Z", rfl, rfl, rfl, hm.flag_position false "Z"⟩

theorem adapted_drills (m : Machine) : decide (m.adapted.active .cycle ≠ []) = m.drills := by
  by_cases hm : m.Repeating
  · rw [drills_eq_true.mpr hm, hm.adapted_eq]
    exact decide_eq_true hm.active
  · rw [Bool.eq_false_iff.mpr fun h => hm (drills_eq_true.mp h), adapted_idle hm]
    rfl

theorem restated_drills (m : Machine) : m.restated.drills = m.drills := by
  rw [Bool.eq_iff_iff, drills_eq_true, drills_eq_true]
  exact ⟨(restated_others m).2.2.2, Repeating.restated⟩

theorem checks_queueMotion (hm : m.Intact N) (start : Point) :
    Checks (Intact N) (m.pathNumbers (m.isRapid || m.drills) start m.position)
      (queueMotion start) m := by
  obtain ⟨hrestated, hsame⟩ := hm.restated
  obtain ⟨hadapted, hsame'⟩ := hrestated.adapted
  have hpath := checks_takePath hadapted start m.restated.isRapid
  rw [adapted_drills, restated_drills, (restated_others m).2.2.1, hsame'.position, hsame.position,
    hsame'.pathNumbers, hsame.pathNumbers] at hpath
  unfold Checks
  rw [queueMotion_run hm.coded, (restated_others m).2.2.1]
  exact hpath

def movedTo (m : Machine) (p : Point) : Machine :=
  ((m.holding "X" p.x).holding "Y" p.y).holding "Z" p.z

def swivelled (m : Machine) (c : Command) : Machine :=
  match m.vars.flag Variable.multiAxis false, c.numeric with
  | true, _ :: _ :: _ :: i :: j :: k :: _ =>
    (m.holding "A" (ToolAxis.angles i j k).1).holding "B" (ToolAxis.angles i j k).2
  | _, _ => m

theorem Intact.target (hm : m.Intact N) (hc : ∀ x ∈ c.numeric, N x) (a : Axis) :
    N ((m.target c).along a) := by
  cases a with
  | x => exact Command.number_of hc (hm.value .x) 0
  | y => exact Command.number_of hc (hm.value .y) 1
  | z => exact Command.number_of hc (hm.value .z) 2

theorem allFinite_coordinates :
    AllFinite p.coordinates ↔ ∀ a, Number.isFinite (p.along a) = true := by
  constructor
  · intro h a
    cases a <;> exact h _ (by simp [Point.coordinates, Point.along])
  · intro h x hx
    obtain ⟨a, rfl⟩ : ∃ a, p.along a = x := by
      simp only [Point.coordinates, List.mem_cons, List.not_mem_nil, or_false] at hx
      rcases hx with rfl | rfl | rfl
      · exact ⟨.x, rfl⟩
      · exact ⟨.y, rfl⟩
      · exact ⟨.z, rfl⟩
    exact h a

theorem guards_get {I : Machine → Prop} {xs : List Float} {f : Machine → Action α} {y : α}
    (h : Guards I xs (f m) m y m') : Guards I xs (get >>= f) m y m' :=
  ⟨h.done, h.refused⟩

theorem Intact.has_axis (hm : m.Intact N) (a : Axis) : m.rack.registers.Has a.register :=
  hm.registers.has _ (by cases a <;> decide)

theorem Intact.holding_axis (hm : m.Intact N) (a : Axis) {x : Float} (hx : Number.isFinite x = true)
    (hN : N x) :
    (m.holding a.register x).Intact N ∧
      ∀ b : Axis, (m.holding a.register x).value b.register = if b = a then x else
        m.value b.register := by
  refine ⟨hm.holding hx fun _ _ => hN, fun b => ?_⟩
  have hsame : normalName b.register = normalName a.register ↔ b = a := by
    cases a <;> cases b <;> decide
  rw [value_holding hm.registers.indexed (hm.has_axis b)]
  simp only [hsame]

theorem Intact.movedTo (hm : m.Intact N) (hp : AllFinite p.coordinates)
    (hN : ∀ a, N (p.along a)) : (m.movedTo p).Intact N ∧ (m.movedTo p).position = p := by
  have hfinite := allFinite_coordinates.mp hp
  obtain ⟨h₁, v₁⟩ := hm.holding_axis .x (hfinite .x) (hN .x)
  obtain ⟨h₂, v₂⟩ := h₁.holding_axis .y (hfinite .y) (hN .y)
  obtain ⟨h₃, v₃⟩ := h₂.holding_axis .z (hfinite .z) (hN .z)
  refine ⟨h₃, position_eq fun a => ?_⟩
  cases a with
  | x => exact (v₃ .x).trans ((v₂ .x).trans (v₁ .x))
  | y => exact (v₃ .y).trans (v₂ .y)
  | z => exact v₃ .z

theorem guards_setCoordinates (hm : m.Intact N) (hc : ∀ x ∈ c.numeric, N x) :
    Guards (Intact N) (m.target c).coordinates (setCoordinates c) m ()
      (m.movedTo (m.target c)) := by
  have hN := hm.target hc
  refine guards_get ((guards_setRegister hm (hm.has_axis .x) _).andThen fun hx => guards_get ?_)
  obtain ⟨h₁, v₁⟩ := hm.holding_axis .x (hx _ List.mem_cons_self) (hN .x)
  have hvalue : (m.holding "X" (m.target c).x).value "Y" = m.value "Y" := v₁ .y
  change Guards _ ([(m.target c).y] ++ [(m.target c).z])
    (setRegister "Y" (c.number 1 ((m.holding "X" (m.target c).x).value "Y")) >>= fun _ => _) _ _ _
  rw [hvalue]
  refine (guards_setRegister h₁ (h₁.has_axis .y) _).andThen fun hy => guards_get ?_
  obtain ⟨h₂, v₂⟩ := h₁.holding_axis .y (hy _ List.mem_cons_self) (hN .y)
  have hvalue : ((m.holding "X" (m.target c).x).holding "Y" (m.target c).y).value "Z" =
      m.value "Z" :=
    (v₂ .z).trans (v₁ .z)
  change Guards _ _ (setRegister "Z" (c.number 2
    (((m.holding "X" (m.target c).x).holding "Y" (m.target c).y).value "Z"))) _ _ _
  rw [hvalue]
  exact guards_setRegister h₂ (h₂.has_axis .z) _

theorem Intact.samePath_apart (hm : m.Intact N) (hname : name ∈ apartNames) (x : Float) :
    SamePath m (m.holding name x) := by
  refine ⟨rfl, rfl, rfl, position_eq fun a => ?_⟩
  rw [value_holding hm.registers.indexed (hm.has_axis a), if_neg (normalName_apart hname a)]
  cases a <;> rfl

theorem guards_setToolAxis (hm : m.Intact N) (c : Command) :
    Guards (Intact N) (m.axisAngles c) (setToolAxis c) m () (m.swivelled c) ∧
      (AllFinite (m.axisAngles c) → (m.swivelled c).Intact N ∧ SamePath m (m.swivelled c)) := by
  have hA : Text.ofString "A" ∈ apartNames := by decide
  have hB : Text.ofString "B" ∈ apartNames := by decide
  rw [setToolAxis]
  unfold axisAngles swivelled
  split
  case h_1 i j k _ hflag hnumeric =>
    constructor
    · refine guards_get ?_
      simp only [hflag, hnumeric]
      refine (guards_apart hm hA _).andThen fun ha => ?_
      exact guards_apart (hm.holding_apart hA (ha _ List.mem_cons_self)) hB _
    · intro hangles
      obtain ⟨ha, hb⟩ := allFinite_cons.mp hangles
      have h₁ := hm.holding_apart hA ha
      have h₂ := h₁.holding_apart hB (hb _ List.mem_cons_self)
      exact ⟨h₂, (hm.samePath_apart hA _).trans (h₁.samePath_apart hB _)⟩
  case h_2 hnone =>
    refine ⟨guards_get ?_, fun _ => ⟨hm, SamePath.refl m⟩⟩
    split
    case h_1 hflag hnumeric => exact absurd hnumeric (hnone _ _ _ _ _ _ _ hflag)
    case h_2 => exact Guards.of_run rfl

theorem swivelled_others (m : Machine) (c : Command) :
    (m.swivelled c).isRapid = m.isRapid ∧ (m.swivelled c).drills = m.drills := by
  unfold swivelled
  split <;> exact ⟨rfl, rfl⟩

theorem checks_moveTo (hm : m.Intact N) (hc : ∀ x ∈ c.numeric, N x)
    (hne : c.numeric.isEmpty = false) :
    Checks (Intact N) ((m.target c).coordinates ++ (m.axisAngles c ++
      m.pathNumbers (m.isRapid || m.drills) m.position (m.target c))) (moveTo c) m := by
  rw [moveTo, if_neg (by simp [hne])]
  refine checks_get ((guards_setCoordinates hm hc).bind fun hxyz => ?_)
  obtain ⟨h₁, hposition⟩ := hm.movedTo hxyz (hm.target hc)
  obtain ⟨hguards, hswivelled⟩ := guards_setToolAxis h₁ c
  refine hguards.bind fun hangles => ?_
  obtain ⟨h₂, hsame⟩ := hswivelled hangles
  obtain ⟨hrapid, hdrills⟩ := swivelled_others (m.movedTo (m.target c)) c
  have hmotion := checks_queueMotion h₂ m.position
  rw [hsame.pathNumbers, hsame.position, hposition, hrapid, hdrills] at hmotion
  exact hmotion.bind fun _ => safe_bind safe_writeBlock fun _ => safe_callRepeated

end Machine
end Toolpath
