import Toolpath.Proofs.Continuations

/-!
# What a row repeats

A row behind a motion is carried out as `moveTo`, and so is a `goto` statement. A `rapid`
statement announces a rapid motion first, and a motion takes that announcement back. So a row
behind `rapid` is rapid only when no motion was made since; while a canned cycle is repeated the
difference does not show.
-/

namespace Toolpath

namespace Memo

variable (m : Memo) {key k : Text} (v w : Value)

theorem set_set (key : Text) : (m.set key v).set key w = m.set key w := by
  simp [set, remove]

theorem remove_set (h : k ≠ key) : (m.set key v).remove k = (m.remove k).set key v := by
  have hkey : (key != k) = true := by simpa using h.symm
  simp only [set, remove, List.filter_cons, hkey, if_true, List.filter_filter, Bool.and_comm]

end Memo

namespace Machine

variable {α β : Type} {S : Machine → Deed → Prop} {p : Profile} {m m' n : Machine} {c : Command}
  {v : Verb} {d : Deed} {u : Unit}

/-- The same lines have been written, and registers, active codes and variables are the same. -/
structure Agrees (a b : Machine) : Prop where
  outlet : b.outlet = a.outlet
  rack : b.rack = a.rack
  modal : ∀ group, b.modal.get? group = a.modal.get? group
  vars : ∀ key, b.vars.get? key = a.vars.get? key

theorem Agrees.refl (a : Machine) : Agrees a a := ⟨rfl, rfl, fun _ => rfl, fun _ => rfl⟩

/-- The variables, with the next motion announced like this. -/
def heading (motion : Text) (vars : Memo) : Memo := vars.set Variable.motion (.text motion)

/-- Both fail, and the machines that they leave agree; or both break the same contract, and the
machines agree as soon as their next motion is announced anew. -/
def StopAlike : Stop → Machine → Stop → Machine → Prop
  | .failure _, m, .failure _, n => Agrees m n
  | .violation v, m, .violation w, n =>
    v = w ∧ ∀ motion, Agrees { m with vars := heading motion m.vars }
      { n with vars := heading motion n.vars }
  | _, _, _, _ => False

theorem StopAlike.refl (e : Stop) (m : Machine) : StopAlike e m e m := by
  cases e with
  | failure => exact Agrees.refl m
  | violation => exact ⟨rfl, fun _ => Agrees.refl _⟩

/-- Both are carried out, with the same answer and machines that `R` relates, or both stop alike. -/
def EndAlike (R : Machine → Machine → Prop) :
    EStateM.Result Stop Machine α → EStateM.Result Stop Machine α → Prop
  | .ok x m, .ok y n => x = y ∧ R m n
  | .error e m, .error e' n => StopAlike e m e' n
  | _, _ => False

namespace EndAlike

variable {R R' : Machine → Machine → Prop} {r s : EStateM.Result Stop Machine α}

theorem refl (hR : ∀ a, R a a) : EndAlike R r r := by
  cases r with
  | ok x m => exact ⟨rfl, hR m⟩
  | error e m => exact StopAlike.refl e m

theorem and_left {P : Machine → Prop} (h : EndAlike R r s) (hP : ∀ x a, r = .ok x a → P a) :
    EndAlike (fun a b => R a b ∧ P a) r s := by
  cases r <;> cases s
  · exact ⟨h.1, h.2, hP _ _ rfl⟩
  all_goals exact h

theorem bind {a : Action α} {f : α → Action β} (h : EndAlike R (a.run m) (a.run n))
    (hf : ∀ x a b, R a b → EndAlike R' ((f x).run a) ((f x).run b)) :
    EndAlike R' ((a >>= f).run m) ((a >>= f).run n) := by
  rw [EStateM.run_bind, EStateM.run_bind]
  cases hr : a.run m <;> cases hs : a.run n <;> rw [hr, hs] at h
  · obtain ⟨rfl, h⟩ := h
    exact hf _ _ _ h
  · exact h.elim
  · exact h.elim
  · exact h

theorem get {f : Machine → Action β} (h : EndAlike R ((f m).run m) ((f n).run n)) :
    EndAlike R ((MonadStateOf.get >>= f).run m) ((MonadStateOf.get >>= f).run n) := h

end EndAlike

/-- The machines differ in their variables at most, and those are related by `Q`. -/
def VarsBy (Q : Memo → Memo → Prop) (m n : Machine) : Prop :=
  ∃ vars, n = { m with vars } ∧ Q m.vars vars

def SameEntries (vars vars' : Memo) : Prop := ∀ key, vars'.get? key = vars.get? key

theorem VarsBy.agrees (h : VarsBy SameEntries m n) : Agrees m n := by
  obtain ⟨vars, rfl, hsame⟩ := h
  exact ⟨rfl, rfl, fun _ => rfl, hsame⟩

/-- Whatever variables `Q` relates, the action does the same with them and leaves them. -/
def Blind (Q : Memo → Memo → Prop) (a : Action α) : Prop :=
  ∀ m n, VarsBy Q m n → EndAlike (VarsBy Q) (a.run m) (a.run n)

/-- What `Q` relates differs in the announcement of a motion at most. -/
def UpToMotion (Q : Memo → Memo → Prop) : Prop :=
  ∀ vars vars', Q vars vars' → ∀ motion, SameEntries (heading motion vars) (heading motion vars')

theorem upToMotion_sameEntries : UpToMotion SameEntries := by
  intro vars vars' h motion key
  by_cases hkey : key = Variable.motion <;> simp [heading, hkey, h key]

theorem upToMotion_heading (motion : Text) :
    UpToMotion fun vars vars' => vars' = heading motion vars := by
  rintro vars _ rfl motion' key
  simp only [heading, Memo.set_set]

variable {Q : Memo → Memo → Prop}

theorem blind_pure (x : α) : Blind Q (pure x : Action α) := fun _ _ h => ⟨rfl, h⟩

theorem blind_bind {a : Action α} {f : α → Action β} (ha : Blind Q a) (hf : ∀ x, Blind Q (f x)) :
    Blind Q (a >>= f) :=
  fun m n h => (ha m n h).bind hf

theorem blind_get {f : Machine → Action β} (hsame : ∀ (m : Machine) vars, f { m with vars } = f m)
    (hf : ∀ m, Blind Q (f m)) : Blind Q (get >>= f) := by
  rintro m _ ⟨vars, rfl, hQ⟩
  change EndAlike _ ((f m).run m) ((f { m with vars }).run { m with vars })
  rw [hsame m vars]
  exact hf m m { m with vars } ⟨vars, rfl, hQ⟩

theorem blind_modify {f : Machine → Machine} (hvars : ∀ m, (f m).vars = m.vars)
    (hf : ∀ (m : Machine) vars, f { m with vars } = { f m with vars }) :
    Blind Q (modify f : Action PUnit) := by
  rintro m _ ⟨vars, rfl, hQ⟩
  exact ⟨rfl, vars, hf m vars, (hvars m).symm ▸ hQ⟩

theorem blind_demand (hQ : UpToMotion Q) (e : Except Violation α) : Blind Q (demand e) := by
  cases e with
  | ok x => exact blind_pure x
  | error v =>
    rintro m _ ⟨vars, rfl, h⟩
    exact ⟨rfl, fun motion => ⟨rfl, rfl, fun _ => rfl, hQ m.vars vars h motion⟩⟩

theorem blind_setRegister (hQ : UpToMotion Q) (name : Text) (x : Float) :
    Blind Q (setRegister name x) := by
  refine blind_get (fun _ _ => rfl) fun m => ?_
  cases m.rack.registers.find? name with
  | none => exact blind_pure ()
  | some n =>
    exact blind_bind (blind_demand hQ _) fun _ => blind_modify (fun _ => rfl) fun _ _ => rfl

theorem blind_setCoordinates (hQ : UpToMotion Q) (c : Command) : Blind Q (setCoordinates c) := by
  refine blind_get (fun _ _ => rfl) fun m => blind_bind (blind_setRegister hQ _ _) fun _ => ?_
  refine blind_get (fun _ _ => rfl) fun m => blind_bind (blind_setRegister hQ _ _) fun _ => ?_
  exact blind_get (fun _ _ => rfl) fun m => blind_setRegister hQ _ _

theorem blind_writeLine (t : Text) : Blind SameEntries (writeLine t) := by
  rintro m _ ⟨vars, rfl, hsame⟩
  rw [writeLine_run, writeLine_run]
  cases (m.outlet.writeLine t).1 with
  | none => exact ⟨rfl, vars, rfl, hsame⟩
  | some e => exact ⟨rfl, rfl, fun _ => rfl, hsame⟩

theorem blind_writeBlock : Blind SameEntries writeBlock := by
  rintro m _ ⟨vars, rfl, hsame⟩
  simp only [writeBlock, EStateM.run_bind, EStateM.run_get, EStateM.run_set]
  cases (m.writer.assemble m.rack true).1 with
  | none => exact ⟨rfl, vars, rfl, hsame⟩
  | some t => exact blind_writeLine t _ _ ⟨vars, rfl, hsame⟩

theorem blind_callCycle (name : Text) (params : Parameters) :
    Blind SameEntries (callCycle name params) := by
  have hkeep (c : CycleMemo) : Blind SameEntries (keepCycle c) :=
    blind_modify (fun _ => rfl) fun _ _ => rfl
  refine blind_bind (blind_modify (fun _ => rfl) fun _ _ => rfl) fun _ => blind_bind ?_ fun c => ?_
  · refine blind_get (fun _ _ => rfl) fun m => ?_
    cases m.cycleMemo? name with
    | some c => exact blind_pure c
    | none =>
      refine blind_bind (blind_demand upToMotion_sameEntries _) fun c =>
        blind_bind ?_ fun _ => blind_pure c
      exact blind_modify (fun _ => rfl) fun _ _ => rfl
  · refine blind_bind (hkeep _) fun _ =>
      blind_bind (blind_modify (fun _ => rfl) fun _ _ => rfl) fun _ => ?_
    exact blind_bind blind_writeBlock fun _ => hkeep _

/-! ## The announcement of a motion -/

def Announced (m : Machine) : Prop :=
  m.vars.get? Variable.motion = some (.text Motion.linear) ∨
    m.vars.get? Variable.motion = some (.text Motion.rapid)

theorem Announced.not_rapid (h : Announced m) :
    m.isRapid = false ↔ m.vars.get? Variable.motion = some (.text Motion.linear) := by
  have hne : Motion.linear ≠ Motion.rapid := by decide
  rcases h with h | h <;> simp [isRapid, Memo.text, h, hne, hne.symm]

def Steers : Deed → Prop
  | .assign key v => key = Variable.motion → v = .text Motion.linear ∨ v = .text Motion.rapid
  | .unassign key => key ≠ Variable.motion
  | _ => True

theorem Does.announced (h : Does d m m') (hd : Steers d) (hm : Announced m) : Announced m' := by
  cases h with
  | assign _ key v =>
    by_cases hkey : key = Variable.motion
    · subst hkey
      simpa [Announced] using hd rfl
    · simpa [Announced, Ne.symm hkey] using hm
  | unassign _ key => simpa [Announced, Ne.symm hd] using hm
  | block =>
    unfold Announced
    rw [wroteBlock_vars]
    exact hm
  | _ => exact hm

theorem Course.announced (hS : ∀ m d, S m d → Steers d) (h : Course S m m') (hm : Announced m) :
    Announced m' :=
  h.invariant (fun d a _ hd hab => hab.announced (hS a d hd)) hm

def KeepsPlain : Deed → Prop
  | .assign key v => key = Variable.motion → v = .text Motion.linear
  | .unassign key => key ≠ Variable.motion
  | .circle c => c = none
  | _ => True

theorem KeepsPlain.steers (h : KeepsPlain d) : Steers d := by
  cases d with
  | assign key v => exact fun hkey => .inl (h hkey)
  | unassign key => exact h
  | _ => trivial

theorem CallMay.keepsPlain (h : CallMay p m d) : KeepsPlain d := by
  cases h <;> trivial

theorem AxisMay.keepsPlain (h : AxisMay m d) : KeepsPlain d := by
  cases h
  trivial

theorem TravelMay.keepsPlain (h : TravelMay p m d) : KeepsPlain d := by
  cases h with
  | restate h =>
    cases h with
    | restated => exact (by decide : Variable.restate ≠ Variable.motion)
    | _ => trivial
  | adapt h =>
    cases h with
    | unassign key hkey =>
      have hne : ∀ key ∈ [Variable.cycle, Variable.cycleOnce], key ≠ Variable.motion := by decide
      exact hne key hkey
    | _ => trivial
  | path h =>
    cases h with
    | dropCircle => rfl
    | straightened => exact fun _ => rfl
    | _ => trivial

theorem MotionMay.steers (h : MotionMay p m d) : Steers d := by
  cases h with
  | call h => exact h.keepsPlain.steers
  | travel h => exact h.keepsPlain.steers
  | axis h => exact h.keepsPlain.steers
  | rapid => exact fun _ => .inr rfl
  | restate => exact fun h => absurd h (by decide)
  | block => trivial

theorem May.steers (h : Verb.May p m v d) : Steers d := by
  have hother {key : Text} {w : Value} (h : key ≠ Variable.motion) : Steers (.assign key w) :=
    fun hkey => absurd hkey h
  have hcycle : ∀ key ∈ [Variable.cycle, Variable.cycleOnce], key ≠ Variable.motion := by decide
  cases h with
  | move _ h => exact h.steers
  | start _ h =>
    cases h with
    | call h => cases h <;> trivial
    | cycle => exact hother (by decide)
    | once => exact hother (by decide)
    | repeated => exact (by decide : Variable.cycleOnce ≠ Variable.motion)
    | _ => trivial
  | cancel _ h =>
    cases h with
    | unassign key hkey => exact hcycle key hkey
    | restate => exact hother (by decide)
    | _ => trivial
  | name v key t hname =>
    have hkey : ∀ vk ∈ [(Verb.partNumber, Variable.partNumber),
        (.nameOperation, Variable.operation)], vk.2 ≠ Variable.motion := by decide
    exact hother (hkey _ hname)
  | spindleSetting h =>
    cases h with
    | assign key w hkey =>
      have hne : ∀ key ∈ [Variable.speedLimit, Variable.spindleSpeed, Variable.spindleDirection,
        Variable.spindleMode], key ≠ Variable.motion := by decide
      exact hother (hne key hkey)
  | wrapUp h =>
    cases h with
    | finished => exact hother (by decide)
    | _ => trivial
  | homeMotion => exact fun _ => .inl rfl
  | plane | homeRestate | multiAxis | coolantKind | tool | toolRestate | dwellSum =>
    exact hother (by decide)
  | _ => trivial

theorem Step.announced (h : Step c m m') (hm : Announced m) : Announced m' := by
  refine h.course.announced (fun a d hd => ?_) hm
  rcases hd with rfl | ⟨v, c', -, hd⟩
  · trivial
  · exact May.steers hd

theorem Opens.announced (h : Opens p m) : Announced m := by
  obtain ⟨occasion, outlet, m₀, strict, subject, log, skip, hstart, rfl⟩ := h
  obtain ⟨rs, rs', -, -, rfl⟩ := start_ok hstart
  have hinitial : initialVariables.get? Variable.motion = some (.text Motion.linear) := by decide
  have hne : Variable.motion ≠ Variable.skipSameTool := by decide
  cases skip <;> exact .inl (by simp [hinitial, hne])

theorem Announced.restated (hm : Announced m) : Announced m.restated :=
  (keepsTo_restatePosition m rfl () _ restatePosition_run).announced
    (fun _ _ h => (TravelMay.keepsPlain (p := m.profile) (.restate h)).steers) hm

structure Plain (m : Machine) : Prop where
  straight : m.vars.get? Variable.motion = some (.text Motion.linear)
  circle : m.circle = none

theorem Does.straight (h : Does d m m') (hd : KeepsPlain d)
    (hm : m.vars.get? Variable.motion = some (.text Motion.linear)) :
    m'.vars.get? Variable.motion = some (.text Motion.linear) := by
  cases h with
  | assign _ key v =>
    by_cases hkey : key = Variable.motion
    · simp [hkey, hd hkey]
    · simpa [Ne.symm hkey] using hm
  | unassign _ key => simpa [Ne.symm hd] using hm
  | block => rwa [wroteBlock_vars]
  | _ => exact hm

theorem Does.no_circle (h : Does d m m') (hd : KeepsPlain d) (hm : m.circle = none) :
    m'.circle = none := by
  cases h with
  | circle => exact hd
  | block => rwa [wroteBlock_circle]
  | _ => exact hm

theorem Course.straight (hS : ∀ m d, S m d → KeepsPlain d) (h : Course S m m')
    (hm : m.vars.get? Variable.motion = some (.text Motion.linear)) :
    m'.vars.get? Variable.motion = some (.text Motion.linear) :=
  h.invariant (fun d a _ hd hab => hab.straight (hS a d hd)) hm

theorem Course.no_circle (hS : ∀ m d, S m d → KeepsPlain d) (h : Course S m m')
    (hm : m.circle = none) : m'.circle = none :=
  h.invariant (fun d a _ hd hab => hab.no_circle (hS a d hd)) hm

variable {start : Point}

theorem followCircle_circle {rapid arc : Bool}
    (h : (followCircle start rapid).run m = .ok arc m') : m'.circle = none := by
  simp only [followCircle, EStateM.run_bind, EStateM.run_get] at h
  cases hc : m.circle with
  | none =>
    simp only [hc] at h
    cases h
    exact hc
  | some circle =>
    simp only [hc] at h
    obtain ⟨_, m₁, h₁, h⟩ := run_bind_ok.mp h
    cases h₁
    split at h
    case isTrue =>
      cases h
      rfl
    case isFalse ha =>
      have ha : rapid = false ∧ m.active .cycle = [] := by simpa using ha
      split at h
      · obtain ⟨_, m₂, h₁, h₂⟩ := run_bind_ok.mp h
        cases h₂
        have hwords : Course PathMay { m with circle := none } m' :=
          keepsAt_emitArcWords (m := { m with circle := none }) _ _ _ _ rfl ha.2 _ _ h₁
        exact hwords.no_circle (fun _ _ h => TravelMay.keepsPlain (p := m.profile) (.path h)) rfl
      · cases h
        rfl

theorem takePath_plain {rapid : Bool}
    (hm : rapid = false → m.vars.get? Variable.motion = some (.text Motion.linear))
    (h : (takePath start rapid).run m = .ok u m') : Plain m' := by
  obtain ⟨arc, m₁, h₁, h⟩ := run_bind_ok.mp h
  obtain ⟨_, m₂, h₂, h⟩ := run_bind_ok.mp h
  have hfollowed := keepsTo_followCircle start rapid m rfl _ _ h₁
  have hstraight : Course PathMay m₁ m₂ := keepsTo_onlyIf (keepsTo_emitStraight rapid) m₁ rfl _ _ h₂
  have hcircle : m₂.circle = none :=
    hstraight.no_circle (fun _ _ h => TravelMay.keepsPlain (p := m.profile) (.path h))
      (followCircle_circle h₁)
  cases rapid with
  | true =>
    cases h
    exact ⟨by simp, hcircle⟩
  | false =>
    have hlinear := (hfollowed.trans hstraight).straight
      (fun _ _ h => TravelMay.keepsPlain (p := m.profile) (.path h)) (hm rfl)
    cases h
    exact ⟨hlinear, hcircle⟩

theorem moveTo_plain (hcoded : m.profile.Coded) (hm : Announced m) (hne : c.numeric.isEmpty = false)
    (h : (moveTo c).run m = .ok u m') : Plain m' := by
  obtain ⟨m₁, m₂, m₃, h₁, h₂, h₃, taken, hcall⟩ := moveTo_ok hne h
  have haxis : Course AxisMay m m₂ :=
    (keepsTo_setCoordinates (p := m.profile) c m rfl () m₁ h₁).trans
      (keepsTo_setToolAxis (p := m₁.profile) c m₁ rfl () m₂ h₂)
  have hcoded₂ : m₂.profile.Coded := haxis.profile ▸ hcoded
  have hrestate : Course RestateMay m₂ m₂.restated :=
    keepsTo_restatePosition m₂ rfl () _ restatePosition_run
  have hadapt : Course (AdaptMay m₂.restated.profile) m₂.restated m₂.restated.adapted :=
    keepsTo_adaptToCycle m₂.restated rfl () _ (adaptToCycle_run (hrestate.profile ▸ hcoded₂))
  have hm₂ : Announced m₂.restated :=
    (haxis.announced (fun _ _ h => h.keepsPlain.steers) hm).restated
  have hplain : Plain m₃ := by
    refine takePath_plain (fun hrapid => ?_) (queueMotion_ok hcoded₂ h₃)
    exact hadapt.straight (fun _ _ h => TravelMay.keepsPlain (.adapt h)) (hm₂.not_rapid.mp hrapid)
  have hend : Course (fun _ d => KeepsPlain d) m₃ m' :=
    (Course.one (d := .block) trivial (.block m₃ taken)).trans
      ((keepsTo_callRepeated (p := m₃.wroteBlock.profile) _ rfl _ _ hcall).mono
        fun _ _ h => h.keepsPlain)
  exact ⟨hend.straight (fun _ _ h => h) hplain.straight,
    hend.no_circle (fun _ _ h => h) hplain.circle⟩

structure Repeating (m : Machine) : Prop where
  active : m.active .cycle ≠ []
  repeated : m.vars.flag Variable.cycleOnce false = false

theorem rack_only (h : Course AxisMay m m') : ∃ rack, m' = { m with rack } := by
  refine h.kept (R := fun a b => ∃ rack, b = { a with rack }) (fun a => ⟨a.rack, rfl⟩) ?_ ?_
  · rintro a _ _ ⟨rack, rfl⟩ ⟨rack', rfl⟩
    exact ⟨rack', rfl⟩
  · intro d a b hd hab
    cases hd
    cases hab
    exact ⟨_, rfl⟩

/-- The second machine has its next motion announced as rapid, and is the first else. -/
def Headed : Machine → Machine → Prop := VarsBy fun vars vars' => vars' = heading Motion.rapid vars

theorem endAlike_setToolAxis (hn : Headed m n) :
    EndAlike Headed ((setToolAxis c).run m) ((setToolAxis c).run n) := by
  have hne : Variable.multiAxis ≠ Variable.motion := by decide
  obtain ⟨vars, rfl, rfl⟩ := hn
  have hflag : (heading Motion.rapid m.vars).flag Variable.multiAxis false =
      m.vars.flag Variable.multiAxis false := by
    simp [heading, Memo.flag, hne]
  simp only [setToolAxis, EStateM.run_bind, EStateM.run_get, hflag]
  split
  · have hset := blind_setRegister (upToMotion_heading Motion.rapid)
    exact blind_bind (hset _ _) (fun _ => hset _ _) _ _ ⟨_, rfl, rfl⟩
  · exact ⟨rfl, _, rfl, rfl⟩

theorem restated_heading (m : Machine) (motion : Text) :
    restated { m with vars := heading motion m.vars } =
      { m.restated with vars := heading motion m.restated.vars } := by
  have hne : Variable.restate ≠ Variable.motion := by decide
  have hflag : (heading motion m.vars).flag Variable.restate false =
      m.vars.flag Variable.restate false := by
    simp [heading, Memo.flag, hne]
  simp only [restated, hflag]
  split
  · simp only [heading, Memo.remove_set _ _ hne]
  · rfl

theorem Repeating.restated (h : m.Repeating) : m.restated.Repeating := by
  have hne : Variable.cycleOnce ≠ Variable.restate := by decide
  unfold Machine.restated
  split
  · exact ⟨h.active, by simpa [Memo.flag, hne] using h.repeated⟩
  · exact h

theorem Repeating.adapted_eq (h : m.Repeating) :
    m.adapted = { m with rack := m.rack.flag false (.register "Z") } := by
  rw [adapted, if_neg h.active, if_neg (by simp [h.repeated])]

theorem takePath_repeating (hm : m.active .cycle ≠ []) (start : Point) :
    ∃ log, ∀ rapid vars, (takePath start rapid).run { m with vars } = .ok () { m with
      circle := none
      log
      vars := if rapid then heading Motion.linear vars else vars
      stats := { m.stats with motions := m.stats.motions + 1 } } := by
  have hfollow : ∃ log, ∀ rapid vars, (followCircle start rapid).run { m with vars } =
      .ok false { m with vars, circle := none, log } := by
    simp only [followCircle_eq, EStateM.run_bind, EStateM.run_get]
    cases hc : m.circle with
    | none => exact ⟨m.log, fun rapid vars => congrArg (EStateM.Result.ok false) (by rw [← hc])⟩
    | some c =>
      refine ⟨⟨.warning, "circle dropped before a rapid or drilling move",
        m.subject ++ [atLine c.line]⟩ :: m.log, fun rapid vars => ?_⟩
      have hactive : active { m with vars, circle := some c } .cycle ≠ [] := hm
      simp only [hactive, ne_eq, not_false_eq_true, decide_true, Bool.or_true, if_true]
      rfl
  obtain ⟨log, hfollow⟩ := hfollow
  refine ⟨log, fun rapid vars => ?_⟩
  have hcode : (emitStraight rapid).run { m with vars, circle := none, log } =
      .ok () { m with vars, circle := none, log } :=
    emitStraight_drilling (m := { m with vars, circle := none, log }) hm
  rw [takePath, EStateM.run_bind, hfollow]
  simp only [Bool.not_false, onlyIf, if_true, EStateM.run_bind, hcode]
  cases rapid <;> rfl

theorem endAlike_queueMotion (hcoded : m.profile.Coded) (hm : m.Repeating) (ha : Announced m)
    (hn : Headed m n) (start : Point) :
    EndAlike (VarsBy SameEntries) ((queueMotion start).run m) ((queueMotion start).run n) := by
  obtain ⟨vars, rfl, rfl⟩ := hn
  have hrepeating := hm.restated
  have hrepeating' : Repeating
      { m.restated with vars := heading Motion.rapid m.restated.vars } := by
    have hne : Variable.cycleOnce ≠ Variable.motion := by decide
    exact ⟨hrepeating.active, by simpa [heading, Memo.flag, hne] using hrepeating.repeated⟩
  have hrapid : isRapid { m.restated with vars := heading Motion.rapid m.restated.vars } =
      true := by
    simp [isRapid, heading, Memo.text]
  obtain ⟨log, hpath⟩ := takePath_repeating
    (m := { m.restated with rack := m.restated.rack.flag false (.register "Z") })
      hrepeating.active start
  rw [queueMotion_run hcoded,
    queueMotion_run (m := { m with vars := heading Motion.rapid m.vars }) hcoded,
    restated_heading, hrepeating.adapted_eq, hrepeating'.adapted_eq, hrapid, hpath true,
    hpath m.restated.isRapid]
  refine ⟨rfl, _, rfl, fun key => ?_⟩
  -- whether or not the first motion was announced as rapid, the next one is announced as straight
  simp only [heading, Memo.set_set, if_true]
  split
  · rfl
  next hstraight =>
    by_cases hkey : key = Variable.motion
    · simp [hkey, ha.restated.not_rapid.mp (by simpa using hstraight)]
    · simp [hkey]

/-- While a cycle is repeated, a motion that is announced as rapid is like any other. -/
theorem endAlike_moveTo (hcoded : m.profile.Coded) (hm : m.Repeating) (ha : Announced m)
    (hn : Headed m n) (hne : c.numeric.isEmpty = false) :
    EndAlike (VarsBy SameEntries) ((moveTo c).run m) ((moveTo c).run n) := by
  let Fit (a : Machine) : Prop := a.profile.Coded ∧ a.Repeating ∧ Announced a
  let R (a b : Machine) : Prop := Headed a b ∧ Fit a
  have haxis {a a' : Machine} {f : Action Unit} {x : Unit} (hf : KeepsTo a.profile AxisMay f)
      (ha : Fit a) (h : f.run a = .ok x a') : Fit a' :=
    have ⟨rack, heq⟩ := rack_only (hf a rfl x a' h)
    heq ▸ ⟨ha.1, ⟨ha.2.1.active, ha.2.1.repeated⟩, ha.2.2⟩
  have hposition : n.position = m.position := by
    obtain ⟨vars, rfl, -⟩ := hn
    rfl
  rw [moveTo, if_neg (by simp [hne])]
  refine EndAlike.get ?_
  rw [hposition]
  refine EndAlike.bind (R := R) ?_ fun _ a b hab => EndAlike.bind (R := R) ?_ fun _ a b hab =>
    EndAlike.bind (endAlike_queueMotion hab.2.1 hab.2.2.1 hab.2.2.2 hab.1 _) fun _ a b hab => ?_
  · exact (blind_setCoordinates (upToMotion_heading _) c m n hn).and_left fun _ a h =>
      haxis (keepsTo_setCoordinates c) ⟨hcoded, hm, ha⟩ h
  · exact (endAlike_setToolAxis hab.1).and_left fun _ a' h => haxis (keepsTo_setToolAxis c) hab.2 h
  · refine EndAlike.bind (blind_writeBlock a b hab) fun _ a b hab => ?_
    obtain ⟨vars, rfl, hsame⟩ := hab
    have hcycle : vars.cycle? Variable.cycle = a.vars.cycle? Variable.cycle := by
      rw [Memo.cycle?, Memo.cycle?, hsame]
    simp only [callRepeated, EStateM.run_bind, EStateM.run_get, hcycle]
    split
    · exact blind_callCycle _ _ _ _ ⟨vars, rfl, hsame⟩
    · exact ⟨rfl, vars, rfl, hsame⟩

theorem adapted_idle (hm : ¬ m.Repeating) : m.adapted.active .cycle = [] := by
  have hgroups : ModalGroup.cycle.name ≠ ModalGroup.motion.name := by decide
  unfold adapted
  split
  case isTrue ha => exact ha
  case isFalse ha =>
    split
    case isTrue => simp [active, activeNamed, cancelled, Memo.text, hgroups]
    case isFalse honce => exact absurd ⟨ha, by simpa using honce⟩ hm

theorem adapted_others (m : Machine) :
    m.adapted.profile = m.profile ∧ m.adapted.circle = m.circle := by
  unfold adapted
  split
  · exact ⟨rfl, rfl⟩
  · split <;> exact ⟨rfl, rfl⟩

theorem restated_others (m : Machine) :
    m.restated.profile = m.profile ∧ m.restated.circle = m.circle ∧
    m.restated.isRapid = m.isRapid ∧ (m.restated.Repeating → m.Repeating) := by
  have hmotion : Variable.motion ≠ Variable.restate := by decide
  have honce : Variable.cycleOnce ≠ Variable.restate := by decide
  have htext : (m.vars.remove Variable.restate).text Variable.motion Motion.linear =
      m.vars.text Variable.motion Motion.linear := by
    simp [Memo.text, hmotion]
  unfold restated
  split
  · refine ⟨rfl, rfl, by rw [isRapid, isRapid, htext], fun h => ⟨h.active, ?_⟩⟩
    simpa [Memo.flag, honce] using h.repeated
  · exact ⟨rfl, rfl, rfl, id⟩

theorem followCircle_none (hcircle : m.circle = none) (start : Point) (rapid : Bool) :
    (followCircle start rapid).run m = .ok false m := by
  simp only [followCircle, EStateM.run_bind, EStateM.run_get, hcircle]
  rfl

theorem takePath_code {rapid : Bool} (hcoded : m.profile.Coded) (hcircle : m.circle = none)
    (hidle : m.active .cycle = []) (h : (takePath start rapid).run m = .ok u m') :
    m'.active .motion = m.profile.code (if rapid then .rapid else .linear) := by
  obtain ⟨arc, m₁, h₁, h⟩ := run_bind_ok.mp h
  cases (followCircle_none hcircle start rapid).symm.trans h₁
  obtain ⟨_, m₂, h₂, h⟩ := run_bind_ok.mp h
  simp only [Bool.not_false, onlyIf, if_true, emitStraight, EStateM.run_bind,
    EStateM.run_get, hidle, decide_true] at h₂
  rw [emitModal_run, if_neg (hcoded _)] at h₂
  cases h₂
  cases rapid <;> cases h <;> simp [active, activeNamed, selected, Memo.text, Profile.code]

theorem moveTo_code (hcoded : m.profile.Coded) (hcircle : m.circle = none) (hidle : ¬ m.Repeating)
    (hne : c.numeric.isEmpty = false) (h : (moveTo c).run m = .ok u m') :
    m'.active .motion = m.profile.code (if m.isRapid then .rapid else .linear) := by
  obtain ⟨m₁, m₂, m₃, h₁, h₂, h₃, taken, hcall⟩ := moveTo_ok hne h
  obtain ⟨rack₁, rfl⟩ := rack_only (keepsTo_setCoordinates (p := m.profile) c m rfl () m₁ h₁)
  obtain ⟨rack, rfl⟩ :=
    rack_only (keepsTo_setToolAxis (p := m.profile) c { m with rack := rack₁ } rfl () m₂ h₂)
  obtain ⟨hprofile, hfree, hrapid, hrepeating⟩ := restated_others { m with rack }
  obtain ⟨hprofile', hfree'⟩ := adapted_others (restated { m with rack })
  have hidle' : ¬ (restated { m with rack }).Repeating :=
    fun h => hidle ⟨(hrepeating h).active, (hrepeating h).repeated⟩
  have hcoded' : (restated { m with rack }).adapted.profile.Coded := by
    rw [hprofile', hprofile]
    exact hcoded
  have hpath := takePath_code hcoded' (hfree'.trans (hfree.trans hcircle))
    (adapted_idle hidle') (queueMotion_ok (m := { m with rack }) hcoded h₃)
  have hmodal : m'.modal = m₃.modal := by
    rw [← wroteBlock_modal m₃]
    refine (keepsTo_callRepeated (p := m₃.wroteBlock.profile) _ rfl _ _ hcall).kept
      (R := fun a b => b.modal = a.modal) (fun _ => rfl) (fun h h' => h'.trans h)
        fun d a b hd hab => ?_
    cases hd with
    | block =>
      cases hab
      exact wroteBlock_modal a
    | _ =>
      cases hab
      rfl
  rw [active, activeNamed, hmodal]
  rw [hprofile'.trans hprofile, hrapid] at hpath
  exact hpath

/-- Behind a `rapid` statement its announcement still stands, or it is used up and no
circle has been announced since. -/
def AfterRapid (m : Machine) : Prop :=
  m.last.major = "rapid" →
    heading Motion.rapid m.vars = m.vars ∨ m.isRapid = false ∧ m.circle = none

theorem Plain.not_rapid (h : Plain m) : m.isRapid = false :=
  (Announced.not_rapid (.inl h.straight)).mpr h.straight

theorem Step.afterRapid (hverbs : m.verbs = .standard) (hcoded : m.profile.Coded) (ha : Announced m)
    (hm : AfterRapid m) (h : Step c m m') : AfterRapid m' := by
  intro hlast
  rcases h.cases with ⟨-, stats, log, rfl⟩ | ⟨v, c', stats, log, m₁, hv, hp, rfl⟩
  · exact hm hlast
  · have hspelled := Verbs.resolve_spelled (hverbs ▸ hv)
    have hkept : m₁.last = m.last := perform_last (m := { m with stats, log }) hp
    by_cases hrow : c'.isContinuation = true
    · have hmajor : c'.major = Command.continuationWord := by
        simpa [Command.isContinuation] using hrow
      have hfound : Verbs.standard.find? Command.continuationWord = some .continuation := by decide
      rw [hmajor, hfound] at hspelled
      cases hspelled
      simp only [hrow, if_true, hkept] at hlast
      rw [perform, continueMotion_run] at hp
      split at hp
      · by_cases hne : c'.numeric.isEmpty = true
        · rw [moveTo, if_pos hne] at hp
          cases hp
          exact hm hlast
        · have hplain := moveTo_plain (m := { m with stats, log }) hcoded ha (by simpa using hne) hp
          exact .inr ⟨hplain.not_rapid, hplain.circle⟩
      · cases hp
        exact hm hlast
    · simp only [hrow] at hlast
      have hmajor : c'.major = "rapid" := hlast
      have hfound : Verbs.standard.find? "rapid" = some .rapid := by decide
      rw [hmajor, hfound] at hspelled
      cases hspelled
      change (moveTo c').run { m with stats, log, vars := heading Motion.rapid m.vars } = _ at hp
      by_cases hne : c'.numeric.isEmpty = true
      · rw [moveTo, if_pos hne] at hp
        cases hp
        exact .inl (Memo.set_set m.vars _ _ _)
      · have hannounced : Announced { m with stats, log, vars := heading Motion.rapid m.vars } :=
          .inr (by simp [heading])
        have hplain :=
          moveTo_plain (m := { m with stats, log, vars := heading Motion.rapid m.vars })
          hcoded hannounced (by simpa using hne) hp
        exact .inr ⟨hplain.not_rapid, hplain.circle⟩

/-! ## Rows and the statements that they repeat -/

theorem endAlike_dispatch {R : Machine → Machine → Prop} {c c' : Command} {v v' : Verb}
    (hv : m.verbs.resolve c = some (v, c)) (hv' : m.verbs.resolve c' = some (v', c'))
    (h : EndAlike R ((perform v c).run m.counted) ((perform v' c').run m.counted))
    (hR : ∀ a b, R a b → Agrees a b) :
    EndAlike Agrees ((dispatch c).run m) ((dispatch c').run m) := by
  rw [dispatch_run hv, dispatch_run hv']
  cases hr : (perform v c).run m.counted <;> cases hs : (perform v' c').run m.counted <;>
    rw [hr, hs] at h
  · obtain ⟨houtlet, hrack, hmodal, hvars⟩ := hR _ _ h.2
    refine ⟨rfl, ?_⟩
    split <;> split <;> exact ⟨houtlet, hrack, hmodal, hvars⟩
  · exact h.elim
  · exact h.elim
  · rename_i e _ e' _
    -- the failures of the two name their own commands; the machines stay
    cases e <;> cases e' <;> exact h

theorem dispatch_row (hverbs : m.verbs = .standard) (hrow : c.isContinuation = true)
    (hmoves : takesRows m.last = true) :
    m.verbs.resolve c = some (.continuation, c) ∧
      (perform .continuation c).run m.counted = (moveTo c).run m.counted := by
  refine ⟨hverbs ▸ Verbs.resolve_row hrow, ?_⟩
  have hlast : takesRows m.counted.last = true := hmoves
  rw [perform, continueMotion_run, if_pos hlast]

theorem row_as_goto (hverbs : m.verbs = .standard) (hrow : c.isContinuation = true)
    (hmoves : takesRows m.last = true) :
    EndAlike Agrees ((dispatch c).run m) ((dispatch { c with major := "goto" }).run m) := by
  have hgoto : Verbs.standard.find? "goto" = some .goto := by decide
  have hv : m.verbs.resolve { c with major := "goto" } =
      some (.goto, { c with major := "goto" }) := by
    simp only [hverbs, Verbs.resolve, hgoto]
  obtain ⟨hresolve, hrun⟩ := dispatch_row hverbs hrow hmoves
  refine endAlike_dispatch hresolve hv ?_ fun _ _ h => h
  rw [hrun]
  exact EndAlike.refl Agrees.refl

theorem resolve_rapid (hverbs : m.verbs = .standard) (c : Command) :
    m.verbs.resolve { c with major := "rapid" } = some (.rapid, { c with major := "rapid" }) := by
  have hrapid : Verbs.standard.find? "rapid" = some .rapid := by decide
  simp only [hverbs, Verbs.resolve, hrapid]

theorem row_as_rapid (hverbs : m.verbs = .standard) (hcoded : m.profile.Coded) (ha : Announced m)
    (hm : AfterRapid m) (hrow : c.isContinuation = true) (hne : c.numeric.isEmpty = false)
    (hlast : m.last.major = "rapid") (h : m.isRapid = true ∨ m.Repeating) :
    EndAlike Agrees ((dispatch c).run m) ((dispatch { c with major := "rapid" }).run m) := by
  obtain ⟨hresolve, hrun⟩ := dispatch_row hverbs hrow (by simp [takesRows, hlast])
  have hrun' : (perform .rapid { c with major := "rapid" }).run m.counted =
      (moveTo c).run { m.counted with vars := heading Motion.rapid m.vars } := rfl
  rcases h with hrapid | hrepeating
  · refine endAlike_dispatch hresolve (resolve_rapid hverbs c) ?_ fun _ _ h => h
    have hvars : heading Motion.rapid m.vars = m.vars :=
      (hm hlast).resolve_right fun h => by simp [hrapid] at h
    rw [hrun, hrun', hvars]
    exact EndAlike.refl Agrees.refl
  · refine endAlike_dispatch hresolve (resolve_rapid hverbs c) ?_ fun _ _ => VarsBy.agrees
    rw [hrun, hrun']
    exact endAlike_moveTo (m := m.counted) hcoded ⟨hrepeating.active, hrepeating.repeated⟩ ha
      ⟨_, rfl, rfl⟩ hne

theorem row_straightens (hverbs : m.verbs = .standard) (hcoded : m.profile.Coded)
    (hm : AfterRapid m) (hrow : c.isContinuation = true) (hne : c.numeric.isEmpty = false)
    (hlast : m.last.major = "rapid") (hstraight : m.isRapid = false) (hidle : ¬ m.Repeating)
    {a b : Machine} (h : (dispatch c).run m = .ok () a)
    (h' : (dispatch { c with major := "rapid" }).run m = .ok () b) :
    a.active .motion = m.profile.code .linear ∧ b.active .motion = m.profile.code .rapid := by
  have hvars : heading Motion.rapid m.vars ≠ m.vars := by
    intro heq
    rw [isRapid, ← heq] at hstraight
    simp [heading, Memo.text] at hstraight
  have hcircle := ((hm hlast).resolve_left hvars).2
  have hkey : Variable.cycleOnce ≠ Variable.motion := by decide
  constructor
  · obtain ⟨hresolve, hrun⟩ := dispatch_row hverbs hrow (by simp [takesRows, hlast])
    rw [dispatch_run hresolve, hrun] at h
    cases hmove : (moveTo c).run m.counted with
    | ok x a' =>
      simp only [hmove, hrow, if_true] at h
      cases h
      have hcode := moveTo_code (m := m.counted) hcoded hcircle
        (fun h => hidle ⟨h.active, h.repeated⟩) hne hmove
      have hcounted : m.counted.isRapid = false := hstraight
      rw [hcounted, if_neg Bool.false_ne_true] at hcode
      exact hcode
    | error e a' =>
      rw [hmove] at h
      cases e <;> cases h
  · rw [dispatch_run (resolve_rapid hverbs c)] at h'
    have hrun : (perform .rapid { c with major := "rapid" }).run m.counted =
        (moveTo c).run { m.counted with vars := heading Motion.rapid m.vars } := rfl
    rw [hrun] at h'
    cases hmove : (moveTo c).run { m.counted with vars := heading Motion.rapid m.vars } with
    | ok x b' =>
      have hcode :=
        moveTo_code (m := { m.counted with vars := heading Motion.rapid m.vars }) hcoded hcircle
        (fun h => hidle ⟨h.active, by simpa [heading, Memo.flag, hkey] using h.repeated⟩) hne hmove
      have hrapid : isRapid { m.counted with vars := heading Motion.rapid m.vars } = true := by
        simp [isRapid, heading, Memo.text]
      rw [hrapid, if_pos rfl] at hcode
      simp only [hmove] at h'
      split at h' <;> cases h' <;> exact hcode
    | error e b' =>
      rw [hmove] at h'
      cases e <;> cases h'

/-- In every run a row behind a motion comes to what a `goto` statement comes to.
Behind `rapid` it comes to what a `rapid` statement comes to just when the next
motion is still announced as rapid or a canned cycle is repeated, provided that
straight and rapid motions have different codes. -/
theorem row_replays_iff {p : Profile} {m₀ m : Machine} {steps : List (Command × Machine)}
    {notes : List Note} {c : Command} (haccepted : p.Accepted) (hopens : Opens p m₀)
    (hrun : Leads m₀ steps) (hm : m = (final m₀ steps).addNotes notes)
    (hrow : c.isContinuation = true) (hnumber : c.numeric ≠ []) :
    (takesRows m.last = true →
      EndAlike Agrees ((dispatch c).run m) ((dispatch { c with major := "goto" }).run m)) ∧
    (m.last.major = Text.ofString "rapid" →
      (m.isRapid = true ∨ m.Repeating →
        EndAlike Agrees ((dispatch c).run m) ((dispatch { c with major := "rapid" }).run m)) ∧
      (p.code .rapid ≠ p.code .linear → ∀ a, (dispatch c).run m = .ok () a →
        EndAlike Agrees ((dispatch c).run m) ((dispatch { c with major := "rapid" }).run m) →
        m.isRapid = true ∨ m.Repeating)) := by
  let Known (a : Machine) : Prop := a.profile = p ∧ a.verbs = .standard ∧ Announced a ∧ AfterRapid a
  have hstep : ∀ c a b, Known a → Step c a b → Known b := by
    rintro c a b ⟨hprofile, hverbs, ha, hafter⟩ h
    exact ⟨h.course.profile.trans hprofile, h.course.alike.verbs.trans hverbs, h.announced ha,
      h.afterRapid hverbs (hprofile ▸ haccepted.coded) ha hafter⟩
  have hafter₀ : AfterRapid m₀ := by
    intro hlast
    rw [hopens.last] at hlast
    exact absurd hlast (by decide)
  obtain ⟨hprofile, hverbs, ha, hafter⟩ : Known m := by
    rw [hm]
    exact hrun.kept hstep ⟨hopens.fresh.profile, hopens.fresh.verbs, hopens.announced, hafter₀⟩
  have hcoded : m.profile.Coded := hprofile ▸ haccepted.coded
  have hne : c.numeric.isEmpty = false := by simpa using hnumber
  refine ⟨row_as_goto hverbs hrow, fun hlast =>
    ⟨row_as_rapid hverbs hcoded ha hafter hrow hne hlast, ?_⟩⟩
  intro hcodes a hrowed halike
  by_contra hneither
  obtain ⟨hstraight, hidle⟩ := not_or.mp hneither
  rw [hrowed] at halike
  cases hrapid : (dispatch { c with major := "rapid" }).run m with
  | error e b =>
    rw [hrapid] at halike
    exact halike
  | ok x b =>
    rw [hrapid] at halike
    obtain ⟨hlinear, hrapid⟩ :=
      row_straightens hverbs hcoded hafter hrow hne hlast (by simpa using hstraight)
      hidle hrowed hrapid
    have hsame : b.active .motion = a.active .motion := by
      rw [active, active, activeNamed, activeNamed, Memo.text, Memo.text, halike.2.modal]
    exact hcodes (by rw [← hprofile, ← hrapid, ← hlinear, hsame])

set_option maxRecDepth 100000 in
theorem row_replays_iff_drilling :
    ∃ (m₀ : Machine) (steps : List (Command × Machine)) (c : Command),
    Opens { cycleStyle := .code } m₀ ∧ Leads m₀ steps ∧ steps.length = 2 ∧
      c.isContinuation = true ∧ c.numeric = [4, 5, 6] ∧
      (final m₀ steps).last.major = Text.ofString "rapid" ∧ (final m₀ steps).isRapid = false ∧
      EndAlike Agrees ((dispatch c).run (final m₀ steps))
        ((dispatch { c with major := "rapid" }).run (final m₀ steps)) := by
  let p : Profile := { cycleStyle := .code }
  let cs : List Command :=
    [{ major := "cycle", minor := ["drill"], numeric := [10, 2] },
      { major := "rapid", numeric := [1, 2, 3] }]
  let c : Command := { major := "continuation", numeric := [4, 5, 6] }
  let check (m₀ : Machine) (steps : List (Command × Machine)) (_ : Machine) : Bool :=
    (final m₀ steps).last.major = "rapid" && !(final m₀ steps).isRapid &&
      (final m₀ steps).active .cycle ≠ [] && !(final m₀ steps).vars.flag Variable.cycleOnce false
  have hparse : (Profile.parse "\x7b\"cycleStyle\":\"gcode\"\x7d" .json []).toOption = some p := by
    decide +kernel
  have hcheck : rehearse p cs c check = true := by decide +kernel
  obtain ⟨m₀, steps, m', hopens, hrun, hcs, -, hcheck⟩ := exists_of_rehearse hcheck
  simp only [check, Bool.and_eq_true, decide_eq_true_eq, Bool.not_eq_true'] at hcheck
  obtain ⟨⟨⟨hlast, hstraight⟩, hactive⟩, honce⟩ := hcheck
  have hlength : steps.length = 2 := by rw [← List.length_map Prod.fst, hcs]; rfl
  refine ⟨m₀, steps, c, hopens, hrun, hlength, rfl, rfl, hlast, hstraight, ?_⟩
  have hsame : final m₀ steps = (final m₀ steps).addNotes [] := rfl
  exact ((row_replays_iff (Profile.accepted_of_parse hparse) hopens hrun hsame rfl
    (by simp [c])).2 hlast).1 (.inr ⟨hactive, honce⟩)

set_option maxRecDepth 100000 in
/-- A row behind a rapid motion is straight, where a second `rapid` statement is rapid. -/
theorem row_behind_rapid_straight : ∃ (m₀ a b : Machine) (steps : List (Command × Machine)),
    Opens {} m₀ ∧ Leads m₀ steps ∧
    steps.map Prod.fst = [{ major := "rapid", numeric := [1, 2, 3] }] ∧
      (dispatch { major := "continuation", numeric := [4, 5, 6] }).run (final m₀ steps) = .ok () a ∧
      (dispatch { major := "rapid", numeric := [4, 5, 6] }).run (final m₀ steps) = .ok () b ∧
      a.active .motion = Text.ofString "G1" ∧ b.active .motion = Text.ofString "G0" := by
  let cs : List Command := [{ major := "rapid", numeric := [1, 2, 3] }]
  let row : Command := { major := "continuation", numeric := [4, 5, 6] }
  let rapid : Command := { major := "rapid", numeric := [4, 5, 6] }
  let check (m₀ : Machine) (steps : List (Command × Machine)) (_ : Machine) : Bool :=
    match (dispatch row).run (final m₀ steps), (dispatch rapid).run (final m₀ steps) with
    | .ok _ a, .ok _ b => a.active .motion = "G1" && b.active .motion = "G0"
    | _, _ => false
  have hcheck : rehearse {} cs row check = true := by decide +kernel
  obtain ⟨m₀, steps, m', hopens, hrun, hcs, -, hcheck⟩ := exists_of_rehearse hcheck
  simp only [check] at hcheck
  split at hcheck
  case h_1 _ a _ b hrow hrapid =>
    simp only [Bool.and_eq_true, decide_eq_true_eq] at hcheck
    exact ⟨m₀, a, b, steps, hopens, hrun, hcs, hrow, hrapid, hcheck⟩
  case h_2 => cases hcheck

end Machine
end Toolpath
