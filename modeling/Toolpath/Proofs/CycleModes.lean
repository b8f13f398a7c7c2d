import Toolpath.Proofs.Cycles
import Toolpath.Proofs.Queue

/-!
# Modes of canned cycles

A canned cycle is off, drills one hole, or drills at every position. The mode shows in the active
code, the cycle that is remembered and the mark of a single hole. A command changes all of them
together, and queues one cancel code when it turns a cycle off and none otherwise.
-/

namespace Toolpath

def Queued.cancels : Queued → Bool
  | .code c => c.function = Function.cycleCancel.name
  | _ => false

namespace Machine

variable {S : Machine → Deed → Prop} {p : Profile} {m m' m'' : Machine} {d : Deed} {v : Verb}

def cancels (m : Machine) : Nat := m.ledger.countP Queued.cancels

inductive Mode
  | off
  | repeated
  | once
deriving DecidableEq

def InMode (m : Machine) : Mode → Prop
  | .off => m.active .cycle = [] ∧ m.vars.get? Variable.cycle = none ∧
      m.vars.get? Variable.cycleOnce = none
  | .repeated => m.active .cycle ≠ [] ∧ (∃ c, m.vars.get? Variable.cycle = some (.cycle c)) ∧
      m.vars.get? Variable.cycleOnce = none
  | .once => m.active .cycle ≠ [] ∧ (∃ c, m.vars.get? Variable.cycle = some (.cycle c)) ∧
      m.vars.get? Variable.cycleOnce = some (.flag true)

theorem InMode.active_iff {k : Mode} (hk : InMode m k) : m.active .cycle ≠ [] ↔ k ≠ .off := by
  cases k <;> simp [hk.1]

theorem InMode.active_iff_cycle {k : Mode} (hk : InMode m k) :
    m.active .cycle ≠ [] ↔ (m.vars.cycle? Variable.cycle).isSome = true := by
  rw [hk.active_iff]
  cases k with
  | off => simp [Memo.cycle?, hk.2.1]
  | repeated | once =>
    obtain ⟨c, hc⟩ := hk.2.1
    simp [Memo.cycle?, hc]

theorem InMode.active_of_once {k : Mode} (hk : InMode m k)
    (h : m.vars.contains Variable.cycleOnce = true) : m.active .cycle ≠ [] := by
  cases k with
  | off => simp [Memo.contains, hk.2.2] at h
  | repeated => exact hk.1
  | once => exact hk.1

theorem InMode.once_iff {k : Mode} (hk : InMode m k) :
    m.vars.flag Variable.cycleOnce false = decide (k = .once) := by
  cases k <;> simp [Memo.flag, hk.2.2]

def Idle : Deed → Prop
  | .assign key _ => key ≠ Variable.cycle ∧ key ≠ Variable.cycleOnce
  | .unassign key => key ≠ Variable.cycle ∧ key ≠ Variable.cycleOnce
  | .select group function => group ≠ ModalGroup.cycle.name ∧ function ≠ Function.cycleCancel.name
  | .forget group => group ≠ ModalGroup.cycle.name
  | .queue q => q.Proper ∧ q.cancels = false
  | _ => True

structure Idles (m m' : Machine) : Prop where
  active : m'.active .cycle = m.active .cycle
  cycle : m'.vars.get? Variable.cycle = m.vars.get? Variable.cycle
  once : m'.vars.get? Variable.cycleOnce = m.vars.get? Variable.cycleOnce
  cancels : m'.cancels = m.cancels

theorem Idles.refl (m : Machine) : Idles m m := ⟨rfl, rfl, rfl, rfl⟩

theorem Idles.trans (h : Idles m m') (h' : Idles m' m'') : Idles m m'' :=
  ⟨h'.active.trans h.active, h'.cycle.trans h.cycle, h'.once.trans h.once,
    h'.cancels.trans h.cancels⟩

theorem Idles.inMode {k : Mode} (h : Idles m m') (hk : InMode m k) : InMode m' k := by
  cases k <;> simpa only [InMode, h.active, h.cycle, h.once] using hk

theorem Does.idles (h : Does d m m') (hd : Idle d) (hm : Sound m) : Idles m m' := by
  cases h with
  | assign _ key v =>
    refine ⟨rfl, ?_, ?_, rfl⟩
    · simp [hd.1.symm]
    · simp [hd.2.symm]
  | unassign _ key =>
    refine ⟨rfl, ?_, ?_, rfl⟩
    · simp [hd.1.symm]
    · simp [hd.2.symm]
  | select _ group function known =>
    refine ⟨?_, rfl, rfl, ?_⟩
    · simp [selected, active, activeNamed, Memo.text, hd.1.symm]
    · simp only [selected, cancels, ledger]
      split
      · simp [BlockWriter.queue, Queued.cancels, hd.2]
      · rfl
  | forget _ group =>
    refine ⟨?_, rfl, rfl, rfl⟩
    simp [active, activeNamed, Memo.text, Ne.symm hd]
  | queue _ q =>
    refine ⟨rfl, rfl, rfl, ?_⟩
    simp [cancels, ledger, BlockWriter.queue, hd.2]
  | block =>
    refine ⟨?_, ?_, ?_, by rw [cancels, cancels, wroteBlock_ledger hm]⟩
    · rw [active, active, activeNamed, activeNamed, wroteBlock_modal]
    all_goals rw [wroteBlock_vars]
  | _ => exact ⟨rfl, rfl, rfl, rfl⟩

theorem Idle.orderly (hd : Idle d) : Orderly d := by
  cases d with
  | queue q => exact hd.1
  | _ => trivial

theorem Course.idles (hS : ∀ m d, S m d → Idle d) (h : Course S m m') (hm : Sound m) :
    Sound m' ∧ Idles m m' := by
  refine h.kept (R := fun a b => Sound a → Sound b ∧ Idles a b) (fun m hm => ⟨hm, Idles.refl m⟩)
    (fun h h' ha => ?_) (fun d a b hd hab ha => ?_) hm
  · have hb := h ha
    have hc := h' hb.1
    exact ⟨hc.1, hb.2.trans hc.2⟩
  · have hidle := hS a d hd
    exact ⟨hab.sound hidle.orderly ha, hab.idles hidle ha⟩

/-! ## Which verbs are idle -/

theorem idle_select {g : ModalGroup} {f : Function} (hg : g ≠ .cycle) (hf : f ≠ .cycleCancel) :
    Idle (.select g.name f.name) := by
  constructor
  · cases g <;> first | decide | exact absurd rfl hg
  · cases f <;> first | decide | exact absurd rfl hf

theorem idle_code {f : Function} (known : p.code f ≠ []) (hf : f ≠ .cycleCancel) :
    Idle (.queue (codeOf p f)) :=
  ⟨known, decide_eq_false (idle_select (g := .motion) (by decide) hf).2⟩

theorem AxisMay.idle (h : AxisMay m d) : Idle d := by
  cases h
  trivial

theorem RestateMay.idle (h : RestateMay m d) : Idle d := by
  cases h with
  | point => trivial
  | restated => exact ⟨by decide, by decide⟩

theorem PathMay.idle (h : PathMay m d) : Idle d := by
  cases h with
  | motionCode f hf => exact idle_select (by decide) (by rintro rfl; simp at hf)
  | straightened => exact ⟨by decide, by decide⟩
  | _ => trivial

theorem WrapUpMay.idle (h : WrapUpMay p m d) : Idle d := by
  cases h with
  | spindleOff => exact idle_select (by decide) (by decide)
  | coolantOff => exact idle_select (by decide) (by decide)
  | programEnd known => exact idle_code known (by decide)
  | finished => exact ⟨by decide, by decide⟩
  | _ => trivial

def LeavesCycle (v : Verb) : Prop :=
  v.moves = false ∧ v ∉ [Verb.drillHere, .deepDrillHere, .cycle, .finish]

theorem May.idle (hv : LeavesCycle v) (h : Verb.May p m v d) : Idle d := by
  have hsub : ∀ vs ∈ [[Verb.drillHere, .deepDrillHere, .cycle], [Verb.cycle, .finish]], v ∉ vs := by
    have := hv.2
    simp_all
  cases h with
  | move hmoves => simp [hv.1] at hmoves
  | start hstart => exact absurd hstart (hsub _ (by simp))
  | cancel hcancel => exact absurd hcancel (hsub _ (by simp))
  | wrapUp => exact absurd (by simp) hv.2
  | name v key t hname =>
    have hkey : key = Variable.partNumber ∨ key = Variable.operation := by
      simp only [List.mem_cons, Prod.mk.injEq, List.not_mem_nil, or_false] at hname
      exact hname.imp And.right And.right
    rcases hkey with rfl | rfl <;> exact ⟨by decide, by decide⟩
  | spindleSetting h =>
    cases h with
    | assign key v hkey =>
      simp only [List.mem_cons, List.not_mem_nil, or_false] at hkey
      rcases hkey with rfl | rfl | rfl | rfl <;> exact ⟨by decide, by decide⟩
  | planeCode pl => exact idle_select (by decide) (by cases pl <;> decide)
  | spindleCode s => exact idle_select (by decide) (by cases s <;> decide)
  | cutcom f hf => exact idle_select (by decide) (by rintro rfl; simp at hf)
  | coolantCode f hf => exact idle_select (by decide) (by rintro rfl; simp at hf)
  | homeCode => exact idle_select (by decide) (by decide)
  | home known => exact idle_code known (by decide)
  | toolChange known => exact idle_code known (by decide)
  | dwell known => exact idle_code known (by decide)
  | toolMotion => exact (by decide : ModalGroup.motion.name ≠ ModalGroup.cycle.name)
  | toolWord => exact ⟨rfl, rfl⟩
  | homeAxis n | dwellTime n => exact ⟨orderly_numeric n, rfl⟩
  | book | remark | clearFlags | feed | circle | speed | toolNumber | block => trivial
  | plane | homeRestate | homeMotion | multiAxis | coolantKind | tool | toolRestate | dwellSum =>
    exact ⟨by decide, by decide⟩

/-- The mode turns from `k` to `k'`, with one cancel code if that ends a cycle. -/
structure Turns (k k' : Mode) (m m' : Machine) : Prop where
  sound : Sound m'
  mode : InMode m' k'
  cancels : m'.cancels = m.cancels + if k ≠ .off ∧ k' = .off then 1 else 0

variable {k k' : Mode} {c : DrillCycle} {once : Bool} {u : Unit}

theorem Turns.of_idles (hk : InMode m k) (h : Sound m' ∧ Idles m m') : Turns k k m m' := by
  refine ⟨h.1, h.2.inMode hk, ?_⟩
  have : ¬(k ≠ .off ∧ k = .off) := fun h => h.1 h.2
  rw [h.2.cancels, if_neg this, Nat.add_zero]

theorem Turns.then_idle (h : Turns k k' m m') (h' : Sound m'' ∧ Idles m' m'') : Turns k k' m m'' :=
  ⟨h'.1, h'.2.inMode h.mode, h'.2.cancels.trans h.cancels⟩

theorem Turns.idle_then (h : Idles m m') (h' : Turns k k' m' m'') : Turns k k' m m'' :=
  ⟨h'.sound, h'.mode, by rw [h'.cancels, h.cancels]⟩

theorem Turns.then_block (h : Turns k k' m m')
    (taken : ∀ t, (m'.writer.assemble m'.rack true).1 = some t → (m'.outlet.writeLine t).1 = none) :
    Turns k k' m m'.wroteBlock :=
  have hblock := Does.block m' taken
  h.then_idle ⟨hblock.sound trivial h.sound, hblock.idles trivial h.sound⟩

theorem cancelled_turns (hcoded : m.profile.Coded) (hk : k ≠ .off) (hm : Sound m) :
    Turns k .off m m.cancelled := by
  have hcode : (codeOf m.profile .cycleCancel).Proper := hcoded .cycleCancel
  refine ⟨hm.congr rfl rfl ?_, ⟨?_, ?_, ?_⟩, ?_⟩
  · simpa [cancelled, BlockWriter.queue, or_imp, forall_and] using ⟨hm.proper, hcode⟩
  · simp [active, activeNamed, cancelled, Memo.text]
  · simp [cancelled]
  · simp [cancelled]
  · simp [cancelled, Machine.cancels, ledger, BlockWriter.queue, codeOf, Queued.cancels, hk]
    omega

theorem cancelCycle_turns (hcoded : m.profile.Coded) (style : m.profile.cycleStyle = .code)
    (hm : Sound m) (hk : InMode m k) (h : cancelCycle.run m = .ok u m') : Turns k .off m m' := by
  rw [cancelCycle_run hcoded style] at h
  by_cases ha : m.active .cycle = []
  · rw [if_pos ha] at h
    cases h
    cases k with
    | off => exact Turns.of_idles hk ⟨hm, Idles.refl m⟩
    | repeated => exact absurd ha hk.1
    | once => exact absurd ha hk.1
  · rw [if_neg ha] at h
    obtain ⟨taken, rfl⟩ := writeBlock_ok.mp h
    have hoff : k ≠ .off := by
      rintro rfl
      exact ha hk.1
    have hturns := cancelled_turns hcoded hoff hm
    have hassign := Does.assign m.cancelled Variable.restate (.flag true)
    refine (hturns.then_idle ⟨hassign.sound trivial hturns.sound, ?_⟩).then_block taken
    exact hassign.idles ⟨by decide, by decide⟩ hturns.sound

theorem cannedWords_quiet (hcoded : m.profile.Coded) :
    (∀ q ∈ m.cannedWords c, q.Proper) ∧ (m.cannedWords c).countP Queued.cancels = 0 := by
  have hname : c.code.name ≠ Function.cycleCancel.name := by
    unfold DrillCycle.code
    split <;> decide
  constructor
  · intro q hq
    rcases List.mem_cons.mp hq with rfl | hq
    · exact hcoded c.code
    · obtain ⟨w, -, rfl⟩ := List.mem_map.mp hq
      exact orderly_numeric _
  · refine List.countP_eq_zero.mpr fun q hq => ?_
    rcases List.mem_cons.mp hq with rfl | hq
    · simp [Queued.cancels, hname]
    · obtain ⟨w, -, rfl⟩ := List.mem_map.mp hq
      simp [Queued.cancels]

def modeOf (once : Bool) : Mode := if once then .once else .repeated

theorem started_turns (once : Bool) (hcoded : m.profile.Coded) (hm : Sound m) :
    Turns k (modeOf once) m (m.started c once) := by
  obtain ⟨hproper, hcount⟩ := cannedWords_quiet (c := c) hcoded
  have hmode : ∀ m' : Machine, m'.active .cycle ≠ [] → m'.vars = (m.marked c once).vars →
      InMode m' (modeOf once) := by
    intro m' ha hv
    have hne : Variable.cycle ≠ Variable.cycleOnce := by decide
    cases once <;> refine ⟨ha, ⟨c, ?_⟩, ?_⟩ <;> simp [hv, marked, hne]
  have hon : modeOf once ≠ .off := by cases once <;> decide
  unfold started
  by_cases ha : m.announces c once = true
  · rw [if_pos ha]
    refine ⟨hm.congr rfl rfl ?_, hmode _ ?_ rfl, ?_⟩
    · simpa [canned, marked, or_imp, forall_and] using ⟨hm.proper, hproper⟩
    · have hne : ModalGroup.cycle.name ≠ ModalGroup.motion.name := by decide
      simpa [canned, marked, active, activeNamed, Memo.text, hne] using hcoded c.code
    · have hwords : (m.marked c once).cannedWords c = m.cannedWords c := rfl
      simp only [canned, cancels, ledger, List.countP_append, hwords, hcount]
      simp [marked, hon]
  · rw [if_neg ha]
    have hactive : m.active .cycle ≠ [] := by simp_all [announces]
    refine ⟨hm.congr rfl rfl hm.proper, hmode _ hactive rfl, ?_⟩
    simp [marked, cancels, ledger, hon]

theorem startCycle_turns (once : Bool) (hcoded : m.profile.Coded)
    (style : m.profile.cycleStyle = .code)
    (hm : Sound m) (h : (startCycle c once).run m = .ok u m') : Turns k (modeOf once) m m' := by
  simp only [startCycle, EStateM.run_bind, EStateM.run_get, style] at h
  have h := startCanned_ok hcoded h
  have hturns := started_turns (k := k) (c := c) once hcoded hm
  cases once with
  | false =>
    cases h
    exact hturns
  | true =>
    obtain ⟨taken, rfl⟩ := writeBlock_ok.mp h
    exact hturns.then_block taken

theorem restated_idles (hm : Sound m) : Sound m.restated ∧ Idles m m.restated :=
  Course.idles (fun _ _ h => h.idle)
    (keepsTo_restatePosition (p := m.profile) m rfl () m.restated restatePosition_run) hm

def Mode.moved : Mode → Mode
  | .once => .off
  | k => k

theorem adapted_turns (hcoded : m.profile.Coded) (hm : Sound m) (hk : InMode m k) :
    Turns k k.moved m m.adapted := by
  have hflag (m : Machine) (b : Bool) (hm : Sound m) :
      Sound { m with rack := m.rack.flag b (.register "Z") } ∧
        Idles m { m with rack := m.rack.flag b (.register "Z") } :=
    ⟨(Does.flag m b "Z").sound trivial hm, (Does.flag m b "Z").idles trivial hm⟩
  unfold adapted
  cases k with
  | off =>
    rw [if_pos hk.1]
    exact Turns.of_idles hk ⟨hm, Idles.refl m⟩
  | repeated =>
    rw [if_neg hk.1, hk.once_iff]
    exact Turns.of_idles hk (hflag m false hm)
  | once =>
    rw [if_neg hk.1, hk.once_iff]
    have hturns := cancelled_turns (k := .once) hcoded (by decide) hm
    exact hturns.then_idle (hflag m.cancelled true hturns.sound)

theorem queueMotion_turns {start : Point} (hcoded : m.profile.Coded) (hm : Sound m)
    (hk : InMode m k) (h : (queueMotion start).run m = .ok u m') : Turns k k.moved m m' := by
  have hprofile : m.restated.profile = m.profile :=
    (keepsTo_restatePosition (p := m.profile) m rfl () m.restated restatePosition_run).profile
  obtain ⟨hsound, hidles⟩ := restated_idles hm
  have hturns := adapted_turns (hprofile ▸ hcoded) hsound (hidles.inMode hk)
  have hpath := keepsTo_takePath (p := m.restated.adapted.profile) start _ _ rfl u m'
    (queueMotion_ok hcoded h)
  exact Turns.idle_then hidles (hturns.then_idle (hpath.idles (fun _ _ h => h.idle) hturns.sound))

theorem moveTo_turns {c : Command} (hcoded : m.profile.Coded) (style : m.profile.cycleStyle = .code)
    (hm : Sound m) (hk : InMode m k) (hne : c.numeric.isEmpty = false)
    (h : (moveTo c).run m = .ok u m') : Turns k k.moved m m' := by
  obtain ⟨m₁, m₂, haxis, hqueue, taken, rfl⟩ := moveTo_canned style hne h
  obtain ⟨hsound, hidles⟩ := haxis.idles (fun _ _ h => h.idle) hm
  have hturns := queueMotion_turns (haxis.profile ▸ hcoded) hsound (hidles.inMode hk) hqueue
  exact Turns.idle_then hidles (hturns.then_block taken)

def Mode.next (k : Mode) (m : Machine) (v : Verb) (c : Command) : Mode :=
  match v with
  | .cycle =>
    if c.hasMinor ["off"] then .off
    else if c.hasMinor ["drill"] || c.hasMinor ["deep"] then .repeated
    else k
  | .drillHere | .deepDrillHere => if c.numeric.isEmpty then k else .once
  | .finish => .off
  | v => if m.movesBy v c then k.moved else k

theorem repeatCycle_turns {c : Command} (hcoded : m.profile.Coded)
    (style : m.profile.cycleStyle = .code) (hm : Sound m) (hk : InMode m k)
    (h : (repeatCycle c).run m = .ok u m') : Turns k (k.next m .cycle c) m m' := by
  have hfeed (i : Nat) (d : DrillCycle)
      (h : (do setCycleFeed c i; startCycle d false).run m = .ok u m') :
      Turns k .repeated m m' := by
    obtain ⟨_, m₁, h₁, h₂⟩ := run_bind_ok.mp h
    have hcourse : Course (fun _ d => Idle d) m m₁ := by
      refine (?_ : KeepsTo m.profile _ (setCycleFeed c i)) m rfl _ m₁ h₁
      rw [setCycleFeed]
      split
      · exact keepsTo_setRegister (fun _ _ => trivial) _
      · exact keepsTo_pure ()
    obtain ⟨hsound, hidles⟩ := hcourse.idles (fun _ _ h => h) hm
    have hprofile := hcourse.profile
    exact Turns.idle_then hidles
      (startCycle_turns false (hprofile ▸ hcoded) (hprofile ▸ style) hsound h₂)
  simp only [repeatCycle, EStateM.run_bind, EStateM.run_get] at h
  unfold Mode.next
  split at h
  case isTrue hoff =>
    simp only [hoff, if_true]
    exact cancelCycle_turns hcoded style hm hk h
  case isFalse hoff =>
    simp only [hoff, if_false, Bool.false_eq_true]
    split at h
    case isTrue hdrill =>
      simp only [hdrill, Bool.true_or, if_true]
      exact hfeed _ _ h
    case isFalse hdrill =>
      split at h
      case isTrue hdeep =>
        simp only [hdeep, Bool.or_true, if_true]
        exact hfeed _ _ h
      case isFalse hdeep =>
        simp only [hdrill, hdeep, Bool.or_self, if_false, Bool.false_eq_true]
        cases h
        exact Turns.of_idles hk ⟨hm.congr rfl rfl hm.proper, ⟨rfl, rfl, rfl, rfl⟩⟩

theorem drillHere_turns {c : Command} {d : DrillCycle} (hcoded : m.profile.Coded)
    (style : m.profile.cycleStyle = .code) (hm : Sound m) (hk : InMode m k)
    (h : (drillHere c d).run m = .ok u m') :
    Turns k (if c.numeric.isEmpty then k else .once) m m' := by
  unfold drillHere at h
  split
  case isTrue hne =>
    rw [if_pos hne] at h
    cases h
    exact Turns.of_idles hk ⟨hm, Idles.refl m⟩
  case isFalse hne =>
    rw [if_neg hne] at h
    exact startCycle_turns true hcoded style hm h

theorem finish_turns {c : Command} (hcoded : m.profile.Coded) (style : m.profile.cycleStyle = .code)
    (hm : Sound m) (hk : InMode m k) (h : (finish c).run m = .ok u m') : Turns k .off m m' := by
  obtain ⟨_, m₁, h₁, h₂⟩ := run_bind_ok.mp h
  have hturns := cancelCycle_turns hcoded style hm hk h₁
  have hcourse := keepsTo_wrapUp (p := m₁.profile) c m₁ rfl u m' h₂
  exact hturns.then_idle (hcourse.idles (fun _ _ h => h.idle) hturns.sound)

theorem announced_idles (m : Machine) (v : Verb) :
    Idles m { m with vars := announced v m.vars } := by
  have hne : ∀ key ∈ [Variable.motion, Variable.restate],
      Variable.cycle ≠ key ∧ Variable.cycleOnce ≠ key := by decide
  have hmotion := hne Variable.motion (by simp)
  have hrestate := hne Variable.restate (by simp)
  unfold announced
  split <;> exact ⟨rfl, by simp [hmotion, hrestate], by simp [hmotion, hrestate], rfl⟩

theorem motion_turns {c : Command} (hcoded : m.profile.Coded) (style : m.profile.cycleStyle = .code)
    (hm : Sound m) (hk : InMode m k) (hv : v.moves = true) (h : (perform v c).run m = .ok u m') :
    Turns k (if m.movesBy v c then k.moved else k) m m' := by
  cases hmoves : m.movesBy v c with
  | true =>
    rw [perform_moving hmoves] at h
    have hidles := announced_idles m v
    have hsound : Sound { m with vars := announced v m.vars } :=
      hm.congr rfl rfl hm.proper
    exact Turns.idle_then hidles
      (moveTo_turns hcoded style hsound (hidles.inMode hk) (numeric_of_movesBy hmoves) h)
  | false =>
    obtain ⟨vars, log, rfl, hvars⟩ := perform_still hv hmoves h
    refine Turns.of_idles hk ⟨hm.congr rfl rfl hm.proper, ?_⟩
    rcases hvars with rfl | rfl
    · exact ⟨rfl, rfl, rfl, rfl⟩
    · have h := announced_idles m .rapid
      exact ⟨rfl, h.cycle, h.once, rfl⟩

theorem perform_turns {c : Command} (hcoded : m.profile.Coded)
    (style : m.profile.cycleStyle = .code)
    (hm : Sound m) (hk : InMode m k) (h : (perform v c).run m = .ok u m') :
    Turns k (k.next m v c) m m' := by
  cases v with
  | cycle => exact repeatCycle_turns hcoded style hm hk h
  | drillHere => exact drillHere_turns hcoded style hm hk h
  | deepDrillHere => exact drillHere_turns hcoded style hm hk h
  | finish => exact finish_turns hcoded style hm hk h
  | goto => exact motion_turns hcoded style hm hk rfl h
  | rapid => exact motion_turns hcoded style hm hk rfl h
  | start => exact motion_turns hcoded style hm hk rfl h
  | continuation => exact motion_turns hcoded style hm hk rfl h
  | _ =>
    have hcourse := keepsTo_perform (p := m.profile) _ c m rfl u m' h
    exact Turns.of_idles hk (hcourse.idles (fun _ _ hd => May.idle ⟨rfl, by simp⟩ hd) hm)

def Mode.after (k : Mode) (m : Machine) (c : Command) : Mode :=
  match m.verbs.resolve c with
  | some (v, c') => k.next m v c'
  | none => k

theorem after_of_moves {c : Command} (h : m.moves c = true) : k.after m c = k.moved := by
  unfold moves at h
  unfold Mode.after
  cases hv : m.verbs.resolve c with
  | none =>
    rw [hv] at h
    cases h
  | some p =>
    obtain ⟨v, c'⟩ := p
    rw [hv] at h
    cases v <;> first | cases h | simp [Mode.next, h]

theorem Step.turns {c : Command} (hcoded : m.profile.Coded) (style : m.profile.cycleStyle = .code)
    (hm : Sound m) (hk : InMode m k) (h : Step c m m') : Turns k (k.after m c) m m' := by
  have hbooked (a b : Machine) (hab : Does .book a b) (ha : Sound a) : Sound b ∧ Idles a b :=
    ⟨hab.sound trivial ha, hab.idles trivial ha⟩
  unfold Mode.after
  rcases h.cases with ⟨hv, stats, log, rfl⟩ | ⟨v, c', stats, log, m₁, hv, hp, rfl⟩
  · rw [hv]
    exact Turns.of_idles hk (hbooked _ _ (.book m m.tools stats m.cycles m.last log) hm)
  · rw [hv]
    obtain ⟨hsound, hidles⟩ := hbooked _ _ (.book m m.tools stats m.cycles m.last log) hm
    have hturns := perform_turns (m := { m with stats, log }) hcoded style hsound hk hp
    have hnext : k.next { m with stats, log } v c' = k.next m v c' := by cases v <;> rfl
    rw [hnext] at hturns
    have hlast := hbooked _ _ (.book m₁ m₁.tools m₁.stats m₁.cycles
      (if c'.isContinuation then m₁.last else c') m₁.log) hturns.sound
    exact (Turns.idle_then hidles hturns).then_idle hlast

def stopsBy (v : Verb) (c : Command) : Bool :=
  match v with
  | .cycle => c.hasMinor ["off"]
  | .finish => true
  | _ => false

def stops (m : Machine) (c : Command) : Bool :=
  m.active .cycle ≠ [] && (m.verbs.resolve c).any fun vc => stopsBy vc.1 vc.2

/-- The command ends the active cycle: it stops it, or it is a motion behind a
cycle that drills one hole. -/
def ends (m : Machine) (c : Command) : Bool :=
  m.stops c || (m.active .cycle ≠ [] && m.vars.flag Variable.cycleOnce false && m.moves c)

theorem moved_eq_off (hk : k ≠ .off) : k.moved = .off ↔ k = .once := by
  cases k <;> simp_all [Mode.moved]

theorem next_eq_off {c : Command} (hk : k ≠ .off) :
    k.next m v c = .off ↔ stopsBy v c = true ∨ k = .once ∧ m.movesBy v c = true := by
  have hmotion : (if m.movesBy v c then k.moved else k) = .off ↔ k = .once ∧
      m.movesBy v c = true := by
    by_cases hmoves : m.movesBy v c = true <;> simp [hmoves, moved_eq_off hk, hk]
  cases v with
  | cycle =>
    have hstill : m.movesBy .cycle c = false := rfl
    by_cases hoff : c.hasMinor ["off"] = true
    · simp [Mode.next, stopsBy, hoff]
    · simp only [Mode.next, hoff, if_false, Bool.false_eq_true]
      split <;> simp [stopsBy, hoff, hstill, hk]
  | drillHere | deepDrillHere =>
    simp only [Mode.next, stopsBy, movesBy, Verb.moves]
    split <;> simp [hk]
  | finish => simp [Mode.next, stopsBy]
  | _ => simpa [stopsBy, Mode.next] using hmotion

theorem ends_iff {c : Command} (hk : InMode m k) :
    m.ends c = true ↔ k ≠ .off ∧ k.after m c = .off := by
  by_cases hoff : k = .off
  · subst hoff
    simp [ends, stops, hk.1]
  · have hactive : m.active .cycle ≠ [] := hk.active_iff.mpr hoff
    have honce := hk.once_iff
    cases hv : m.verbs.resolve c with
    | none => simp [ends, stops, moves, Mode.after, hv, hoff]
    | some vc => simp [ends, stops, moves, Mode.after, hv, hoff, hactive, honce, next_eq_off hoff]

end Machine
end Toolpath
