import Toolpath.Proofs.CycleModes
import Toolpath.Proofs.ModalEvents
import Toolpath.Proofs.QueuedWords

/-!
# Codes are stated when they change

The active code of a group is the one that was queued for it last, and two codes that follow each
other differ. The motion code alone is forgotten at times: where the tool is changed, and where a
canned cycle is started or ends. The next motion then states its code.
-/

namespace Toolpath.Machine

variable {p : Profile} {g : ModalGroup} {m m' m'' : Machine} {d : Deed} {v : Verb}
  {c : Command} {u : Unit} {es : List (Option Text)}

def pathFunctions : List Function := [.rapid, .linear, .arcClockwise, .arcCounter]

/-- From the first machine to the second, the code of the function was stated in the
group where it had to be. -/
structure Takes (g : ModalGroup) (f : Function) (m m' : Machine) : Prop where
  tells : Tells g m ((change (m.active g) (m.profile.code f)).map some) m'
  active : m'.active g = m.profile.code f

variable {f : Function} {start : Point}

theorem Takes.then_none (h : Takes g f m m') (h' : Tells g m' [] m'') : Takes g f m m'' :=
  ⟨h.tells.then_none h', h'.active_eq.trans h.active⟩

theorem Takes.of_none (h : Tells g m [] m') (hprofile : m'.profile = m.profile)
    (h' : Takes g f m' m'') : Takes g f m m'' := by
  obtain ⟨htells, hactive⟩ := h'
  rw [hprofile, h.active_eq] at htells
  exact ⟨h.none_then htells, by rw [hactive, hprofile]⟩

theorem emitModal_takes (hcoded : m.profile.Coded) (hm : Sound m)
    (h : (emitModal g f).run m = .ok u m') : Takes g f m m' := by
  rw [emitModal_run, if_neg (hcoded f)] at h
  cases h
  obtain ⟨htells, hactive⟩ := selected_tells (g := g) (hcoded f) hm
  exact ⟨htells, hactive⟩

theorem emitArcWords_takes {f : Frame} {circle : Circle} {winding : Winding}
    (hcoded : m.profile.Coded) (hm : Sound m)
    (h : (emitArcWords f circle winding start).run m = .ok u m') :
    Takes .motion winding.code m m' := by
  have hword {p : Profile} (name : Text) (x : Float) :
      KeepsTo p (fun _ d => Bypasses .motion d) (setArcWord name x) :=
    keepsTo_bind (keepsTo_setRegister (fun _ _ => trivial) x) fun _ =>
      keepsTo_flag fun _ _ _ => trivial
  obtain ⟨_, _, hget, h⟩ := run_bind_ok.mp h
  cases hget
  obtain ⟨_, m₁, hcode, h⟩ := run_bind_ok.mp h
  have htakes := emitModal_takes hcoded hm hcode
  refine htakes.then_none
    (Course.bypasses (fun _ _ hd => hd) (?_ : Course _ m₁ m') htakes.tells.sound)
  refine (?_ : KeepsTo m₁.profile (fun _ d => Bypasses .motion d) _) m₁ rfl u m' h
  refine keepsTo_bind (keepsTo_flag fun _ _ _ => trivial) fun _ => ?_
  refine keepsTo_get fun _ _ => keepsTo_ite (hword _ _) ?_
  refine keepsTo_bind (keepsTo_forIn _ fun a => ?_) fun _ => keepsTo_pure _
  exact keepsTo_bind (hword _ _) fun _ => keepsTo_pure _

theorem PathMay.bypasses_cycle (h : PathMay m d) : Bypasses .cycle d := by
  cases h with
  | motionCode => exact name_ne (by decide)
  | _ => trivial

theorem PathMay.bypasses_motion (h : PathMay m d) (ha : m.active .cycle ≠ []) :
    Bypasses .motion d := by
  cases h with
  | motionCode _ _ hnone => exact absurd hnone ha
  | _ => trivial

theorem Course.drilling (h : Course PathMay m m') (hm : Sound m) (ha : m.active .cycle ≠ []) :
    Tells .motion m [] m' := by
  refine (h.kept (R := fun a b => Sound a → a.active .cycle ≠ [] →
    Tells .motion a [] b ∧ b.active .cycle ≠ []) (fun _ hm ha => ⟨.refl hm, ha⟩)
    (fun h h' hm ha => ?_) (fun d a b hd hab hm ha => ?_) hm ha).1
  · obtain ⟨hfirst, hactive⟩ := h hm ha
    obtain ⟨hsecond, hactive'⟩ := h' hfirst.sound hactive
    exact ⟨hfirst.trans hsecond, hactive'⟩
  · exact ⟨hab.bypasses (hd.bypasses_motion ha) hm,
      (hab.bypasses hd.bypasses_cycle hm).active_eq ▸ ha⟩

theorem followCircle_takes {rapid arc : Bool} (hcoded : m.profile.Coded) (hm : Sound m)
    (h : (followCircle start rapid).run m = .ok arc m') :
    if arc then ∃ f ∈ pathFunctions, Takes .motion f m m' else Tells .motion m [] m' := by
  have hsame {m m' : Machine} (hm : Sound m) (hd : Does .book m m') : Tells .motion m [] m' :=
    hd.bypasses trivial hm
  have hwarn (text : Text) (details : List (Text × Detail)) {m m' : Machine} (hm : Sound m)
      (h : (do note .warning text details; return false : Action Bool).run m = .ok arc m') :
      arc = false ∧ Tells .motion m [] m' := by
    cases h
    exact ⟨rfl, hsame hm (.book m m.tools m.stats m.cycles m.last _)⟩
  rw [followCircle_eq] at h
  obtain ⟨_, _, hget, h⟩ := run_bind_ok.mp h
  cases hget
  split at h
  · cases h
    exact Tells.refl hm
  · obtain ⟨_, _, hdrop, h⟩ := run_bind_ok.mp h
    cases hdrop
    have hdropped : Tells .motion m [] { m with circle := none } :=
      (Does.circle m none).bypasses trivial hm
    split at h
    · obtain ⟨rfl, htells⟩ := hwarn _ _ hdropped.sound h
      exact hdropped.trans htells
    · dsimp only at h
      split at h
      case h_1 winding _ =>
        obtain ⟨_, m₁, harc, h⟩ := run_bind_ok.mp h
        cases h
        refine ⟨winding.code, ?_,
          .of_none hdropped rfl (emitArcWords_takes hcoded hdropped.sound harc)⟩
        cases winding <;> simp [pathFunctions, Winding.code]
      case h_2 =>
        obtain ⟨rfl, htells⟩ := hwarn _ _ hdropped.sound h
        exact hdropped.trans htells

theorem takePath_takes {rapid : Bool} (hcoded : m.profile.Coded) (hm : Sound m)
    (ha : m.active .cycle = []) (h : (takePath start rapid).run m = .ok u m') :
    ∃ f ∈ pathFunctions, Takes .motion f m m' := by
  have hrest (p : Profile) : KeepsTo p (fun _ d => Bypasses .motion d) (do
      onlyIf rapid (setVariable Variable.motion (.text Motion.linear))
      count fun s => { s with motions := s.motions + 1 }) :=
    keepsTo_bind (keepsTo_onlyIf (keepsTo_setVariable fun _ => trivial)) fun _ =>
      keepsTo_count (fun _ => trivial) _
  obtain ⟨arc, m₁, h₁, h⟩ := run_bind_ok.mp h
  have hcircle := followCircle_takes hcoded hm h₁
  have hcourse := keepsTo_followCircle (p := m.profile) start rapid m rfl arc m₁ h₁
  obtain ⟨_, m₂, h₂, h⟩ := run_bind_ok.mp h
  have hlast {f : Function} (htakes : Takes .motion f m m₂) : Takes .motion f m m' :=
    htakes.then_none ((hrest m₂.profile m₂ rfl u m' h).bypasses
      (fun _ _ hd => hd) htakes.tells.sound)
  cases arc with
  | true =>
    cases h₂
    obtain ⟨f, hf, htakes⟩ := hcircle
    exact ⟨f, hf, hlast htakes⟩
  | false =>
    have hactive : m₁.active .cycle = [] :=
      (hcourse.bypasses (fun _ _ hd => hd.bypasses_cycle) hm).active_eq.trans ha
    simp only [onlyIf, emitStraight, Bool.not_false, if_true, EStateM.run_bind,
      EStateM.run_get, hactive, decide_true] at h₂
    have htakes := emitModal_takes (hcourse.profile ▸ hcoded) hcircle.sound h₂
    refine ⟨_, ?_, hlast (.of_none hcircle hcourse.profile htakes)⟩
    cases rapid <;> simp [pathFunctions]

def drillsOnce (m : Machine) : Bool := m.active .cycle ≠ [] && m.vars.flag Variable.cycleOnce false

def knownMotion (m : Machine) : Text := if m.drillsOnce then [] else m.active .motion

/-- What a motion does to the motion code from the first machine to the second: it forgets
the code when it ends a single hole, and states that of its path when no cycle is active. -/
def Travels (m m' : Machine) : Prop :=
  ∃ ks : List Text, Tells .motion m ((if m.drillsOnce then [none] else []) ++ ks.map some) m' ∧
    (m'.active .cycle = [] → ∃ f ∈ pathFunctions,
      ks = change m.knownMotion (m.profile.code f) ∧ m'.active .motion = m.profile.code f)

theorem Idles.drillsOnce (h : Idles m m') : m'.drillsOnce = m.drillsOnce := by
  rw [Machine.drillsOnce, Machine.drillsOnce, h.active, Memo.flag, Memo.flag, h.once]

theorem cancelled_tells (hcoded : m.profile.Coded) (hm : Sound m) :
    Tells .motion m [none] m.cancelled := by
  have hproper : (codeOf m.profile .cycleCancel).Proper := hcoded .cycleCancel
  refine .of_forgotten (hm.congr rfl rfl ?_) ?_ ?_
  · simpa [cancelled, BlockWriter.queue, or_imp, forall_and] using ⟨hm.proper, hproper⟩
  · rw [codes_queued (m := m) rfl]
    simp [codeOf, Queued.codeFor?]
  · simp [cancelled, active, activeNamed, Memo.text]

theorem adapted_tells (hcoded : m.profile.Coded) (hm : Sound m) :
    Tells .motion m (if m.drillsOnce then [none] else []) m.adapted := by
  unfold adapted drillsOnce
  by_cases ha : m.active .cycle = []
  · simpa [ha] using Tells.refl hm
  · cases honce : m.vars.flag Variable.cycleOnce false with
    | true =>
      have hcancelled := cancelled_tells hcoded hm
      have hflag : Tells .motion m.cancelled []
          { m.cancelled with rack := m.rack.flag true (.register "Z") } :=
        (Does.flag m.cancelled true "Z").bypasses trivial hcancelled.sound
      simpa [ha] using hcancelled.then_none hflag
    | false => simpa [ha] using (Does.flag m false "Z").bypasses trivial hm

theorem Tells.known (h : Tells .motion m (if m.drillsOnce then [none] else []) m') :
    m'.active .motion = m.knownMotion := by
  have hlast := h.turnover.last
  unfold knownMotion
  cases hd : m.drillsOnce with
  | true => simpa [hd] using hlast
  | false => simpa [hd] using hlast

theorem AxisMay.bypasses (h : AxisMay m d) : Bypasses g d := by
  cases h
  trivial

theorem RestateMay.bypasses (h : RestateMay m d) : Bypasses g d := by
  cases h <;> trivial

theorem queueMotion_travels (hcoded : m.profile.Coded) (hm : Sound m)
    (h : (queueMotion start).run m = .ok u m') : Travels m m' := by
  have hrestate := keepsTo_restatePosition (p := m.profile) m rfl () m.restated restatePosition_run
  have hfirst := hrestate.bypasses (g := .motion) (fun _ _ hd => hd.bypasses) hm
  have hadapted := adapted_tells (hrestate.profile ▸ hcoded) hfirst.sound
  rw [(restated_idles hm).2.drillsOnce] at hadapted
  have hbefore := hfirst.none_then hadapted
  have hadapt := keepsTo_adaptToCycle (p := m.restated.profile) m.restated rfl () m.restated.adapted
    (adaptToCycle_run (hrestate.profile ▸ hcoded))
  have hprofile : m.restated.adapted.profile = m.profile := hadapt.profile.trans hrestate.profile
  have hpath := queueMotion_ok hcoded h
  have hcourse := keepsTo_takePath (p := m.restated.adapted.profile) start _ _ rfl u m' hpath
  have hcycle :=
    (hcourse.bypasses (g := .cycle) (fun _ _ hd => hd.bypasses_cycle) hbefore.sound).active_eq
  by_cases ha : m.restated.adapted.active .cycle = []
  · obtain ⟨f, hf, htells, hactive⟩ := takePath_takes (hprofile ▸ hcoded) hbefore.sound ha hpath
    rw [hbefore.known, hprofile] at htells
    exact ⟨_, hbefore.trans htells, fun _ => ⟨f, hf, rfl, hprofile ▸ hactive⟩⟩
  · refine ⟨[], hbefore.trans (hcourse.drilling hbefore.sound ha), fun hnone => ?_⟩
    exact absurd (hcycle.symm.trans hnone) ha

theorem moveTo_travels (hcoded : m.profile.Coded) (hm : Sound m) (hne : c.numeric.isEmpty = false)
    (h : (moveTo c).run m = .ok u m') : Travels m m' := by
  obtain ⟨m₁, m₂, m₃, h₁, h₂, h₃, taken, hcall⟩ := moveTo_ok hne h
  have haxis := (keepsTo_setCoordinates (p := m.profile) c m rfl () m₁ h₁).trans
    (keepsTo_setToolAxis (p := m₁.profile) c m₁ rfl () m₂ h₂)
  have hfirst := haxis.bypasses (g := .motion) (fun _ _ hd => hd.bypasses) hm
  have honce := (haxis.idles (fun _ _ hd => hd.idle) hm).2.drillsOnce
  have hknown : m₂.knownMotion = m.knownMotion := by
    rw [knownMotion, knownMotion, honce, hfirst.active_eq]
  obtain ⟨ks, hqueue, hpath⟩ := queueMotion_travels (haxis.profile ▸ hcoded) hfirst.sound h₃
  rw [honce] at hqueue
  rw [hknown, haxis.profile] at hpath
  -- Behind the block there is at most the call of a cycle, which belongs to no group.
  have hlast {g : ModalGroup} : Tells g m₃ [] m' := by
    have hblock := (Does.block m₃ taken).bypasses (g := g) trivial hqueue.sound
    have hrest := keepsTo_callRepeated (p := m₃.wroteBlock.profile) m₃.wroteBlock rfl () m' hcall
    exact hblock.trans (hrest.bypasses (fun _ _ hd => hd.bypasses) hblock.sound)
  refine ⟨ks, (hfirst.none_then hqueue).then_none hlast, fun hnone => ?_⟩
  rw [hlast.active_eq] at hnone ⊢
  exact hpath hnone

def changesTool (m : Machine) (v : Verb) (c : Command) : Bool :=
  match v, c.numeric with
  | .loadTool, number :: _ => !m.holdsTool (Number.truncate (Number.round number))
  | _, _ => false

theorem flushesBy_loadTool (m : Machine) (c : Command) :
    m.flushesBy .loadTool c = m.changesTool .loadTool c := by
  unfold flushesBy changesTool
  cases c.numeric <;> rfl

/-- Whether the verb starts a canned cycle: one that drills a hole here, or one for all
positions to come that is not active already. -/
def startsCanned (m : Machine) (v : Verb) (c : Command) : Bool :=
  m.profile.cycleStyle = .code &&
    match v with
    | .drillHere | .deepDrillHere => !c.numeric.isEmpty
    | .cycle => (m.repeats? c).any (m.announces · false)
    | _ => false

variable {α β : Type} {a : Action α}

def Says (g : ModalGroup) (es : List (Option Text)) (a : Action α) : Prop :=
  ∀ m x m', Sound m → a.run m = .ok x m' → Tells g m es m'

theorem says_none (ha : ∀ p, KeepsTo p (fun _ d => Bypasses g d) a) : Says g [] a :=
  fun m x m' hm h => (ha m.profile m rfl x m' h).bypasses (fun _ _ hd => hd) hm

theorem says_then {f : α → Action β} (ha : ∀ p, KeepsTo p (fun _ d => Bypasses g d) a)
    (hf : ∀ x, Says g es (f x)) : Says g es (a >>= f) := by
  intro m y m' hm h
  obtain ⟨x, m₁, h₁, h₂⟩ := run_bind_ok.mp h
  have hfirst := says_none ha m x m₁ hm h₁
  exact hfirst.none_then (hf x m₁ y m' hfirst.sound h₂)

theorem says_forget (ha : ∀ p, KeepsTo p (fun _ d => Bypasses g d) a) :
    Says g [none] (do forget g; a) := by
  intro m x m' hm h
  obtain ⟨_, m₁, h₁, h₂⟩ := run_bind_ok.mp h
  cases h₁
  have hfirst : Tells g m [none] { m with modal := m.modal.remove g.name } := by
    refine .of_forgotten ((Does.forget m g.name).sound trivial hm) rfl ?_
    simp [active, activeNamed, Memo.text]
  exact hfirst.then_none (says_none ha _ x m' hfirst.sound h₂)

theorem loadTool_tells (hm : Sound m) (h : (loadTool c).run m = .ok u m') :
    Tells .motion m (if m.changesTool .loadTool c then [none] else []) m' := by
  cases hchange : m.changesTool .loadTool c with
  | false =>
    obtain ⟨log, rfl⟩ := perform_declined (by simp) ((flushesBy_loadTool m c).trans hchange) h
    exact (Does.book m m.tools m.stats m.cycles m.last log).bypasses trivial hm
  | true =>
    unfold loadTool at h
    unfold changesTool at hchange
    split at h
    case h_1 hc => simp [hc] at hchange
    case h_2 number rest hc =>
      have hholds : m.holdsTool (Number.truncate (Number.round number)) = false := by
        simpa [hc] using hchange
      obtain ⟨_, _, hget, h⟩ := run_bind_ok.mp h
      cases hget
      rw [if_neg (by simp [hholds])] at h
      refine (?_ : Says .motion [none] _) m u m' hm h
      refine says_then (fun _ => keepsTo_modify fun a _ => ?_) fun _ => ?_
      · split
        · exact Course.refl
        · have hbook : Bypasses .motion .book := trivial
          exact Course.one hbook (.book a _ a.stats a.cycles a.last a.log)
      refine says_then (fun _ => keepsTo_setVariable fun _ => trivial) fun _ => ?_
      refine says_then (fun _ => keepsTo_count (fun _ => trivial) _) fun _ => ?_
      refine says_then (fun _ => keepsTo_setRegister (fun _ _ => trivial) _) fun _ => ?_
      refine says_then (fun _ => keepsTo_queue fun _ => ⟨rfl, rfl⟩) fun _ => ?_
      refine says_then (fun _ => keepsTo_emit (fun _ => trivial) fun _ known =>
        ⟨known, rfl⟩) fun _ => ?_
      refine says_forget fun _ => keepsTo_bind (keepsTo_setVariable fun _ => trivial) fun _ => ?_
      exact keepsTo_writeBlock fun _ => trivial

theorem StartMay.bypasses (style : p.cycleStyle = .call) (h : StartMay p m d) : Bypasses g d := by
  cases h with
  | call h => exact h.bypasses
  | forget _ _ hcode | code _ _ hcode | depth _ hcode => simp [style] at hcode
  | _ => trivial

theorem CancelMay.bypasses (style : p.cycleStyle = .call) (h : CancelMay p m d) : Bypasses g d := by
  cases h with
  | cancel _ _ hcode | forget _ _ hcode => simp [style] at hcode
  | _ => trivial

theorem WrapUpMay.bypasses (h : WrapUpMay p m d) : Bypasses .motion d := by
  cases h with
  | spindleOff | coolantOff => exact name_ne (by decide)
  | programEnd known => exact ⟨known, rfl⟩
  | _ => trivial

def Uncanned (m : Machine) : Prop := m.profile.cycleStyle = .call → m.active .cycle = []

theorem cancelCycle_tells (hcoded : m.profile.Coded) (hm : Sound m) (huncanned : Uncanned m)
    (h : cancelCycle.run m = .ok u m') :
    Tells .motion m (if m.active .cycle ≠ [] then [none] else []) m' := by
  cases hs : m.profile.cycleStyle with
  | call =>
    have hcourse := keepsTo_cancelCycle (p := m.profile) m rfl u m' h
    simpa [huncanned hs] using hcourse.bypasses (g := .motion) (fun _ _ hd => hd.bypasses hs) hm
  | code =>
    rw [cancelCycle_run hcoded hs] at h
    by_cases ha : m.active .cycle = []
    · rw [if_pos ha] at h
      cases h
      simpa [ha] using Tells.refl hm
    · rw [if_neg ha] at h
      obtain ⟨taken, rfl⟩ := writeBlock_ok.mp h
      have hcancelled := cancelled_tells hcoded hm
      have hassign := (Does.assign m.cancelled Variable.restate (.flag true)).bypasses
        (g := .motion) trivial hcancelled.sound
      have hblock := (Does.block _ taken).bypasses (g := .motion) trivial hassign.sound
      simpa [ha] using hcancelled.then_none (hassign.trans hblock)

theorem started_tells (d : DrillCycle) (once : Bool) (hcoded : m.profile.Coded) (hm : Sound m) :
    Tells .motion m (if m.announces d once then [none] else []) (m.started d once) := by
  have hsound := (started_turns (k := .off) (c := d) once hcoded hm).sound
  have hwords : (m.cannedWords d).filterMap (Queued.codeFor? .motion) = [] := by
    have hne : ModalGroup.cycle.name ≠ ModalGroup.motion.name := name_ne (by decide)
    refine List.filterMap_eq_nil_iff.mpr fun q hq => ?_
    rcases List.mem_cons.mp hq with rfl | hq
    · simp [Queued.codeFor?, hne]
    · obtain ⟨w, -, rfl⟩ := List.mem_map.mp hq
      rfl
  unfold started at hsound ⊢
  cases ha : m.announces d once with
  | false =>
    simp only [ha] at hsound
    exact .of_same hsound rfl rfl
  | true =>
    simp only [ha] at hsound
    refine .of_forgotten hsound ?_ ?_
    · have hledger : ((m.marked d once).canned d).ledger = m.ledger ++ m.cannedWords d :=
        (List.append_assoc _ _ _).symm
      exact (congrArg _ hledger).trans (by rw [List.filterMap_append, hwords, List.append_nil]; rfl)
    · simp [canned, marked, active, activeNamed, Memo.text]

theorem startCycle_tells {d : DrillCycle} {once : Bool} (hcoded : m.profile.Coded) (hm : Sound m)
    (h : (startCycle d once).run m = .ok u m') :
    Tells .motion m
      (if m.profile.cycleStyle = .code ∧ m.announces d once = true then [none] else []) m' := by
  cases hs : m.profile.cycleStyle with
  | call =>
    have hcourse := keepsTo_startCycle (p := m.profile) d once m rfl u m' h
    simpa using hcourse.bypasses (g := .motion) (fun _ _ hd => hd.bypasses hs) hm
  | code =>
    simp only [startCycle, EStateM.run_bind, EStateM.run_get, hs] at h
    have h := startCanned_ok hcoded h
    have hstarted := started_tells d once hcoded hm
    simp only [true_and]
    cases once with
    | false =>
      cases h
      exact hstarted
    | true =>
      obtain ⟨taken, rfl⟩ := writeBlock_ok.mp h
      exact hstarted.then_none ((Does.block _ taken).bypasses trivial hstarted.sound)

/-- Whether the verb changes the tool, starts a canned cycle or ends the active one. -/
def forgetsBy (m : Machine) (v : Verb) (c : Command) : Bool :=
  m.changesTool v c || m.startsCanned v c || (m.active .cycle ≠ [] && stopsBy v c) ||
    (m.drillsOnce && m.movesBy v c)

theorem forgetsBy_eq (m : Machine) (v : Verb) (c : Command) : m.forgetsBy v c =
    match v with
    | .loadTool => m.changesTool .loadTool c
    | .drillHere | .deepDrillHere => m.startsCanned .drillHere c
    | .cycle => m.startsCanned .cycle c || (m.active .cycle ≠ [] && c.hasMinor ["off"])
    | .finish => m.active .cycle ≠ []
    | v => m.drillsOnce && m.movesBy v c := by
  cases v <;> simp [forgetsBy, changesTool, startsCanned, stopsBy, movesBy, Verb.moves]

def forgets (m : Machine) (c : Command) : Bool :=
  ((m.verbs.resolve c).any fun vc => m.changesTool vc.1 vc.2 || m.startsCanned vc.1 vc.2) ||
    m.ends c

theorem forgets_some {c' : Command} (hv : m.verbs.resolve c = some (v, c')) :
    m.forgets c = m.forgetsBy v c' := by
  simp [forgets, forgetsBy, ends, stops, moves, drillsOnce, hv, Bool.or_assoc]

theorem motion_travels (hcoded : m.profile.Coded) (hm : Sound m) (hmoves : m.movesBy v c = true)
    (h : (perform v c).run m = .ok u m') : Travels m m' := by
  rw [perform_moving hmoves] at h
  have honce := (announced_idles m v).drillsOnce
  have hfirst : Tells .motion m [] { m with vars := announced v m.vars } :=
    .of_same (hm.congr rfl rfl hm.proper) rfl rfl
  obtain ⟨ks, htells, hpath⟩ := moveTo_travels (m := { m with vars := announced v m.vars }) hcoded
    hfirst.sound (numeric_of_movesBy hmoves) h
  rw [honce] at htells
  rw [knownMotion, honce] at hpath
  exact ⟨ks, hfirst.none_then htells, hpath⟩

theorem drillHere_tells {d : DrillCycle} (hcoded : m.profile.Coded) (hm : Sound m)
    (h : (drillHere c d).run m = .ok u m') :
    Tells .motion m (if m.startsCanned .drillHere c then [none] else []) m' := by
  unfold drillHere at h
  cases hc : c.numeric.isEmpty with
  | true =>
    rw [hc, if_pos rfl] at h
    cases h
    simpa [startsCanned, hc] using Tells.refl hm
  | false =>
    rw [hc, if_neg (by simp)] at h
    simpa [startsCanned, hc, announces] using startCycle_tells hcoded hm h

theorem repeatCycle_tells (hcoded : m.profile.Coded) (hm : Sound m) (huncanned : Uncanned m)
    (h : (repeatCycle c).run m = .ok u m') :
    Tells .motion m
      (if m.startsCanned .cycle c ||
        (m.active .cycle ≠ [] && c.hasMinor ["off"]) then [none] else []) m' := by
  rcases repeatCycle_ok hcoded h with
    ⟨hoff, hcancel⟩ | ⟨hoff, hnone, log, rfl⟩ | ⟨d, i, m₁, hd, hfeed, rfl⟩
  · have hnone : m.repeats? c = none := by simp [repeats?, hoff]
    simpa [startsCanned, hnone, hoff] using cancelCycle_tells hcoded hm huncanned hcancel
  · have hbook := (Does.book m m.tools m.stats m.cycles m.last log).bypasses
      (g := .motion) trivial hm
    simpa [startsCanned, hnone, hoff] using hbook
  · have hoff : c.hasMinor ["off"] = false := by
      by_contra hoff
      simp [repeats?, hoff] at hd
    have hfeed' : KeepsTo m.profile (fun _ d => Bypasses .motion d) (setCycleFeed c i) := by
      rw [setCycleFeed]
      split
      · exact keepsTo_setRegister (fun _ _ => trivial) _
      · exact keepsTo_pure ()
    have hfirst := (hfeed' m rfl () m₁ hfeed).bypasses (fun _ _ hd => hd) hm
    obtain ⟨rack, rfl, -⟩ := setCycleFeed_ok hfeed
    have hannounces : ({ m with rack } : Machine).announces d false = m.announces d false := rfl
    cases hs : m.profile.cycleStyle with
    | code =>
      have hstarted := started_tells (m := { m with rack }) d false hcoded hfirst.sound
      simpa [startsCanned, hd, hoff, hs, begun, hannounces] using hfirst.none_then hstarted
    | call =>
      have hassign := (Does.assign { m with rack } Variable.cycle (.cycle d)).bypasses
        (g := .motion) trivial hfirst.sound
      simpa [startsCanned, hoff, hs, begun] using hfirst.trans hassign

theorem finish_tells (hcoded : m.profile.Coded) (hm : Sound m) (huncanned : Uncanned m)
    (h : (finish c).run m = .ok u m') :
    Tells .motion m (if m.active .cycle ≠ [] then [none] else []) m' := by
  obtain ⟨_, m₁, h₁, h₂⟩ := run_bind_ok.mp h
  have hcancel := cancelCycle_tells hcoded hm huncanned h₁
  have hcourse := keepsTo_wrapUp (p := m₁.profile) c m₁ rfl u m' h₂
  exact hcancel.then_none (hcourse.bypasses (fun _ _ hd => hd.bypasses) hcancel.sound)

theorem perform_tells (hcoded : m.profile.Coded) (hm : Sound m) (huncanned : Uncanned m)
    (h : (perform v c).run m = .ok u m') :
    ∃ ks : List Text,
      Tells .motion m ((if m.forgetsBy v c then [none] else []) ++ ks.map some) m' := by
  have hsilent {es : List (Option Text)} (htells : Tells .motion m es m') :
      Tells .motion m (es ++ ([] : List Text).map some) m' := by simpa using htells
  have hmotion (hv : v.moves = true) : ∃ ks : List Text,
      Tells .motion m ((if m.drillsOnce && m.movesBy v c then [none] else []) ++
        ks.map some) m' := by
    cases hmoves : m.movesBy v c with
    | true =>
      obtain ⟨ks, htells, -⟩ := motion_travels hcoded hm hmoves h
      exact ⟨ks, by simpa using htells⟩
    | false =>
      obtain ⟨vars, log, rfl, -⟩ := perform_still hv hmoves h
      have hsame : Tells .motion m [] { m with vars, log } :=
        .of_same (hm.congr rfl rfl hm.proper) rfl rfl
      exact ⟨[], by simpa using hsame⟩
  rw [forgetsBy_eq]
  cases v with
  | goto | rapid | start | continuation => exact hmotion rfl
  | loadTool => exact ⟨[], hsilent (loadTool_tells hm h)⟩
  | drillHere | deepDrillHere => exact ⟨[], hsilent (drillHere_tells hcoded hm h)⟩
  | cycle => exact ⟨[], hsilent (repeatCycle_tells hcoded hm huncanned h)⟩
  | finish => exact ⟨[], hsilent (by simpa using finish_tells hcoded hm huncanned h)⟩
  | _ =>
    have hcourse := keepsTo_perform (p := m.profile) _ c m rfl u m' h
    obtain ⟨ks, htells⟩ := hcourse.recollects (g := .motion) (fun a d hd => May.recollects hd (by
      rintro rfl
      simpa [Lapses, Verb.moves] using (May.forgets hd).1)) hm
    exact ⟨ks, by simpa [movesBy, Verb.moves] using htells⟩

theorem reduceOption_step (b : Bool) (ks : List Text) :
    ((if b then [none] else []) ++ ks.map some).reduceOption = ks := by
  cases b <;> simp [List.reduceOption]

theorem Step.tells (hcoded : m.profile.Coded) (hm : Sound m) (huncanned : Uncanned m)
    (h : Step c m m') :
    ∃ ks : List Text, Tells .motion m ((if m.forgets c then [none] else []) ++ ks.map some) m' := by
  rcases h.cases with ⟨hv, stats, log, rfl⟩ | ⟨v, c', stats, log, m₁, hv, hp, rfl⟩
  · refine ⟨[], ?_⟩
    have hbook := (Does.book m m.tools stats m.cycles m.last log).bypasses (g := .motion) trivial hm
    simpa [forgets, ends, stops, moves, hv] using hbook
  · have hbook := (Does.book m m.tools stats m.cycles m.last log).bypasses (g := .motion) trivial hm
    have hby : forgetsBy { m with stats, log } v c' = m.forgetsBy v c' := by cases v <;> rfl
    obtain ⟨ks, htells⟩ :=
      perform_tells (m := { m with stats, log }) hcoded hbook.sound huncanned hp
    rw [hby, ← forgets_some hv] at htells
    have hlast := (Does.book m₁ m₁.tools m₁.stats m₁.cycles
      (if c'.isContinuation then m₁.last else c') m₁.log).bypasses
        (g := .motion) trivial htells.sound
    exact ⟨ks, (hbook.none_then htells).then_none hlast⟩

theorem Step.states (hcoded : m.profile.Coded) (hm : Sound m) (h : Step c m m')
    (hmoves : m.moves c = true) (hnone : m'.active .cycle = []) :
    ∃ f ∈ pathFunctions, m'.active .motion = m.profile.code f ∧ m'.codes .motion =
      m.codes .motion ++ change (if m.forgets c then [] else m.active .motion)
        (m.profile.code f) := by
  rcases h.cases with ⟨hv, -⟩ | ⟨v, c', stats, log, m₁, hv, hp, rfl⟩
  · simp [moves, hv] at hmoves
  · have hby : m.movesBy v c' = true := by simpa [moves, hv] using hmoves
    have honce : m.forgets c = m.drillsOnce := by
      rw [forgets_some hv, forgetsBy_eq]
      cases v <;> first | cases hby | simp [hby]
    obtain ⟨ks, htells, hpath⟩ := motion_travels (m := { m with stats, log }) hcoded
      (hm.congr rfl rfl hm.proper) hby hp
    obtain ⟨f, hf, rfl, hactive⟩ := hpath hnone
    refine ⟨f, hf, hactive, htells.codes.trans ?_⟩
    rw [reduceOption_step, honce]
    rfl

theorem Does.uncanned (h : Does d m m')
    (hd : ∀ function, d ≠ .select ModalGroup.cycle.name function)
    (ha : m.active .cycle = []) : m'.active .cycle = [] := by
  cases h with
  | select _ group function =>
    have hne : ModalGroup.cycle.name ≠ group := by
      rintro rfl
      exact hd function rfl
    simpa [selected, active, activeNamed, Memo.text, hne] using ha
  | forget _ group =>
    by_cases hgroup : ModalGroup.cycle.name = group
    · simp [active, activeNamed, Memo.text, hgroup]
    · simpa [active, activeNamed, Memo.text, hgroup] using ha
  | block => rwa [active, activeNamed, wroteBlock_modal]
  | _ => exact ha

theorem May.select_ne {group function : Text} (style : p.cycleStyle = .call)
    (h : Verb.May p m v (.select group function)) : group ≠ ModalGroup.cycle.name := by
  cases h with
  | move _ h =>
    cases h with
    | call h => cases h
    | travel h =>
      cases h with
      | restate h => cases h
      | adapt h => cases h
      | path h =>
        cases h
        exact name_ne (by decide)
    | axis h => cases h
  | start _ h =>
    cases h with
    | call h => cases h
    | code _ _ hcode => simp [style] at hcode
  | cancel _ h => cases h
  | wrapUp h => cases h <;> exact name_ne (by decide)
  | spindleSetting h => cases h
  | _ => exact name_ne (by decide)

theorem Step.uncanned (hm : Uncanned m) (h : Step c m m') : Uncanned m' := by
  intro style
  rw [h.course.profile] at style
  refine h.course.invariant (fun d a b hd hab => hab.uncanned fun function heq => ?_) (hm style)
  rcases hd with rfl | ⟨v, c', -, hd⟩
  · cases heq
  · subst heq
    exact May.select_ne style hd rfl

def motionEvents : Machine → List (Command × Machine) → List (Option Text)
  | _, [] => []
  | m, (c, m') :: rest =>
    (if m.forgets c then [none] else []) ++
      ((m'.codes .motion).drop (m.codes .motion).length).map some ++ motionEvents m' rest

theorem Leads.tells {steps : List (Command × Machine)} (hcoded : m.profile.Coded) (hm : Sound m)
    (huncanned : Uncanned m) (h : Leads m steps) :
    Tells .motion m (motionEvents m steps) (final m steps) := by
  induction steps generalizing m with
  | nil => exact .refl hm
  | cons s steps ih =>
    obtain ⟨ks, hks⟩ := Step.tells hcoded hm huncanned h.1
    have hcodes := hks.codes
    rw [reduceOption_step] at hcodes
    rw [final_cons, motionEvents, hcodes, List.drop_left]
    have hprofile := h.1.course.profile
    exact hks.trans (ih (hprofile ▸ hcoded) hks.sound (Step.uncanned huncanned h.1) h.2)

theorem Fresh.codes (h : m.Fresh p) (g : ModalGroup) : m.codes g = [] ∧ m.active g = [] := by
  constructor
  · rw [Machine.codes, ledger, h.pending, h.written]
    rfl
  · rw [active, activeNamed, h.modal]
    rfl

/-- After any run under an accepted profile: for the spindle, the coolant, the cutter compensation
and the plane, the active code is the one that was queued last, and each code differs from the one
before. So it is with the motion code, which just the commands forget that change the tool, start a
canned cycle or end one; a motion that is no hole has its code queued, unless it is the active one.
-/
theorem codes_queued_on_change {p : Profile} {m₀ m : Machine} {steps : List (Command × Machine)}
    (haccepted : p.Accepted) (hopens : Opens p m₀) (hrun : Leads m₀ steps)
    (hm : m = final m₀ steps) :
    (∀ g ∈ [ModalGroup.spindle, .coolant, .cutcom, .plane],
      m.active g = (m.codes g).getLast?.getD [] ∧ (m.codes g).IsChain (· ≠ ·)) ∧
    (m.codes .motion = (motionEvents m₀ steps).reduceOption ∧
      m.active .motion = (motionEvents m₀ steps).getLast?.join.getD [] ∧
      (motionEvents m₀ steps).IsChain fun a b => a = b → a = none) ∧
    ∀ c m', Step c m m' → m.moves c = true → m'.active .cycle = [] → ∃ f ∈ pathFunctions,
      m'.active .motion = p.code f ∧ m'.codes .motion = m.codes .motion ++
        if p.code f = m.active .motion ∧ m.forgets c = false then [] else [p.code f] := by
  subst hm
  have hfresh := hopens.fresh
  have hcoded : m₀.profile.Coded := hfresh.profile ▸ haccepted.coded
  have hnone := hfresh.codes
  have hmotion := hrun.tells hcoded hfresh.sound fun _ => (hnone .cycle).2
  refine ⟨fun g hg => ?_, ⟨?_, ?_, hmotion.turnover.apart⟩, fun c m' hstep hmoves hcycle => ?_⟩
  · have hkept : g ∉ [ModalGroup.cycle, .motion] := by
      revert hg
      cases g <;> decide
    obtain ⟨ks, htells⟩ := hrun.recollects hkept hfresh.sound
    have hcodes : (final m₀ steps).codes g = ks := by
      rw [htells.codes, (hnone g).1]
      simp [List.reduceOption]
    have hturnover := htells.turnover
    rw [(hnone g).2] at hturnover
    rw [hcodes]
    exact ⟨hturnover.codes_last, hturnover.codes_apart⟩
  · rw [hmotion.codes, (hnone .motion).1, List.nil_append]
  · rw [hmotion.turnover.last, (hnone .motion).2]
    cases (motionEvents m₀ steps).getLast? <;> rfl
  · have hprofile : (final m₀ steps).profile = p :=
      (hrun.kept (P := fun a => a.profile = p) (fun _ _ _ ha hab => hab.course.profile.trans ha)
        hfresh.profile)
    obtain ⟨f, hf, hactive, hcodes⟩ :=
      hstep.states (hprofile ▸ haccepted.coded) hmotion.sound hmoves hcycle
    rw [hprofile] at hactive hcodes
    refine ⟨f, hf, hactive, hcodes.trans ?_⟩
    have hcode : p.code f ≠ [] := haccepted.coded f
    cases hforgets : (final m₀ steps).forgets c <;> simp [change, hcode]

set_option maxRecDepth 100000 in
theorem codes_queued_on_change_retooled : ∃ m₀ m m' : Machine, ∃ steps : List (Command × Machine),
    Opens { cycleStyle := .code } m₀ ∧ Leads m₀ steps ∧ m = final m₀ steps ∧
      motionEvents m₀ steps = [some (Text.ofString "G1"), none] ∧ m.active .motion = [] ∧
      m.codes .spindle = (["M3"] : List Text) ∧ m.active .spindle = Text.ofString "M3" ∧
      Step { major := "goto", numeric := [4, 5, 6] } m m' ∧
      m'.codes .motion = (["G1", "G1"] : List Text) := by
  let p : Profile := { cycleStyle := .code }
  let first : Command := { major := "goto", numeric := [1, 2, 3] }
  let spindle : Command := { major := "spindl", minor := ["clw"] }
  let tool : Command := { major := "loadtl", numeric := [1] }
  let c : Command := { major := "goto", numeric := [4, 5, 6] }
  let check (m₀ : Machine) (steps : List (Command × Machine)) (m' : Machine) : Bool :=
    motionEvents m₀ steps = [some (Text.ofString "G1"), none] &&
      (final m₀ steps).codes .spindle = (["M3"] : List Text) && (final m₀ steps).moves c &&
      m'.active .cycle = [] && m'.active .motion = "G1"
  have hparse : (Profile.parse "\x7b\"cycleStyle\":\"gcode\"\x7d" .json []).toOption = some p := by
    decide +kernel
  have hcheck : rehearse p [first, spindle, spindle, tool] c check = true := by decide +kernel
  obtain ⟨m₀, steps, m', hopens, hrun, -, hstep, hcheck⟩ := exists_of_rehearse hcheck
  simp only [check, Bool.and_eq_true, decide_eq_true_eq] at hcheck
  obtain ⟨⟨⟨⟨hevents, hspindle⟩, hmoves⟩, hcycle⟩, hactive⟩ := hcheck
  obtain ⟨hgroups, ⟨hcodes, hforgotten, -⟩, hstates⟩ :=
    codes_queued_on_change (Profile.accepted_of_parse hparse) hopens hrun rfl
  have hlast := (hgroups .spindle (by simp)).1
  rw [hspindle] at hlast
  rw [hevents] at hcodes hforgotten
  obtain ⟨f, -, hcode, hqueued⟩ := hstates c m' hstep hmoves hcycle
  rw [← hcode, hactive, hcodes, hforgotten] at hqueued
  refine ⟨m₀, _, m', steps, hopens, hrun, rfl, hevents, hforgotten, hspindle, hlast, hstep, ?_⟩
  have hstated : ¬(Text.ofString "G1" = [some (Text.ofString "G1"), none].getLast?.join.getD [] ∧
      (final m₀ steps).forgets c = false) := fun h => absurd h.1 (by decide)
  rw [hqueued, if_neg hstated]
  rfl

set_option maxRecDepth 100000 in
/-- A cycle that is called keeps the motion code, and so does a canned cycle that is
started again with the same parameters while it is active. -/
theorem cycle_starts_keep_motion_code :
    (∃ m₀ m m' : Machine, ∃ steps : List (Command × Machine),
      Profile.Accepted {} ∧ Opens {} m₀ ∧ Leads m₀ steps ∧ m = final m₀ steps ∧
        steps.map Prod.fst = [{ major := "goto", numeric := [1, 2, 3] },
          { major := "cycle", minor := ["drill"], numeric := [10, 2] }] ∧
        (m.vars.cycle? Variable.cycle).isSome = true ∧ m.active .motion = Text.ofString "G1" ∧
        Step { major := "goto", numeric := [4, 5, 6] } m m' ∧
        m'.codes .motion = (["G1"] : List Text)) ∧
    ∃ m₀ m m' : Machine, ∃ steps : List (Command × Machine),
      Profile.Accepted { cycleStyle := .code } ∧ Opens { cycleStyle := .code } m₀ ∧
        Leads m₀ steps ∧ m = final m₀ steps ∧
        steps.map Prod.fst = [{ major := "cycle", minor := ["drill"], numeric := [10, 2] },
          { major := "gohome" }, { major := "cycle", minor := ["drill"], numeric := [10, 2] }] ∧
        m.active .motion = Text.ofString "G0" ∧ Step { major := "gohome" } m m' ∧
        m'.codes .motion = (["G0"] : List Text) := by
  let drill : Command := { major := "cycle", minor := ["drill"], numeric := [10, 2] }
  let home : Command := { major := "gohome" }
  let called (m₀ : Machine) (steps : List (Command × Machine)) (m' : Machine) : Bool :=
    ((final m₀ steps).vars.cycle? Variable.cycle).isSome &&
      (final m₀ steps).active .motion = "G1" && m'.codes .motion = (["G1"] : List Text)
  let repeated (m₀ : Machine) (steps : List (Command × Machine)) (m' : Machine) : Bool :=
    (final m₀ steps).active .motion = "G0" && m'.codes .motion = (["G0"] : List Text)
  have hplain : (Profile.parse "\x7b\x7d" .json []).toOption = some {} := by decide +kernel
  have hcoded : (Profile.parse "\x7b\"cycleStyle\":\"gcode\"\x7d" .json []).toOption =
      some { cycleStyle := .code } := by
    decide +kernel
  have hcalls := Profile.accepted_of_parse hplain
  have hcodes := Profile.accepted_of_parse hcoded
  have hcalled : rehearse {} [{ major := "goto", numeric := [1, 2, 3] }, drill]
      { major := "goto", numeric := [4, 5, 6] } called = true := by decide +kernel
  have hrepeated : rehearse { cycleStyle := .code } [drill, home, drill] home repeated = true := by
    decide +kernel
  constructor
  · obtain ⟨m₀, steps, m', hopens, hrun, hcs, hstep, hcheck⟩ := exists_of_rehearse hcalled
    simp only [called, Bool.and_eq_true, decide_eq_true_eq] at hcheck
    obtain ⟨⟨hcycle, hactive⟩, hone⟩ := hcheck
    exact ⟨m₀, _, m', steps, hcalls, hopens, hrun, rfl, hcs, hcycle, hactive, hstep, hone⟩
  · obtain ⟨m₀, steps, m', hopens, hrun, hcs, hstep, hcheck⟩ := exists_of_rehearse hrepeated
    simp only [repeated, Bool.and_eq_true, decide_eq_true_eq] at hcheck
    exact ⟨m₀, _, m', steps, hcodes, hopens, hrun, rfl, hcs, hcheck.1, hstep, hcheck.2⟩

end Toolpath.Machine
