import Toolpath.Proofs.Cycles
import Toolpath.Proofs.Queue

/-!
# Where queued words are written

Cutter compensation and the start of a repeated canned cycle queue words and write no block. The
words go into the first block after that, and reach the block of a motion just when no command in
between writes one.
-/

namespace Toolpath.Machine

variable {α β : Type} {p : Profile} {m m' : Machine} {v : Verb} {c : Command} {u : Unit}

def Empties (a : Action α) : Prop := ∀ m x m', a.run m = .ok x m' → m'.writer.pending = []

def Rests (a : Action α) : Prop :=
  ∀ m x m', a.run m = .ok x m' → m'.writer.pending = m.writer.pending

theorem empties_bind {a : Action α} {f : α → Action β} (hf : ∀ x, Empties (f x)) :
    Empties (a >>= f) := by
  intro m y m' h
  obtain ⟨x, m₁, -, h₂⟩ := run_bind_ok.mp h
  exact hf x m₁ y m' h₂

theorem empties_rest {a : Action α} {f : α → Action β} (ha : Empties a) (hf : ∀ x, Rests (f x)) :
    Empties (a >>= f) := by
  intro m y m' h
  obtain ⟨x, m₁, h₁, h₂⟩ := run_bind_ok.mp h
  exact (hf x m₁ y m' h₂).trans (ha m x m₁ h₁)

theorem empties_writeBlock : Empties writeBlock := by
  intro m x m' h
  obtain ⟨-, rfl⟩ := writeBlock_ok.mp h
  exact wroteBlock_pending m

theorem rests_modify {f : Machine → Machine} (hf : ∀ m, (f m).writer.pending = m.writer.pending) :
    Rests (modify f : Action PUnit) := by
  intro m x m' h
  cases h
  exact hf m

theorem empties_forIn {a : β → Action Unit} {bs : List β} (hne : bs ≠ [])
    (ha : ∀ b, Empties (a b)) :
    Empties (forIn bs PUnit.unit fun b _ => do
      a b
      pure (ForInStep.yield PUnit.unit)) := by
  induction bs with
  | nil => exact absurd rfl hne
  | cons b bs ih =>
    intro m x m' h
    obtain ⟨m₁, h₁, h₂⟩ := forIn_cons_ok h
    cases bs with
    | nil =>
      cases h₂
      exact ha b m _ _ h₁
    | cons b' bs => exact ih (by simp) m₁ x m' h₂

theorem empties_callCycle (name : Text) (params : Parameters) :
    Empties (callCycle name params) := by
  refine empties_bind fun _ => empties_bind fun _ => empties_bind fun _ => empties_bind fun _ => ?_
  exact empties_rest empties_writeBlock fun _ => rests_modify fun _ => rfl

theorem empties_startCycle (d : DrillCycle) : Empties (startCycle d true) := by
  refine empties_bind fun m => ?_
  split
  · refine empties_bind fun _ => empties_bind fun _ => empties_bind fun _ =>
      empties_bind fun _ => ?_
    exact empties_writeBlock
  · exact empties_callCycle _ _

theorem empties_moveTo (hne : c.numeric.isEmpty = false) : Empties (moveTo c) := by
  have hcall : Empties (do writeBlock; callRepeated) := by
    intro m x m' h
    obtain ⟨_, m₁, h₁, h₂⟩ := run_bind_ok.mp h
    simp only [callRepeated, EStateM.run_bind, EStateM.run_get] at h₂
    split at h₂
    · exact empties_callCycle _ _ m₁ x m' h₂
    · cases h₂
      exact empties_writeBlock m _ _ h₁
  rw [moveTo, if_neg (by simp [hne])]
  exact empties_bind fun _ => empties_bind fun _ => empties_bind fun _ =>
    empties_bind fun _ => hcall

theorem homeMoves_ne_nil (axes : List Axis) : homeMoves axes ≠ [] := by
  unfold homeMoves
  split <;> simp

theorem empties_goHome (c : Command) : Empties (goHome c) := by
  have hmove (axes : List Axis) : Empties (moveHome axes) := by
    refine empties_bind fun _ => empties_bind fun _ => empties_bind fun _ =>
      empties_bind fun _ => ?_
    exact empties_writeBlock
  refine empties_rest (empties_forIn (homeMoves_ne_nil _) hmove) fun _ => ?_
  intro m x m' h
  cases h
  rfl

theorem empties_runSpindle (c : Command) : Empties (runSpindle c) := by
  refine empties_bind fun _ => empties_bind fun _ => empties_bind fun _ => empties_bind fun _ => ?_
  exact empties_bind fun _ => empties_bind fun _ => empties_writeBlock

theorem empties_wrapUp (c : Command) : Empties (wrapUp c) := by
  refine empties_bind fun _ => empties_bind fun _ => empties_bind fun _ => empties_bind fun _ => ?_
  exact empties_bind fun _ => empties_bind fun _ => empties_writeBlock

def flushesBy (m : Machine) (v : Verb) (c : Command) : Bool :=
  match v with
  | .spindle | .coolant | .home | .finish => true
  | .plane => (planeOf? c).isSome
  | .selectTool | .delay | .drillHere | .deepDrillHere => !c.numeric.isEmpty
  | .loadTool =>
    match c.numeric with
    | [] => false
    | number :: _ => !m.holdsTool (Number.truncate (Number.round number))
  | .cycle => c.hasMinor ["off"] && m.profile.cycleStyle = .code && m.active .cycle ≠ []
  | v => m.movesBy v c

theorem flushesBy_booked (m : Machine) (stats : Stats) (log : List Note) (v : Verb) (c : Command) :
    flushesBy { m with stats, log } v c = m.flushesBy v c := by
  cases v <;> rfl

def flushes (m : Machine) (c : Command) : Bool :=
  (m.verbs.resolve c).any fun vc => m.flushesBy vc.1 vc.2

theorem flushes_of_moves (h : m.moves c = true) : m.flushes c = true := by
  unfold moves at h
  split at h
  case h_1 v c' hv =>
    rw [flushes, hv]
    cases v <;> first | cases h | exact h
  case h_2 => cases h

theorem cancelCycle_empties (style : m.profile.cycleStyle = .code) (ha : m.active .cycle ≠ [])
    (h : cancelCycle.run m = .ok u m') : m'.writer.pending = [] := by
  simp only [cancelCycle, EStateM.run_bind, EStateM.run_get, style, ha, if_false] at h
  have hrest : Empties (do
      emit .cycleCancel
      clearCycle
      setVariable Variable.restate (.flag true)
      writeBlock) :=
    empties_bind fun _ => empties_bind fun _ => empties_bind fun _ => empties_writeBlock
  exact hrest m u m' h

theorem loadTool_empties {number : Float} {rest : List Float} (hc : c.numeric = number :: rest)
    (hholds : m.holdsTool (Number.truncate (Number.round number)) = false)
    (h : (loadTool c).run m = .ok u m') : m'.writer.pending = [] := by
  simp only [loadTool, hc] at h
  obtain ⟨_, _, hget, h⟩ := run_bind_ok.mp h
  cases hget
  rw [if_neg (by simp [hholds])] at h
  exact (empties_bind fun _ => empties_bind fun _ => empties_bind fun _ => empties_bind fun _ =>
    empties_bind fun _ => empties_bind fun _ => empties_bind fun _ => empties_bind fun _ =>
    empties_writeBlock) m u m' h

theorem motion_empties (hmoves : m.movesBy v c = true)
    (h : (perform v c).run m = .ok u m') : m'.writer.pending = [] := by
  rw [perform_moving hmoves] at h
  exact empties_moveTo (numeric_of_movesBy hmoves) _ u m' h

theorem perform_empties (hflush : m.flushesBy v c = true) (h : (perform v c).run m = .ok u m') :
    m'.writer.pending = [] := by
  cases v with
  | spindle => exact empties_runSpindle c m u m' h
  | coolant => exact (empties_bind fun _ => empties_bind fun _ => empties_writeBlock) m u m' h
  | home => exact empties_goHome c m u m' h
  | finish => exact (empties_bind fun _ => empties_wrapUp c) m u m' h
  | plane =>
    obtain ⟨pl, hpl⟩ := Option.isSome_iff_exists.mp hflush
    simp only [perform, selectPlane, hpl] at h
    exact (empties_bind fun _ => empties_bind fun _ => empties_writeBlock) m u m' h
  | selectTool =>
    cases hc : c.numeric with
    | nil => simp [flushesBy, hc] at hflush
    | cons number rest =>
      simp only [perform, selectTool, hc] at h
      exact (empties_bind fun _ => empties_bind fun _ => empties_writeBlock) m u m' h
  | delay =>
    cases hc : c.numeric with
    | nil => simp [flushesBy, hc] at hflush
    | cons number rest =>
      simp only [perform, dwell, hc] at h
      exact (empties_bind fun _ => empties_bind fun _ => empties_bind fun _ => empties_bind fun _ =>
        empties_bind fun _ => empties_writeBlock) m u m' h
  | drillHere | deepDrillHere =>
    have hne : c.numeric.isEmpty = false := by simpa [flushesBy] using hflush
    simp only [perform, drillHere, hne, if_false, Bool.false_eq_true] at h
    exact empties_startCycle _ m u m' h
  | loadTool =>
    cases hc : c.numeric with
    | nil => simp [flushesBy, hc] at hflush
    | cons number rest => exact loadTool_empties hc (by simpa [flushesBy, hc] using hflush) h
  | cycle =>
    have hcycle : (c.hasMinor ["off"] = true ∧ m.profile.cycleStyle = .code) ∧
        m.active .cycle ≠ [] := by
      simpa [flushesBy] using hflush
    simp only [perform, repeatCycle, EStateM.run_bind, EStateM.run_get, hcycle.1.1, if_true] at h
    exact cancelCycle_empties hcycle.1.2 hcycle.2 h
  | goto | rapid | start | continuation => exact motion_empties hflush h
  | _ => simp [flushesBy, movesBy, Verb.moves] at hflush

theorem setCycleFeed_ok {i : Nat} (h : (setCycleFeed c i).run m = .ok u m') :
    ∃ rack, m' = { m with rack } ∧
      (m.rack.registers.Indexed → rack.registers.find? "Z" = m.rack.registers.find? "Z") := by
  unfold setCycleFeed at h
  split at h
  case h_1 feed _ =>
    rw [setRegister_run] at h
    cases hf : m.rack.registers.find? "F" with
    | none =>
      rw [hf] at h
      cases h
      exact ⟨m.rack, rfl, fun _ => rfl⟩
    | some n =>
      simp only [hf] at h
      split at h
      · cases h
        refine ⟨_, rfl, fun hi => ?_⟩
        rw [Rack.set_register]
        exact Registers.find?_modify_other hi (by decide)
      · cases h
  case h_2 =>
    cases h
    exact ⟨m.rack, rfl, fun _ => rfl⟩

def begun (m : Machine) (d : DrillCycle) : Machine :=
  if m.profile.cycleStyle = .code then m.started d false
  else { m with vars := m.vars.set Variable.cycle (.cycle d) }

theorem startCycle_begun {d : DrillCycle} (hcoded : m.profile.Coded)
    (h : (startCycle d false).run m = .ok u m') : m' = m.begun d := by
  simp only [startCycle, EStateM.run_bind, EStateM.run_get] at h
  unfold begun
  cases hs : m.profile.cycleStyle with
  | code =>
    simp only [hs] at h
    cases startCanned_ok hcoded h
    rfl
  | call =>
    simp only [hs] at h
    cases h
    rfl

def repeats? (m : Machine) (c : Command) : Option DrillCycle :=
  if c.hasMinor ["off"] then none
  else if c.hasMinor ["drill"] then some (.shortPlain c (m.value "Z"))
  else if c.hasMinor ["deep"] then some (.shortDeep c (m.value "Z"))
  else none

theorem repeatCycle_ok (hcoded : m.profile.Coded) (h : (repeatCycle c).run m = .ok u m') :
    (c.hasMinor ["off"] = true ∧ cancelCycle.run m = .ok u m') ∨
    (c.hasMinor ["off"] = false ∧ m.repeats? c = none ∧ ∃ log, m' = { m with log }) ∨
    ∃ d i m₁, m.repeats? c = some d ∧ (setCycleFeed c i).run m = .ok () m₁ ∧ m' = m₁.begun d := by
  have hstart (i : Nat) (d : DrillCycle)
      (h : (do setCycleFeed c i; startCycle d false).run m = .ok u m') :
      ∃ m₁, (setCycleFeed c i).run m = .ok () m₁ ∧ m' = m₁.begun d := by
    obtain ⟨_, m₁, h₁, h₂⟩ := run_bind_ok.mp h
    obtain ⟨rack, rfl, -⟩ := setCycleFeed_ok h₁
    exact ⟨_, h₁, startCycle_begun (m := { m with rack }) hcoded h₂⟩
  simp only [repeatCycle, EStateM.run_bind, EStateM.run_get] at h
  unfold repeats?
  split at h
  case isTrue hoff => exact .inl ⟨hoff, h⟩
  case isFalse hoff =>
    rw [if_neg hoff]
    split at h
    case isTrue hdrill =>
      obtain ⟨m₁, h₁, hm⟩ := hstart _ _ h
      exact .inr (.inr ⟨_, _, m₁, if_pos hdrill, h₁, hm⟩)
    case isFalse hdrill =>
      rw [if_neg hdrill]
      split at h
      case isTrue hdeep =>
        obtain ⟨m₁, h₁, hm⟩ := hstart _ _ h
        exact .inr (.inr ⟨_, _, m₁, if_pos hdeep, h₁, hm⟩)
      case isFalse hdeep =>
        cases h
        exact .inr (.inl ⟨by simpa using hoff, if_neg hdeep, _, rfl⟩)

theorem begun_written (m : Machine) (d : DrillCycle) :
    (m.begun d).writer.written = m.writer.written := by
  unfold begun started
  split
  · split <;> rfl
  · rfl

theorem May.no_block (hv : v.moves = false)
    (hquiet : v ∉ [Verb.drillHere, .deepDrillHere, .cycle, .finish, .plane, .home, .spindle,
      .coolant, .loadTool, .selectTool, .delay])
    {d : Deed} (h : Verb.May p m v d) : d ≠ .block := by
  rintro rfl
  cases h with
  | move hmoves => simp [hv] at hmoves
  | start hstart => simp_all
  | cancel hcancel => simp_all
  | wrapUp => simp at hquiet
  | spindleSetting h => cases h
  | block _ hblock => simp_all

theorem cancelCycle_waits (hinactive : m.profile.cycleStyle = .code → m.active .cycle = [])
    (h : cancelCycle.run m = .ok u m') : m'.writer = m.writer ∧ m'.rack = m.rack := by
  simp only [cancelCycle, EStateM.run_bind, EStateM.run_get] at h
  cases hs : m.profile.cycleStyle with
  | call =>
    simp only [hs] at h
    cases h
    exact ⟨rfl, rfl⟩
  | code =>
    simp only [hs, hinactive hs, if_true] at h
    cases h
    exact ⟨rfl, rfl⟩

/-- A verb that needs a number or a plane and has none does nothing, and so does a
change to the tool in use where that is left out. -/
theorem perform_declined
    (hv : v ∈ [Verb.plane, .selectTool, .delay, .drillHere, .deepDrillHere, .loadTool])
    (hwaits : m.flushesBy v c = false) (h : (perform v c).run m = .ok u m') :
    ∃ log, m' = { m with log } := by
  cases v with
  | plane =>
    have hpl : planeOf? c = none := by simpa [flushesBy] using hwaits
    simp only [perform, selectPlane, hpl] at h
    cases h
    exact ⟨_, rfl⟩
  | selectTool | delay | drillHere | deepDrillHere =>
    have hc : c.numeric = [] := by simpa [flushesBy] using hwaits
    simp only [perform, selectTool, dwell, drillHere, hc] at h
    cases h
    exact ⟨_, rfl⟩
  | loadTool =>
    cases hc : c.numeric with
    | nil =>
      simp only [perform, loadTool, hc] at h
      cases h
      exact ⟨_, rfl⟩
    | cons number rest =>
      have hholds : m.holdsTool (Number.truncate (Number.round number)) = true := by
        simpa [flushesBy, hc] using hwaits
      simp only [perform, loadTool, hc] at h
      obtain ⟨_, _, hget, h⟩ := run_bind_ok.mp h
      cases hget
      rw [if_pos hholds] at h
      cases h
      exact ⟨_, rfl⟩
  | _ => simp at hv

theorem perform_waits (hcoded : m.profile.Coded) (hwaits : m.flushesBy v c = false)
    (h : (perform v c).run m = .ok u m') : m'.writer.written = m.writer.written := by
  have hquiet (hv : ∀ a d, Verb.May m.profile a v d → d ≠ .block) :
      m'.writer.written = m.writer.written :=
    (keepsTo_perform (p := m.profile) v c m rfl u m' h).written hv
  have hstill (hv : v.moves = true) (hmoves : m.movesBy v c = false) :
      m'.writer.written = m.writer.written := by
    obtain ⟨vars, log, rfl, -⟩ := perform_still hv hmoves h
    rfl
  cases v with
  | spindle | coolant | home | finish => cases hwaits
  | goto | rapid | start | continuation => exact hstill rfl hwaits
  | plane | selectTool | delay | drillHere | deepDrillHere | loadTool =>
    obtain ⟨log, rfl⟩ := perform_declined (by simp) hwaits h
    rfl
  | cycle =>
    rcases repeatCycle_ok hcoded h
      with ⟨hoff, hcancel⟩ | ⟨-, -, log, rfl⟩ | ⟨d, i, m₁, -, hfeed, rfl⟩
    · rw [(cancelCycle_waits (by simpa [flushesBy, hoff] using hwaits) hcancel).1]
    · rfl
    · obtain ⟨rack, rfl, -⟩ := setCycleFeed_ok hfeed
      exact begun_written _ d
  | _ => exact hquiet fun _ _ hd => May.no_block rfl (by simp) hd

theorem Step.empties (h : Step c m m') (hflush : m.flushes c = true) : m'.writer.pending = [] := by
  rcases h.cases with ⟨hv, -⟩ | ⟨v, c', stats, log, m₁, hv, hp, rfl⟩
  · simp [flushes, hv] at hflush
  · have hby : m.flushesBy v c' = true := by simpa [flushes, hv] using hflush
    change m₁.writer.pending = []
    exact perform_empties ((flushesBy_booked m stats log v c').trans hby) hp

theorem Step.waits (hcoded : m.profile.Coded) (h : Step c m m') (hwaits : m.flushes c = false) :
    m'.writer.written = m.writer.written := by
  rcases h.cases with ⟨-, stats, log, rfl⟩ | ⟨v, c', stats, log, m₁, hv, hp, rfl⟩
  · rfl
  · have hby : m.flushesBy v c' = false := by simpa [flushes, hv] using hwaits
    change m₁.writer.written = m.writer.written
    exact perform_waits (m := { m with stats, log }) hcoded
      ((flushesBy_booked m stats log v c').trans hby) hp

def blocksSince (m m' : Machine) : List Block :=
  m'.writer.written.take (m'.writer.written.length - m.writer.written.length)

theorem blocksSince_eq {bs : List Block} (h : m'.writer.written = bs ++ m.writer.written) :
    blocksSince m m' = bs := by
  simp [blocksSince, h]

theorem append_cons_ne (bs : List Block) (b : Block) (written : List Block) :
    bs ++ b :: written ≠ written := by
  intro h
  have hlength := congrArg List.length h
  simp only [List.length_append, List.length_cons] at hlength
  omega

def Waits : Machine → List (Command × Machine) → Prop := Throughout fun c m _ => m.flushes c = false

instance (m : Machine) (steps : List (Command × Machine)) : Decidable (Waits m steps) :=
  inferInstanceAs (Decidable (Throughout _ m steps))

theorem Leads.waits_iff {steps : List (Command × Machine)} (hcoded : m.profile.Coded) (hm : Sound m)
    (hpending : m.writer.pending ≠ []) (h : Leads m steps) :
    Waits m steps ↔ (final m steps).writer.written = m.writer.written := by
  induction steps generalizing m with
  | nil => exact ⟨fun _ => rfl, fun _ => trivial⟩
  | cons s steps ih =>
    obtain ⟨c, m₁⟩ := s
    have hrest : Leads m₁ steps := h.2
    have hflows := h.1.flows hm
    rw [final_cons]
    cases hflush : m.flushes c with
    | true =>
      refine ⟨fun hwaits => absurd hwaits.1 (by simp [hflush]), fun hsame => absurd hsame ?_⟩
      have hempty := h.1.empties hflush
      rcases hflows with ⟨-, more, hp⟩ | ⟨blocks, b, more, hw, -⟩
      · simp_all
      · obtain ⟨later, -, hlater, -⟩ := hrest.handsOver
        rw [hlater, hw, ← List.append_assoc]
        exact append_cons_ne _ b _
    | false =>
      have hwritten := h.1.waits hcoded hflush
      have hpending₁ : m₁.writer.pending ≠ [] := by
        rcases hflows with ⟨-, more, hp⟩ | ⟨blocks, b, more, hw, -⟩
        · simp [hp, hpending]
        · exact absurd (hw.symm.trans hwritten) (append_cons_ne blocks b _)
      have hcoded₁ : m₁.profile.Coded := h.1.course.profile ▸ hcoded
      rw [← hwritten, ← ih hcoded₁ (h.1.sound hm) hpending₁ hrest]
      exact ⟨fun hwaits => hwaits.2, fun hwaits => ⟨hflush, hwaits⟩⟩

/-! ## Commands that only queue words -/

def compensation? (c : Command) : Option Function :=
  if c.hasMinor ["left"] then some .cutcomLeft
  else if c.hasMinor ["right"] then some .cutcomRight
  else if c.hasMinor ["off"] then some .cutcomOff
  else none

theorem compensate_eq (c : Command) :
    compensate c = match compensation? c with
      | some f => emitModal .cutcom f
      | none => pure () := by
  unfold compensate compensation?
  repeat' split
  all_goals simp_all

def modalWords (m : Machine) (g : ModalGroup) (f : Function) : List Queued :=
  if m.modal.hasChanged g.name (.text (m.profile.code f)) then
    [.code { function := f.name, group := some g.name, text := m.profile.code f }]
  else []

def queuedByVerb (m : Machine) (v : Verb) (c : Command) : List Queued :=
  match v with
  | .cutterCompensation => (compensation? c).elim [] (m.modalWords .cutcom)
  | .cycle => (m.repeats? c).elim [] fun d =>
      if m.profile.cycleStyle = .code && m.announces d false then m.cannedWords d else []
  | _ => []

/-- The words that a command queues without writing a block: the code of a cutter
compensation, or the code and the depths of a canned cycle that is to be repeated. -/
def queuedBy (m : Machine) (c : Command) : List Queued :=
  (m.verbs.resolve c).elim [] fun vc => m.queuedByVerb vc.1 vc.2

theorem selected_pending (m : Machine) (g : ModalGroup) (f : Function) :
    (m.selected g.name f.name).writer.pending = m.writer.pending ++ m.modalWords g f ∧
      (m.selected g.name f.name).writer.written = m.writer.written := by
  unfold selected modalWords Profile.code
  dsimp only
  split
  · exact ⟨rfl, rfl⟩
  · exact ⟨(List.append_nil _).symm, rfl⟩

theorem begun_pending (style : m.profile.cycleStyle = .code) (d : DrillCycle) :
    (m.begun d).writer.pending =
      m.writer.pending ++ if m.announces d false then m.cannedWords d else [] := by
  unfold begun started
  rw [if_pos style]
  split
  · rfl
  · exact (List.append_nil _).symm

theorem perform_queues (hcoded : m.profile.Coded) (hm : Sound m) (hqueues : m.queuedByVerb v c ≠ [])
    (h : (perform v c).run m = .ok u m') :
    m'.writer.pending = m.writer.pending ++ m.queuedByVerb v c ∧
      m'.writer.written = m.writer.written := by
  cases v with
  | cutterCompensation =>
    cases hc : compensation? c with
    | none => simp [queuedByVerb, hc] at hqueues
    | some f =>
      simp only [perform, compensate_eq, hc] at h
      rw [emitModal_run, if_neg (hcoded f)] at h
      cases h
      simpa [queuedByVerb, hc] using selected_pending m .cutcom f
  | cycle =>
    rcases repeatCycle_ok hcoded h with ⟨hoff, -⟩ | ⟨-, hnone, -⟩ | ⟨d, i, m₁, hd, hfeed, rfl⟩
    · simp [queuedByVerb, repeats?, hoff] at hqueues
    · simp [queuedByVerb, hnone] at hqueues
    · obtain ⟨rack, rfl, hformat⟩ := setCycleFeed_ok hfeed
      have style : m.profile.cycleStyle = .code := by
        cases hs : m.profile.cycleStyle with
        | code => rfl
        | call => simp [queuedByVerb, hd, hs] at hqueues
      have hwords : cannedWords { m with rack } d = m.cannedWords d := by
        simp only [cannedWords, format, hformat hm.indexed]
      have hqueued : m.queuedByVerb .cycle c = if m.announces d false then
          m.cannedWords d else [] := by
        simp [queuedByVerb, hd, style]
      refine ⟨?_, begun_written _ d⟩
      rw [begun_pending (m := { m with rack }) style, hwords, hqueued]
      rfl
  | _ => exact absurd rfl hqueues

theorem Step.queues (hcoded : m.profile.Coded) (hm : Sound m) (h : Step c m m')
    (hqueues : m.queuedBy c ≠ []) :
    m'.writer.pending = m.writer.pending ++ m.queuedBy c ∧
      m'.writer.written = m.writer.written := by
  rcases h.cases with ⟨hv, -⟩ | ⟨v, c', stats, log, m₁, hv, hp, rfl⟩
  · simp [queuedBy, hv] at hqueues
  · have hsame : queuedByVerb { m with stats, log } v c' = m.queuedByVerb v c' := by cases v <;> rfl
    have hby : m.queuedBy c = m.queuedByVerb v c' := by simp [queuedBy, hv]
    rw [hby, ← hsame] at hqueues
    rw [hby, ← hsame]
    have hsound : Sound { m with stats, log } := hm.congr rfl rfl hm.proper
    have hwords := perform_queues (m := { m with stats, log }) hcoded hsound hqueues hp
    exact hwords

/-- The words that a command only queues go into the first block behind it. They
reach the next motion and no other block just when no command in between writes
what waits. -/
theorem queued_words_reach_motion_iff {p : Profile} {m₀ m m₁ m' : Machine}
    {steps between : List (Command × Machine)} {c c' : Command} (haccepted : p.Accepted)
    (hopens : Opens p m₀) (hrun : Leads m₀ steps) (hm : m = final m₀ steps) (hstep : Step c m m₁)
    (hqueues : m.queuedBy c ≠ []) (hbetween : Leads m₁ between)
    (hmotion : Step c' (final m₁ between) m') (hmoves : (final m₁ between).moves c' = true) :
    m₁.writer.written = m.writer.written ∧
      m₁.writer.pending = m.writer.pending ++ m.queuedBy c ∧
      (∃ later b more, m'.writer.written = later ++ b :: m.writer.written ∧
        b.queued = m.writer.pending ++ m.queuedBy c ++ more) ∧
      ((∀ b ∈ blocksSince m₁ (final m₁ between), ¬m.queuedBy c <:+: b.queued) ∧
          (∃ b ∈ blocksSince (final m₁ between) m', m.queuedBy c <:+: b.queued) ↔
        Waits m₁ between) := by
  have hsound : Sound m := hm ▸ hrun.sound hopens.fresh.sound
  have hcoded : m.profile.Coded := by
    have hprofile : m.profile = p :=
      hm ▸ hrun.kept (P := fun a => a.profile = p) (fun _ _ _ ha hab => hab.course.profile.trans ha)
        hopens.fresh.profile
    exact hprofile ▸ haccepted.coded
  obtain ⟨hpending, hwritten⟩ := hstep.queues hcoded hsound hqueues
  have hsound₁ := hstep.sound hsound
  have hcoded₁ : m₁.profile.Coded := hstep.course.profile ▸ hcoded
  have hne : m₁.writer.pending ≠ [] := by simp [hpending, hqueues]
  have hwaits := hbetween.waits_iff hcoded₁ hsound₁ hne
  have hempty := hmotion.empties (flushes_of_moves hmoves)
  -- the words leave the queue at the motion at the latest
  have hlast := hmotion.flows (hbetween.sound hsound₁)
  have hall : ∃ later b more, m'.writer.written = later ++ b :: m₁.writer.written ∧
      b.queued = m₁.writer.pending ++ more := by
    rcases (hbetween.flows hsound₁).trans hlast hmotion.course.handsOver with
      ⟨-, more, hp⟩ | hblock
    · simp_all
    · exact hblock
  have hheld {b : Block} {more : List Queued} (hb : b.queued = m₁.writer.pending ++ more) :
      m.queuedBy c <:+: b.queued :=
    ⟨m.writer.pending, more, by rw [hb, hpending]⟩
  refine ⟨hwritten, hpending, ?_, fun hreach => ?_, fun hwait => ?_⟩
  · obtain ⟨later, b, more, hw, hb⟩ := hall
    exact ⟨later, b, more, hwritten ▸ hw, hpending ▸ hb⟩
  · rcases hbetween.flows hsound₁ with ⟨hsame, -⟩ | ⟨later, b, more, hw, hb⟩
    · exact hwaits.mpr hsame
    · have hw' : (final m₁ between).writer.written = (later ++ [b]) ++ m₁.writer.written := by
        rw [hw, List.append_assoc]
        rfl
      exact absurd (hheld hb) (hreach.1 b (by simp [blocksSince_eq hw']))
  · have hsame := hwaits.mp hwait
    obtain ⟨later, b, more, hw, hb⟩ := hall
    have hw' : m'.writer.written = (later ++ [b]) ++ (final m₁ between).writer.written := by
      rw [hw, hsame, List.append_assoc]
      rfl
    refine ⟨?_, b, by simp [blocksSince_eq hw'], hheld hb⟩
    have hnone : blocksSince m₁ (final m₁ between) = [] := blocksSince_eq hsame
    simp [hnone]

set_option maxRecDepth 100000 in
theorem queued_words_reach_motion_iff_feed : ∃ m₀ m₁ m' : Machine,
    ∃ between : List (Command × Machine), Opens {} m₀ ∧
      Step { major := "cutcom", minor := ["left"] } m₀ m₁ ∧ Leads m₁ between ∧ between.length = 2 ∧
      Step { major := "goto", numeric := [1, 2, 3] } (final m₁ between) m' ∧
      ∃ b ∈ blocksSince (final m₁ between) m',
        m₀.queuedBy { major := "cutcom", minor := ["left"] } <:+: b.queued := by
  let c : Command := { major := "cutcom", minor := ["left"] }
  let cs : List Command := [{ major := "fedrat", numeric := [250] }, { major := "rapid" }]
  let c' : Command := { major := "goto", numeric := [1, 2, 3] }
  let check (m₀ : Machine) (steps : List (Command × Machine)) (_ : Machine) : Bool :=
    m₀.queuedBy c ≠ [] && (final m₀ steps).moves c' &&
      steps.head?.all fun s => decide (Waits s.2 steps.tail)
  have hparse : (Profile.parse "\x7b\x7d" .json []).toOption = some {} := by decide +kernel
  have hcheck : rehearse {} (c :: cs) c' check = true := by decide +kernel
  obtain ⟨m₀, steps, m', hopens, hrun, hcs, hstep, hcheck⟩ := exists_of_rehearse hcheck
  obtain ⟨⟨_, m₁⟩, between, rfl, rfl, hbetween⟩ := List.map_eq_cons_iff.mp hcs
  simp only [check, Bool.and_eq_true, decide_eq_true_eq, final_cons, List.head?_cons,
    Option.all_some, List.tail_cons] at hcheck hstep
  obtain ⟨⟨hqueues, hmoves⟩, hwaits⟩ := hcheck
  have hempty : Leads m₀ [] := trivial
  have hlength : between.length = 2 := by rw [← List.length_map Prod.fst, hbetween]; rfl
  have hreach := (queued_words_reach_motion_iff (Profile.accepted_of_parse hparse) hopens hempty rfl
    hrun.1 hqueues hrun.2 hstep hmoves).2.2.2.mpr (of_decide_eq_true hwaits)
  exact ⟨m₀, m₁, m', between, hopens, hrun.1, hrun.2, hlength, hstep, hreach.2⟩

set_option maxRecDepth 100000 in
/-- A coolant command writes the code and the depths of a cycle that was meant for
the motion behind it, and the motion goes without them. -/
theorem queued_words_miss_motion : ∃ (m₀ m m₁ m₂ m' : Machine) (steps : List (Command × Machine))
    (c coolant motion : Command), Opens { cycleStyle := .code } m₀ ∧ Leads m₀ steps ∧
      m = final m₀ steps ∧ Step c m m₁ ∧ m.queuedBy c ≠ [] ∧
      coolant.major = Text.ofString "coolnt" ∧ Step coolant m₁ m₂ ∧
      (∃ b ∈ blocksSince m₁ m₂, m.queuedBy c <:+: b.queued) ∧
      Step motion m₂ m' ∧ m₂.moves motion = true ∧
      ∀ b ∈ blocksSince m₂ m', ¬m.queuedBy c <:+: b.queued := by
  let start : Command := { major := "goto", numeric := [0, 0, 50] }
  let c : Command := { major := "cycle", minor := ["drill"], numeric := [10, 2] }
  let coolant : Command := { major := "coolnt", minor := ["flood"] }
  let motion : Command := { major := "goto", numeric := [10, 20, 50] }
  let after (i : Nat) (steps : List (Command × Machine)) (m' : Machine) : Machine :=
    (steps.map Prod.snd).getD i m'
  let check (_ : Machine) (steps : List (Command × Machine)) (m' : Machine) : Bool :=
    let words := (after 0 steps m').queuedBy c
    words ≠ [] && (after 2 steps m').moves motion &&
      ((blocksSince (after 1 steps m') (after 2 steps m')).any fun b =>
        b.queued.take words.length = words) &&
      (blocksSince (after 2 steps m') m').all fun b => b.queued = []
  have hcheck : rehearse { cycleStyle := .code } [start, c, coolant] motion check = true := by
    decide +kernel
  obtain ⟨m₀, steps, m', hopens, hrun, hcs, hstep, hcheck⟩ := exists_of_rehearse hcheck
  obtain ⟨⟨_, m⟩, steps₁, rfl, rfl, hcs₁⟩ := List.map_eq_cons_iff.mp hcs
  obtain ⟨⟨_, m₁⟩, steps₂, rfl, rfl, hcs₂⟩ := List.map_eq_cons_iff.mp hcs₁
  obtain ⟨⟨_, m₂⟩, steps₃, rfl, rfl, hcs₃⟩ := List.map_eq_cons_iff.mp hcs₂
  obtain rfl := List.map_eq_nil_iff.mp hcs₃
  simp only [check, after, List.map_cons, List.getD_cons_zero, List.getD_cons_succ,
    Bool.and_eq_true, decide_eq_true_eq, List.any_eq_true, List.all_eq_true] at hcheck
  obtain ⟨⟨⟨hqueues, hmoves⟩, b, hb, hwords⟩, hnone⟩ := hcheck
  refine ⟨m₀, m, m₁, m₂, m', [(start, m)], c, coolant, motion, hopens, ⟨hrun.1, trivial⟩, rfl,
    hrun.2.1, hqueues, rfl, hrun.2.2.1, ⟨b, hb, ?_⟩, hstep, hmoves, fun b hb => ?_⟩
  · have hfront := List.take_prefix (m.queuedBy c).length b.queued
    exact (hwords ▸ hfront).isInfix
  · rw [hnone b hb]
    exact fun h => hqueues (List.infix_nil.mp h)

end Toolpath.Machine
