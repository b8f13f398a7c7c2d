import Toolpath.Proofs.CheckedMotions
import Toolpath.Proofs.LegalBlocks
import Toolpath.Proofs.ModalCodes

/-!
# The path of a motion and its block

A motion follows the circle that was announced, unless it is rapid, a canned cycle is repeated or
the axis of the circle is not normal to the working plane; then it is straight. So its block holds
the code of the path unless that is the active one, the words of an arc if it is one, and the
coordinates that are to be restated.
-/

namespace Toolpath

theorem Frame.registers_mem (f : Frame) {r : Text} (hr : r ∈ f.registers) :
    ∃ a : Axis, r = a.register := by
  simp only [Frame.registers, List.mem_cons, List.not_mem_nil, or_false] at hr
  exact hr.elim (fun h => ⟨f.first, h⟩) fun h => ⟨f.second, h⟩

theorem Frame.registers_tracked (f : Frame) : ∀ r ∈ f.registers, r ∈ Machine.trackedNames := by
  intro r hr
  obtain ⟨a, rfl⟩ := f.registers_mem hr
  cases a <;> decide

namespace Machine

open Registers (normalName)

variable {S : Machine → Deed → Prop} {m m' m'' : Machine} {v : Verb} {c : Command}
  {r : Text} {u : Unit} {names names' : List Text}

theorem due_word? (hm : Fit m) (hr : r ∈ trackedNames) (number : Option Text) :
    Block.word? r ⟨number, m.writer.due m.rack⟩ = if m.flagged r then
      some (m.word r) else none := by
  have hi := hm.sound.indexed
  have htool : normalName "T" ≠ normalName r := by
    revert r
    decide
  rcases word?_due (r := r) hi number with ⟨hnone, hword⟩ | ⟨⟨t, ht, hof⟩, hword⟩
  · rw [hword, if_neg]
    intro hflagged
    cases hn : m.rack.registers.find? r with
    | none => simp [flagged, hn] at hflagged
    | some n =>
      have hchanged : n.changed = true := by simpa [flagged, hn] using hflagged
      obtain ⟨t, ht, hof, -⟩ :=
        BlockWriter.due_flagged hi (render_ne_nil n) hn hchanged (hm.tracks hr)
      simp [hnone t ht] at hof
  · rw [hword, if_pos]
    by_contra hflagged
    have hnone := BlockWriter.due_unflagged hi (fun q hq => (hm.sound.proper q hq).isOf htool)
      fun n hn => by
      simpa [flagged, hn] using hflagged
    simp [hnone t ht] at hof

theorem due_queued (hm : Fit m) (number : Option Text) :
    Block.queued ⟨number, m.writer.due m.rack⟩ = m.writer.pending :=
  BlockWriter.queued_due hm.sound.proper hm.sound.indexed hm.sound.tool

theorem wroteBlock_block (hm : Fit m) :
    (m.wroteBlock.writer.written = m.writer.written ∧ m.writer.pending = [] ∧
      ∀ r ∈ trackedNames, m.flagged r = false) ∨
    ∃ b : Block, m.wroteBlock.writer.written = b :: m.writer.written ∧ b.queued = m.writer.pending ∧
      ∀ r ∈ trackedNames, b.word? r = if m.flagged r then some (m.wroteBlock.word r) else none := by
  rcases wroteBlock_written m with ⟨hnil, hw⟩ | ⟨-, number, hw⟩
  · refine .inl ⟨hw, by rw [← due_queued hm none, hnil]; rfl, fun r hr => ?_⟩
    by_contra hflagged
    obtain ⟨b, hb, -⟩ :=
      wroteBlock_flagged hm.sound.indexed (hm.tracks hr) (by simpa using hflagged)
    simp [hw] at hb
  · refine .inr ⟨_, hw, due_queued hm number, fun r hr => ?_⟩
    rw [due_word? hm hr, wroteBlock_word hm.sound.indexed]

theorem Course.blocks {I : Machine → Prop} (hkept : ∀ d a b, S a d → Does d a b → I a → I b)
    (h : Course S m m') (hm : I m) :
    I m' ∧ ∃ bs : List Block, m'.writer.written = bs ++ m.writer.written ∧
      ∀ b ∈ bs, ∃ a number, I a ∧ b = ⟨number, a.writer.due a.rack⟩ := by
  -- the invariant is that of the course, together with the blocks since its start
  refine h.kept (R := fun a a' => I a → I a' ∧ ∃ bs : List Block,
    a'.writer.written = bs ++ a.writer.written ∧
    ∀ b ∈ bs, ∃ a number, I a ∧ b = ⟨number, a.writer.due a.rack⟩)
    (fun _ ha => ⟨ha, [], rfl, by simp⟩) (fun h h' ha => ?_)
    (fun d a a' hd hab ha => ⟨hkept d a a' hd hab ha, ?_⟩) hm
  · obtain ⟨hb, bs, hbs, hdue⟩ := h ha
    obtain ⟨hc, bs', hbs', hdue'⟩ := h' hb
    refine ⟨hc, bs' ++ bs, by rw [hbs', hbs, List.append_assoc], fun b hb => ?_⟩
    rcases List.mem_append.mp hb with hb | hb
    · exact hdue' b hb
    · exact hdue b hb
  · by_cases hblock : d = .block
    · subst hblock
      cases hab
      rcases wroteBlock_written a with ⟨-, hw⟩ | ⟨-, number, hw⟩
      · exact ⟨[], hw, by simp⟩
      · exact ⟨[_], hw, fun b hb => ⟨a, number, ha, List.mem_singleton.mp hb⟩⟩
    · exact ⟨[], hab.written hblock, by simp⟩

theorem Does.unflagged {d : Deed} (h : Does d m m') (hd : PassesBy r d) (hm : Fit m)
    (hr : r ∈ trackedNames) (hf : m.flagged r = false) : m'.flagged r = false := by
  have hi := hm.sound.indexed
  cases h with
  | hold _ a x n found =>
    rw [Machine.flagged, Rack.set_register, Registers.find?_modify_other hi (Ne.symm hd)]
    exact hf
  | flag _ b a =>
    rw [Machine.flagged, Rack.flag_register]
    by_cases ha : normalName r = normalName a
    · rcases hd with rfl | hd
      · cases hn : m.rack.registers.find? r <;> simp [Registers.find?_modify_same ha, hn]
      · exact absurd ha.symm hd
    · rw [Registers.find?_modify_other hi ha]
      exact hf
  | clearFlags =>
    cases hn : m.rack.registers.find? r <;> simp [Machine.flagged, Registers.find?_clearFlags, hn]
  | block => rw [wroteBlock_flagged_eq hi (hm.tracks hr), hf, Bool.false_and]
  | _ => exact hf

/-- The registers of these names were flagged; what else there is, other flags included,
is as it was. -/
structure Shows (names : List Text) (m m' : Machine) : Prop where
  rest : ∃ rack, m' = { m with rack }
  flags : ∀ r ∈ trackedNames, m'.flagged r = (m.flagged r || decide (r ∈ names))
  fit : Fit m'

theorem Shows.refl (hm : Fit m) : Shows [] m m := ⟨⟨m.rack, rfl⟩, by simp, hm⟩

theorem Shows.trans (h : Shows names m m') (h' : Shows names' m' m'') :
    Shows (names ++ names') m m'' := by
  obtain ⟨rack, rfl⟩ := h.rest
  obtain ⟨rack', rfl⟩ := h'.rest
  refine ⟨⟨rack', rfl⟩, fun r hr => ?_, h'.fit⟩
  rw [h'.flags r hr, h.flags r hr, Bool.or_assoc]
  simp [Bool.decide_or]

theorem tracked_apart :
    ∀ r ∈ trackedNames, ∀ a ∈ trackedNames, normalName r = normalName a → r = a := by
  decide

theorem flag_shows {a : Text} (ha : a ∈ trackedNames) (hm : Fit m) :
    Shows [a] m { m with rack := m.rack.flag true (.register a) } := by
  refine ⟨⟨_, rfl⟩, fun r hr => ?_, (Does.flag m true a).fit trivial hm⟩
  by_cases hname : r = a
  · subst hname
    rw [flag_flagged (hm.has r hr)]
    simp
  · have hother : normalName r ≠ normalName a := fun h => hname (tracked_apart r hr a ha h)
    simp [flagged, Rack.flag_register, Registers.find?_modify_other hm.sound.indexed hother, hname]

theorem flags_show (names : List Text) (hnames : ∀ a ∈ names, a ∈ trackedNames) (hm : Fit m) :
    Shows names m { m with
      rack := names.foldl (fun r name => r.flag true (.register name)) m.rack } := by
  induction names generalizing m with
  | nil => exact .refl hm
  | cons a names ih =>
    have hfirst := flag_shows (hnames a List.mem_cons_self) hm
    exact hfirst.trans (ih (fun a ha => hnames a (List.mem_cons_of_mem _ ha)) hfirst.fit)

theorem setArcWord_shows {a : Text} {x : Float} (ha : a ∈ trackedNames) (hm : Fit m)
    (h : (setArcWord a x).run m = .ok u m') : Shows [a] m m' := by
  obtain ⟨_, m₁, h₁, h₂⟩ := run_bind_ok.mp h
  obtain ⟨n, hn⟩ := hm.has a ha
  rw [setRegister_run] at h₁
  simp only [hn] at h₁
  split at h₁
  · cases h₁
    cases h₂
    have hheld := Does.hold m a x n hn
    obtain ⟨-, hflags, hfit⟩ := flag_shows ha (hheld.fit trivial hm)
    refine ⟨⟨_, rfl⟩, fun r hr => (hflags r hr).trans ?_, hfit⟩
    by_cases hname : r = a
    · simp [hname]
    · have hother : normalName r ≠ normalName a := fun h => hname (tracked_apart r hr a ha h)
      simp [flagged, Rack.set_register, Registers.find?_modify_other hm.sound.indexed hother, hname]
  · cases h₁

/-! ## Arcs -/

def arcNames : List Text := ["I", "J", "K", "R"]

def frame (m : Machine) : Frame := Frame.named (m.vars.text Variable.plane Plane.xy.name)

/-- The words of an arc beside its end point: the offsets of its center in the working
plane, or its radius where the profile has arcs written so. -/
def ArcWords (m : Machine) (names : List Text) : Prop :=
  names = [m.frame.first.offset, m.frame.second.offset] ∨ m.profile.arcRadius = true ∧
  names = [Text.ofString "R"]

theorem arcNames_apart (f : Frame) : ∀ r ∈ arcNames, r ∉ f.registers := by
  intro r hr hmem
  obtain ⟨a, rfl⟩ := f.registers_mem hmem
  revert hr
  cases a <;> decide

theorem offset_tracked (a : Axis) : a.offset ∈ trackedNames := by
  cases a <;> decide

variable {start : Point} {p : Profile}

theorem emitArcWords_shows {circle : Circle} {winding : Winding} (hcoded : m.profile.Coded)
    (hm : Fit m) (h : (emitArcWords m.frame circle winding start).run m = .ok u m') :
    ∃ names, ArcWords m names ∧
      Shows (m.frame.registers ++ names)
        (m.selected ModalGroup.motion.name winding.code.name) m' := by
  obtain ⟨_, _, hget, h⟩ := run_bind_ok.mp h
  cases hget
  obtain ⟨_, _, h₁, h⟩ := run_bind_ok.mp h
  rw [emitModal_run, if_neg (hcoded winding.code)] at h₁
  cases h₁
  have hcode :=
    (Does.select m ModalGroup.motion.name winding.code.name (hcoded winding.code)).fit trivial hm
  obtain ⟨_, m₁, h₁, h⟩ := run_bind_ok.mp h
  have hends : Shows m.frame.registers
      (m.selected ModalGroup.motion.name winding.code.name) m₁ := by
    cases h₁
    exact flags_show _ m.frame.registers_tracked hcode
  obtain ⟨_, _, hget, h⟩ := run_bind_ok.mp h
  cases hget
  have hprofile : m₁.profile = m.profile := by
    obtain ⟨rack, rfl⟩ := hends.rest
    rfl
  split at h
  case isTrue hradius =>
    have harc : m.profile.arcRadius = true := by
      rw [← hprofile]
      exact (Bool.and_eq_true_iff.mp hradius).1
    exact ⟨_, .inr ⟨harc, rfl⟩, hends.trans (setArcWord_shows (by decide) hends.fit h)⟩
  case isFalse =>
    obtain ⟨_, _, h, hlast⟩ := run_bind_ok.mp h
    cases hlast
    obtain ⟨m₂, h₂, h⟩ := forIn_cons_ok h
    obtain ⟨m₃, h₃, h⟩ := forIn_cons_ok h
    cases h
    have hfirst := setArcWord_shows (offset_tracked _) hends.fit h₂
    have hsecond := setArcWord_shows (offset_tracked _) hfirst.fit h₃
    exact ⟨_, .inl rfl, hends.trans (hfirst.trans hsecond)⟩

/-- The circle that a motion follows and the sense of that, if it is not straight for
another reason. -/
def arcUnless (m : Machine) (straight : Bool) : Option (Circle × Winding) :=
  if straight then none
  else m.circle.bind fun circle => (Arc.winding? m.frame circle).map
    fun winding => (circle, winding)

theorem arcUnless_some {straight : Bool} {circle : Circle} {winding : Winding}
    (h : m.arcUnless straight = some (circle, winding)) :
    straight = false ∧ m.circle = some circle ∧ Arc.winding? m.frame circle = some winding := by
  unfold arcUnless at h
  split at h
  · cases h
  case isFalse hbent =>
    obtain ⟨circle', hcircle, h⟩ := Option.bind_eq_some_iff.mp h
    obtain ⟨winding', hwinding, h⟩ := Option.map_eq_some_iff.mp h
    cases h
    exact ⟨by simpa using hbent, hcircle, hwinding⟩

theorem followCircle_ok {rapid arc : Bool} (h : (followCircle start rapid).run m = .ok arc m') :
    (arc = false ∧ m.arcUnless (rapid || m.active .cycle ≠ []) = none ∧
      ∃ log, m' = { m with circle := none, log }) ∨
    (arc = true ∧ ∃ circle winding,
      m.arcUnless (rapid || m.active .cycle ≠ []) = some (circle, winding) ∧
      (emitArcWords m.frame circle winding start).run { m with circle := none } = .ok () m') := by
  rw [followCircle_eq] at h
  obtain ⟨_, _, hget, h⟩ := run_bind_ok.mp h
  cases hget
  unfold arcUnless
  cases hcircle : m.circle with
  | none =>
    simp only [hcircle] at h
    cases h
    exact .inl ⟨rfl, by simp, m.log, by rw [← hcircle]⟩
  | some circle =>
    simp only [hcircle] at h
    obtain ⟨_, _, hdrop, h⟩ := run_bind_ok.mp h
    cases hdrop
    split at h
    case isTrue hstraight =>
      cases h
      exact .inl ⟨rfl, if_pos hstraight, _, rfl⟩
    case isFalse hbent =>
      rw [if_neg hbent, Option.bind_some]
      cases hwinding : Arc.winding?
        (Frame.named (m.vars.text Variable.plane Plane.xy.name)) circle with
      | none =>
        simp only [hwinding] at h
        cases h
        exact .inl ⟨rfl, by simp [frame, hwinding], _, rfl⟩
      | some winding =>
        simp only [hwinding] at h
        obtain ⟨_, m₁, harc, h⟩ := run_bind_ok.mp h
        cases h
        exact .inr ⟨rfl, circle, winding, by simp [frame, hwinding], harc⟩

def pathFunction (arc : Option (Circle × Winding)) (rapid : Bool) : Function :=
  match arc with
  | some (_, winding) => winding.code
  | none => if rapid then .rapid else .linear

theorem pathFunction_mem (arc : Option (Circle × Winding)) (rapid : Bool) :
    pathFunction arc rapid ∈ pathFunctions := by
  unfold pathFunction
  split
  case h_1 winding => cases winding <;> decide
  case h_2 => cases rapid <;> decide

def PathNames (m : Machine) (arc : Option (Circle × Winding)) (names : List Text) : Prop :=
  match arc with
  | some _ => ∃ words, ArcWords m words ∧ names = m.frame.registers ++ words
  | none => names = []

theorem selected_active (m : Machine) (g : ModalGroup) (f : Function) :
    (m.selected g.name f.name).active g = m.profile.code f := by
  simp [active, activeNamed, selected, Memo.text, Profile.code]

/-- What is there before the block of a motion: the circle is gone, the code of the path
waits unless it is known or a hole is drilled, and the words of an arc are shown. -/
structure TookPath (m : Machine) (rapid : Bool) (m' : Machine) : Prop where
  fit : Fit m'
  circle : m'.circle = none
  written : m'.writer.written = m.writer.written
  code : m.active .cycle = [] → m'.active .motion =
    m.profile.code (pathFunction (m.arcUnless (rapid || m.active .cycle ≠ [])) rapid)
  pending : m'.writer.pending = m.writer.pending ++ if m.active .cycle = [] then
    m.modalWords .motion (pathFunction (m.arcUnless (rapid || m.active .cycle ≠ [])) rapid) else []
  flags : ∃ names, PathNames m (m.arcUnless (rapid || m.active .cycle ≠ [])) names ∧
    ∀ r ∈ trackedNames, m'.flagged r = (m.flagged r || decide (r ∈ names))

theorem emitStraight_idle {rapid : Bool} (hcoded : m.profile.Coded) (ha : m.active .cycle = []) :
    (emitStraight rapid).run m =
      .ok () (m.selected ModalGroup.motion.name (pathFunction none rapid).name) := by
  simp only [emitStraight, EStateM.run_bind, EStateM.run_get, ha, decide_true, onlyIf, if_true]
  exact (emitModal_run m .motion _).trans (if_neg (hcoded _))

theorem takePath_took {rapid : Bool} (hcoded : m.profile.Coded) (hm : Fit m)
    (h : (takePath start rapid).run m = .ok u m') : TookPath m rapid m' := by
  obtain ⟨arc, m₁, h₁, h⟩ := run_bind_ok.mp h
  obtain ⟨_, m₂, h₂, h⟩ := run_bind_ok.mp h
  obtain ⟨vars, stats, rfl⟩ : ∃ vars stats, m' = { m₂ with vars, stats } := by
    cases rapid <;> cases h <;> exact ⟨_, _, rfl⟩
  rcases followCircle_ok h₁ with ⟨rfl, harc, log, rfl⟩ | ⟨rfl, circle, winding, harc, hwords⟩
  · -- a straight path: its code is stated unless a hole is drilled
    have hfit : Fit { m with circle := none, log } := hm.congr rfl rfl
    change (emitStraight rapid).run { m with circle := none, log } = .ok () m₂ at h₂
    by_cases ha : m.active .cycle = []
    · rw [emitStraight_idle (m := { m with circle := none, log }) hcoded ha] at h₂
      cases h₂
      obtain ⟨hpending, hwritten⟩ :=
        selected_pending { m with circle := none, log } .motion (pathFunction none rapid)
      have hselect := Does.select { m with circle := none, log } ModalGroup.motion.name
        (pathFunction none rapid).name (hcoded _)
      refine ⟨(hselect.fit trivial hfit).congr rfl rfl, rfl, hwritten, fun _ => ?_, ?_,
        [], by rw [harc]; rfl, fun r _ => (Bool.or_false _).symm⟩
      · rw [harc]
        exact selected_active { m with circle := none, log } .motion (pathFunction none rapid)
      · rw [harc, if_pos ha]
        exact hpending
    · rw [emitStraight_drilling (m := { m with circle := none, log }) ha] at h₂
      cases h₂
      refine ⟨hfit.congr rfl rfl, rfl, rfl, fun h => absurd h ha, ?_, [], by rw [harc]; rfl,
        fun r _ => (Bool.or_false _).symm⟩
      rw [if_neg ha, List.append_nil]
  · -- an arc: it stated its code itself, and no cycle is active
    cases h₂
    have ha : m.active .cycle = [] := by
      simpa using (Bool.or_eq_false_iff.mp (arcUnless_some harc).1).2
    have hfit : Fit { m with circle := none } := hm.congr rfl rfl
    obtain ⟨words, hnames, hshows⟩ :=
      emitArcWords_shows (m := { m with circle := none }) hcoded hfit hwords
    obtain ⟨hpending, hwritten⟩ := selected_pending { m with circle := none } .motion winding.code
    obtain ⟨rack, rfl⟩ := hshows.rest
    refine ⟨hshows.fit.congr rfl rfl, rfl, hwritten, fun _ => ?_, ?_, m.frame.registers ++ words,
      ?_, hshows.flags⟩
    · rw [harc]
      exact selected_active { m with circle := none } .motion winding.code
    · rw [harc, if_pos ha]
      exact hpending
    · rw [harc]
      exact ⟨words, hnames, rfl⟩

def arc? (m : Machine) : Option (Circle × Winding) := m.arcUnless (m.isRapid || m.drills)

def path (m : Machine) : Function := pathFunction m.arc? m.isRapid

/-- The words that wait before the block of a motion: the end of a single hole, and the
code of the path unless it is the one that is known. -/
def motionWords (m : Machine) : List Queued :=
  (if m.drillsOnce then [codeOf m.profile .cycleCancel] else []) ++
    if m.drills || m.profile.code m.path = m.knownMotion then []
    else [.code ⟨m.path.name, some ModalGroup.motion.name, m.profile.code m.path⟩]

/-- What is there before the block of a motion, which is announced in the first machine. -/
structure Heads (m m' : Machine) : Prop where
  fit : Fit m'
  circle : m'.circle = none
  written : m'.writer.written = m.writer.written
  code : m.drills = false → m'.active .motion = m.profile.code m.path
  pending : m'.writer.pending = m.writer.pending ++ m.motionWords
  straight : m.arc? = none → ∀ r ∈ arcNames, m'.flagged r = m.flagged r
  bent : m.arc? ≠ none → ∃ words, ArcWords m words ∧
    (∀ r ∈ m.frame.registers, m'.flagged r = true) ∧
    ∀ r ∈ arcNames, m'.flagged r = (m.flagged r || decide (r ∈ words))
  restated : m.restates = true → m'.flagged "X" = true ∧ m'.flagged "Y" = true ∧
    (m.drills = false → m'.flagged "Z" = true)
  hidden : m.drills = true → m'.flagged "Z" = false

theorem restated_shows (hm : Fit m) :
    Fit m.restated ∧ ∀ r ∈ trackedNames, m.restated.flagged r =
      (m.flagged r || (m.restates && decide (r ∈ (["X", "Y", "Z"] : List Text)))) := by
  unfold Machine.restated restates
  split
  case isTrue h =>
    have hshows := flags_show ["X", "Y", "Z"] (by decide) hm
    refine ⟨hshows.fit.congr rfl rfl, fun r hr => ?_⟩
    rw [h, Bool.true_and]
    exact hshows.flags r hr
  case isFalse h =>
    refine ⟨hm, fun r hr => ?_⟩
    rw [Bool.eq_false_of_not_eq_true h, Bool.false_and, Bool.or_false]

theorem adapted_flagged (hm : Fit m) (hr : r ∈ trackedNames) : m.adapted.flagged r =
    if r = "Z" ∧ m.active .cycle ≠ [] then m.vars.flag Variable.cycleOnce false
    else m.flagged r := by
  have hz : Text.ofString "Z" ∈ trackedNames := by decide
  have hflag (b : Bool) : ({ m with rack := m.rack.flag b (.register "Z") } : Machine).flagged r =
      if r = "Z" then b else m.flagged r := by
    split
    case isTrue h => exact h ▸ flag_flagged (hm.has _ hz) b
    case isFalse h =>
      have hother : normalName r ≠ normalName "Z" := fun hname => h (tracked_apart r hr _ hz hname)
      rw [flagged, Rack.flag_register, Registers.find?_modify_other hm.sound.indexed hother]
      rfl
  unfold adapted
  by_cases ha : m.active .cycle = []
  · simp [ha]
  · rw [if_neg ha]
    simp only [ha, ne_eq, not_false_eq_true, and_true]
    split
    case isTrue honce =>
      rw [honce]
      exact hflag true
    case isFalse honce =>
      rw [Bool.eq_false_of_not_eq_true honce]
      exact hflag false

theorem adapted_arcUnless (m : Machine) (straight : Bool) :
    m.restated.adapted.frame = m.frame ∧
    m.restated.adapted.arcUnless straight = m.arcUnless straight := by
  have hrestated : m.restated.frame = m.frame := by
    have hplane : Variable.plane ≠ Variable.restate := by decide
    unfold Machine.restated
    split
    · simp [frame, Memo.text, hplane]
    · rfl
  have hadapted (a : Machine) : a.adapted.frame = a.frame := by
    have hcycle : Variable.plane ≠ Variable.cycle := by decide
    have honce : Variable.plane ≠ Variable.cycleOnce := by decide
    unfold Machine.adapted
    split
    · rfl
    · split
      · simp [frame, Machine.cancelled, Memo.text, hcycle, honce]
      · rfl
  have hframe := (hadapted m.restated).trans hrestated
  refine ⟨hframe, ?_⟩
  rw [arcUnless, arcUnless, hframe, (adapted_others _).2, (restated_others m).2.1]

theorem adapted_pending (m : Machine) :
    m.adapted.writer.pending = m.writer.pending ++
      (if m.drillsOnce then [codeOf m.profile .cycleCancel] else []) ∧
      m.adapted.writer.written = m.writer.written := by
  unfold adapted drillsOnce
  by_cases ha : m.active .cycle = []
  · simp [ha]
  · cases honce : m.vars.flag Variable.cycleOnce false with
    | true => simp [ha, cancelled, BlockWriter.queue]
    | false => simp [ha]

theorem adapted_words (hcoded : m.profile.Coded) (hm : Fit m) :
    m.restated.adapted.writer.pending =
      m.writer.pending ++ (if m.drillsOnce then [codeOf m.profile .cycleCancel] else []) ∧
    m.restated.adapted.writer.written = m.writer.written ∧
    m.restated.adapted.active .motion = m.knownMotion := by
  obtain ⟨hsound, hidles⟩ := restated_idles hm.sound
  obtain ⟨hprofile, -, -, -⟩ := restated_others m
  have hsame : m.restated.writer = m.writer ∧ m.restated.active .motion = m.active .motion := by
    unfold Machine.restated
    split <;> exact ⟨rfl, rfl⟩
  obtain ⟨hpending, hwritten⟩ := adapted_pending m.restated
  refine ⟨?_, by rw [hwritten, hsame.1], ?_⟩
  · rw [hpending, hsame.1, hidles.drillsOnce, hprofile]
  · rw [(adapted_tells (hprofile ▸ hcoded) hsound).known, knownMotion, knownMotion,
      hidles.drillsOnce, hsame.2]

theorem adapted_shows (hcoded : m.profile.Coded) (hm : Fit m) :
    Fit m.restated.adapted ∧ ∀ r ∈ trackedNames, m.restated.adapted.flagged r =
      if r = "Z" ∧ m.active .cycle ≠ [] then m.vars.flag Variable.cycleOnce false
      else m.flagged r || (m.restates && decide (r ∈ (["X", "Y", "Z"] : List Text))) := by
  obtain ⟨hfit, hrestated⟩ := restated_shows hm
  obtain ⟨-, hidles⟩ := restated_idles hm.sound
  have hcoded' : m.restated.profile.Coded := (restated_others m).1 ▸ hcoded
  have hcourse := keepsTo_adaptToCycle (p := m.restated.profile) m.restated rfl
    () _ (adaptToCycle_run hcoded')
  refine ⟨hcourse.fit
    (fun _ _ hd => May.orderly (v := .goto) (.move rfl (.travel (.adapt hd)))) hfit, fun r hr => ?_⟩
  rw [adapted_flagged hfit hr, hrestated r hr, hidles.active, Memo.flag, Memo.flag, hidles.once]

theorem modalWords_eq (hcoded : m.profile.Coded) (g : ModalGroup) (f : Function) :
    m.modalWords g f = if m.profile.code f = m.active g then []
      else [.code { function := f.name, group := some g.name, text := m.profile.code f }] := by
  have hchanged := hasChanged_iff (m := m) (g := g) (hcoded f)
  unfold modalWords
  by_cases hsame : m.profile.code f = m.active g
  · rw [if_pos hsame, if_neg fun h => hchanged.mp h hsame]
  · rw [if_neg hsame, if_pos (hchanged.mpr hsame)]

theorem queueMotion_path (hcoded : m.profile.Coded) (hm : Fit m)
    (h : (queueMotion start).run m = .ok u m') : Fit m' ∧ m'.circle = none ∧
      m'.writer.written = m.writer.written ∧ m'.writer.pending = m.writer.pending ++ m.motionWords ∧
      (m.drills = false → m'.active .motion = m.profile.code m.path) ∧
      ∃ names, PathNames m m.arc? names ∧
        ∀ r ∈ trackedNames,
          m'.flagged r = (m.restated.adapted.flagged r || decide (r ∈ names)) := by
  obtain ⟨hpending, hwritten, hknown⟩ := adapted_words hcoded hm
  obtain ⟨hprofile, -, hrapid, -⟩ := restated_others m
  have hprofile' : m.restated.adapted.profile = m.profile := (adapted_others _).1.trans hprofile
  have hcoded' : m.restated.adapted.profile.Coded := hprofile' ▸ hcoded
  have hdrills : decide (m.restated.adapted.active .cycle ≠ []) = m.drills :=
    (adapted_drills _).trans (restated_drills m)
  obtain ⟨hframe, harc⟩ := adapted_arcUnless m (m.isRapid || m.drills)
  obtain ⟨hfit, hcircle, hsame, hcode, hwords, names, hnames, hflags⟩ :=
    takePath_took hcoded' (adapted_shows hcoded hm).1 (queueMotion_ok hcoded h)
  have hidle (hd : m.drills = false) : m.restated.adapted.active .cycle = [] := by
    simpa using hdrills.trans hd
  -- what the path found has to be told by what the motion found
  rw [hdrills, hrapid, harc] at hwords hcode hnames
  refine ⟨hfit, hcircle, hsame.trans hwritten, ?_, fun hd => ?_, names, ?_, hflags⟩
  · have hpath := modalWords_eq hcoded' .motion m.path
    rw [hknown, hprofile'] at hpath
    change _ = _ ++ if _ then m.restated.adapted.modalWords .motion m.path else [] at hwords
    rw [hwords, hpending, hpath, List.append_assoc, motionWords]
    cases hd : m.drills with
    | true => rw [if_neg (of_decide_eq_true (hdrills.trans hd)), Bool.true_or, if_pos rfl]
    | false => simp [hidle hd]
  · rw [hcode (hidle hd), hprofile']
    rfl
  · rw [arc?]
    simpa only [PathNames, ArcWords, hframe, hprofile'] using hnames

theorem adapted_restated (hcoded : m.profile.Coded) (hm : Fit m) (h : m.restates = true) :
    ∀ r ∈ (["X", "Y", "Z"] : List Text), (r = "Z" → m.drills = false) →
      m.restated.adapted.flagged r = true := by
  have htracked : ∀ r ∈ (["X", "Y", "Z"] : List Text), r ∈ trackedNames := by decide
  intro r hr hz
  rw [(adapted_shows hcoded hm).2 r (htracked r hr)]
  split
  case isTrue hdepth => simpa [drills, hdepth.2] using hz hdepth.1
  case isFalse => simp [h, hr]

theorem adapted_arcNames (hcoded : m.profile.Coded) (hm : Fit m) :
    ∀ r ∈ arcNames, r ∈ trackedNames ∧ m.restated.adapted.flagged r = m.flagged r := by
  have hapart : ∀ r ∈ arcNames, r ∈ trackedNames ∧ r ∉ (["X", "Y", "Z"] : List Text) := by decide
  intro r hr
  obtain ⟨htracked, hpoint⟩ := hapart r hr
  have hz : r ≠ "Z" := by
    rintro rfl
    exact hpoint (by simp)
  refine ⟨htracked, ?_⟩
  simp [(adapted_shows hcoded hm).2 r htracked, hz, hpoint]

theorem queueMotion_heads (hcoded : m.profile.Coded) (hm : Fit m)
    (h : (queueMotion start).run m = .ok u m') : Heads m m' := by
  obtain ⟨hfit, hcircle, hwritten, hpending, hcode, names, hnames, hflags⟩ :=
    queueMotion_path hcoded hm h
  have hbefore := adapted_arcNames hcoded hm
  have hstraight (harc : m.arc? = none) : names = [] := by
    rw [harc] at hnames
    exact hnames
  refine ⟨hfit, hcircle, hwritten, hcode, hpending, fun harc r hr => ?_, fun hbent => ?_,
    fun hrestates => ?_, fun hd => ?_⟩
  · rw [hflags r (hbefore r hr).1, (hbefore r hr).2, hstraight harc]
    exact Bool.or_false _
  · obtain ⟨arc, harc⟩ := Option.ne_none_iff_exists'.mp hbent
    rw [harc] at hnames
    obtain ⟨words, hwords, rfl⟩ := hnames
    refine ⟨words, hwords, fun r hr => ?_, fun r hr => ?_⟩
    · rw [hflags r (m.frame.registers_tracked r hr)]
      simp [hr]
    · rw [hflags r (hbefore r hr).1, (hbefore r hr).2]
      simp [arcNames_apart m.frame r hr]
  · have hshown := adapted_restated hcoded hm hrestates
    refine ⟨?_, ?_, fun hd => ?_⟩
    · rw [hflags _ (by decide), hshown "X" (by simp) fun h => absurd h (by decide), Bool.true_or]
    · rw [hflags _ (by decide), hshown "Y" (by simp) fun h => absurd h (by decide), Bool.true_or]
    · rw [hflags _ (by decide), hshown "Z" (by simp) fun _ => hd, Bool.true_or]
  · have hrepeated : m.active .cycle ≠ [] ∧ m.vars.flag Variable.cycleOnce false = false := by
      simpa [drills] using hd
    have harc : m.arc? = none := by simp [arc?, arcUnless, hd]
    rw [hflags _ (by decide), (adapted_shows hcoded hm).2 _ (by decide), if_pos ⟨rfl, hrepeated.1⟩,
      hrepeated.2, hstraight harc]
    rfl

def announcing (m : Machine) (v : Verb) : Machine := { m with vars := announced v m.vars }

theorem announcing_restates (h : m.restates = true) (v : Verb) :
    (m.announcing v).restates = true := by
  have hne : Variable.restate ≠ Variable.motion := by decide
  have hrestate : m.vars.flag Variable.restate false = true := h
  unfold restates announcing announced
  split
  · simpa [Memo.flag, hne] using hrestate
  · simp [Memo.flag, hne]
  · exact h

theorem announcing_drills (m : Machine) (v : Verb) : (m.announcing v).drills = m.drills := by
  have hidles := announced_idles m v
  rw [drills, drills, announcing, hidles.active, Memo.flag, Memo.flag, hidles.once]

theorem announcing_frame (m : Machine) (v : Verb) : (m.announcing v).frame = m.frame := by
  have hmotion : Variable.plane ≠ Variable.motion := by decide
  have hrestate : Variable.plane ≠ Variable.restate := by decide
  unfold frame announcing announced
  split <;> simp [Memo.text, hmotion, hrestate]

def arcOn? (m : Machine) (c : Command) : Option (Circle × Winding) :=
  (m.verbs.resolve c).bind fun vc => (m.announcing vc.1).arc?

theorem arcOn?_eq {c' : Command} (hv : m.verbs.resolve c = some (v, c')) :
    m.arcOn? c = (m.announcing v).arc? := by
  rw [arcOn?, hv, Option.bind_some]

theorem Course.called (h : Course (CallMay p) m m') (hm : Fit m) (hempty : m.writer.pending = []) :
    m'.circle = m.circle ∧ m'.modal = m.modal ∧ (∀ r, m'.word r = m.word r) ∧
    ∃ calls : List Block, m'.writer.written = calls ++ m.writer.written ∧ ∀ b ∈ calls,
      (∀ q ∈ b.queued, ∃ w, q = .once w) ∧ ∀ r ∈ trackedNames, m.flagged r = false →
      b.word? r = none := by
  have hcall {a : Machine} {d : Deed} (hd : CallMay p a d) : Orderly d :=
    May.orderly (v := .goto) (.move rfl (.call hd))
  let I (a : Machine) : Prop := Fit a ∧ a.circle = m.circle ∧ a.modal = m.modal ∧
    (∀ r, a.word r = m.word r) ∧ (∀ q ∈ a.writer.pending, ∃ w, q = .once w) ∧
    ∀ r ∈ trackedNames, m.flagged r = false → a.flagged r = false
  have hkept (d : Deed) (a b : Machine) (hd : CallMay p a d) (hab : Does d a b) (ha : I a) :
      I b := by
    obtain ⟨hfit, hcircle, hmodal, hword, hpending, hflagged⟩ := ha
    have hfit' := hab.fit (hcall hd) hfit
    have hflagged' (r : Text) (hr : r ∈ trackedNames) (hf : m.flagged r = false) :
        b.flagged r = false :=
      hab.unflagged hd.passesBy hfit hr (hflagged r hr hf)
    cases hd with
    | book =>
      cases hab
      exact ⟨hfit', hcircle, hmodal, hword, hpending, hflagged'⟩
    | queue =>
      cases hab
      refine ⟨hfit', hcircle, hmodal, hword, ?_, hflagged'⟩
      simpa [BlockWriter.queue, or_imp, forall_and] using hpending
    | block =>
      cases hab
      exact ⟨hfit', (wroteBlock_circle a).trans hcircle, (wroteBlock_modal a).trans hmodal,
        fun r => (wroteBlock_word hfit.sound.indexed).trans
          (hword r), by simp [wroteBlock_pending], hflagged'⟩
  obtain ⟨hend, calls, hcalls, hdue⟩ :=
    h.blocks hkept ⟨hm, rfl, rfl, fun _ => rfl, by simp [hempty], fun _ _ h => h⟩
  refine ⟨hend.2.1, hend.2.2.1, hend.2.2.2.1, calls, hcalls, fun b hb => ?_⟩
  obtain ⟨a, number, ⟨hfit, -, -, -, hpending, hflagged⟩, rfl⟩ := hdue b hb
  refine ⟨fun q hq => hpending q ?_, fun r hr hf => ?_⟩
  · rwa [due_queued hfit] at hq
  · rw [due_word? hfit hr, hflagged r hr hf]
    rfl

theorem Heads.of_rack {rack : Rack} {stats : Stats} {log : List Note}
    (h : Heads { m with rack, stats, log } m')
    (hkept : ∀ r ∈ arcNames, rack.registers.find? r = m.rack.registers.find? r) : Heads m m' := by
  have hflagged {r : Text} (hr : r ∈ arcNames) : flagged { m with rack, stats, log } r =
      m.flagged r := by
    rw [flagged, flagged, hkept r hr]
  refine ⟨h.fit, h.circle, h.written, h.code, h.pending, fun hstraight r hr => ?_,
    fun hbent => ?_, h.restated, h.hidden⟩
  · rw [h.straight hstraight r hr, hflagged hr]
  · obtain ⟨words, hwords, hpoint, harc⟩ := h.bent hbent
    exact ⟨words, hwords, hpoint, fun r hr => by rw [harc r hr, hflagged hr]⟩

theorem moveTo_heads (hcoded : m.profile.Coded) (hm : Fit m) (hne : c.numeric.isEmpty = false)
    (h : (moveTo c).run m = .ok u m') :
    ∃ a, Heads m a ∧ (∀ r, a.isModal r = m.isModal r) ∧ Fit a.wroteBlock ∧
      Course (CallMay m.profile) a.wroteBlock m' := by
  obtain ⟨a₁, a₂, a₃, h₁, h₂, h₃, taken, hcall⟩ := moveTo_ok hne h
  have haxis : Course AxisMay m a₂ :=
    (keepsTo_setCoordinates (p := m.profile) c m rfl () a₁ h₁).trans
    (keepsTo_setToolAxis (p := a₁.profile) c a₁ rfl () a₂ h₂)
  have hsilent {a : Machine} {d : Deed} (hd : AxisMay a d) : Silent arcNames d := by
    have hapart : ∀ name ∈ (["X", "Y", "Z", "A", "B"] : List Text), ∀ r ∈ arcNames,
        normalName r ≠ normalName name := by decide
    cases hd with
    | coordinate name x hname => exact hapart name hname
  have hload := haxis.silent (fun _ _ => hsilent) hm
  have hcourse := keepsTo_queueMotion (p := a₂.profile) m.position a₂ rfl () a₃ h₃
  have hprofile : a₃.wroteBlock.profile = m.profile :=
    (Does.block a₃ taken).profile.trans (hcourse.profile.trans haxis.profile)
  have hmodal (r : Text) : a₃.isModal r = m.isModal r :=
    (hcourse.isModal hload.fit.sound.indexed).trans (haxis.isModal hm.sound.indexed)
  obtain ⟨rack, rfl⟩ := rack_only haxis
  have hheads := (queueMotion_heads (m := { m with rack }) hcoded hload.fit h₃).of_rack hload.kept
  exact ⟨a₃, hheads, hmodal, (Does.block a₃ taken).fit trivial hheads.fit,
    keepsTo_callRepeated a₃.wroteBlock hprofile () m' hcall⟩

theorem Step.heads (hcoded : m.profile.Coded) (hm : Fit m) (h : Step c m m')
    (hmoves : m.moves c = true) :
    ∃ v c' a, m.verbs.resolve c = some (v, c') ∧ Heads (m.announcing v) a ∧
      (∀ r, a.isModal r = m.isModal r) ∧ Fit a.wroteBlock ∧
      Course (CallMay m.profile) a.wroteBlock m' := by
  rcases h.cases with ⟨hv, -⟩ | ⟨v, c', stats, log, m₁, hv, hp, rfl⟩
  · simp [moves, hv] at hmoves
  have hby : m.movesBy v c' = true := by simpa [moves, hv] using hmoves
  rw [perform_moving (m := { m with stats, log }) hby] at hp
  obtain ⟨a, hheads, hmodal, hfit, hcalled⟩ :=
    moveTo_heads (m := { m.announcing v with stats, log }) hcoded
    (hm.congr rfl rfl) (numeric_of_movesBy hby) hp
  refine ⟨v, c', a, hv, hheads.of_rack fun _ _ => rfl, hmodal, hfit,
    hcalled.trans (Course.one .book ?_)⟩
  exact .book m₁ m₁.tools m₁.stats m₁.cycles _ m₁.log

/-- The block of a motion holds the words that wait before it and those of the registers
that are flagged then. The call of a cycle adds no word of a register whose flag the block
clears. -/
theorem Step.moved (hcoded : m.profile.Coded) (hm : Fit m) (h : Step c m m')
    (hmoves : m.moves c = true) :
    ∃ v c' a calls, m.verbs.resolve c = some (v, c') ∧ Heads (m.announcing v) a ∧ m'.circle = none ∧
      (m.drills = false → m'.active .motion = m.profile.code (m.announcing v).path) ∧
      (∀ b ∈ calls, (∀ q ∈ b.queued, ∃ w, q = .once w) ∧
        ∀ r ∈ trackedNames, (a.flagged r && !m.isModal r) = false → b.word? r = none) ∧
      ((blocksSince m m' = calls ∧ a.writer.pending = [] ∧ ∀ r ∈ trackedNames,
        a.flagged r = false) ∨ ∃ b, blocksSince m m' = calls ++ [b] ∧ b.queued = a.writer.pending ∧
          ∀ r ∈ trackedNames, b.word? r = if a.flagged r then some (m'.word r) else none) := by
  obtain ⟨v, c', a, hv, hheads, hmodal, hfit, hcalled⟩ := h.heads hcoded hm hmoves
  obtain ⟨hcircle, hactive, hword, calls, hcalls, hquiet⟩ :=
    hcalled.called hfit (wroteBlock_pending a)
  have hclears {r : Text} (hr : r ∈ trackedNames) (hf : (a.flagged r && !m.isModal r) = false) :
      a.wroteBlock.flagged r = false := by
    rwa [wroteBlock_flagged_eq hheads.fit.sound.indexed (hheads.fit.tracks hr), hmodal]
  refine ⟨v, c', a, calls, hv, hheads, ?_, fun hidle => ?_, fun b hb =>
    ⟨(hquiet b hb).1, fun r hr hf =>
    (hquiet b hb).2 r hr (hclears hr hf)⟩, ?_⟩
  · rw [hcircle, wroteBlock_circle, hheads.circle]
  · rw [active, activeNamed, hactive, wroteBlock_modal]
    exact hheads.code ((announcing_drills m v).trans hidle)
  · rcases wroteBlock_block hheads.fit with ⟨hw, hnone⟩ | ⟨b, hw, hqueued, hwords⟩
    · exact .inl ⟨blocksSince_eq (by rw [hcalls, hw, hheads.written]; rfl), hnone⟩
    · refine .inr ⟨b, blocksSince_eq ?_, hqueued, fun r hr => by rw [hwords r hr, hword]⟩
      rw [hcalls, hw, hheads.written, List.append_assoc]
      rfl

structure Ready (p : Profile) (m : Machine) : Prop where
  profile : m.profile = p
  fit : Fit m
  uncanned : Uncanned m

theorem Opens.ready (h : Opens p m) : Ready p m :=
  ⟨h.fresh.profile, h.fit, fun _ => (h.fresh.codes .cycle).2⟩

theorem Step.ready (h : Step c m m') (hm : Ready p m) : Ready p m' :=
  ⟨h.course.profile.trans hm.profile, h.fit hm.fit, h.uncanned hm.uncanned⟩

theorem Leads.ready {steps : List (Command × Machine)} (h : Leads m steps) (hm : Ready p m) :
    Ready p (final m steps) :=
  h.kept (fun _ _ _ ha hab => hab.ready ha) hm

def passThree (check : Machine → Machine → Machine → Bool) : List (Command × Machine) → Bool
  | [(_, m₁), (_, m₂), (_, m₃)] => check m₁ m₂ m₃
  | _ => false

theorem steps_of_three {steps : List (Command × Machine)} {c₁ c₂ c₃ : Command}
    (h : steps.map Prod.fst = [c₁, c₂, c₃]) :
    ∃ m₁ m₂ m₃, steps = [(c₁, m₁), (c₂, m₂), (c₃, m₃)] := by
  obtain ⟨⟨_, m₁⟩, _, rfl, rfl, h₁⟩ := List.map_eq_cons_iff.mp h
  obtain ⟨⟨_, m₂⟩, _, rfl, rfl, h₂⟩ := List.map_eq_cons_iff.mp h₁
  obtain ⟨⟨_, m₃⟩, _, rfl, rfl, h₃⟩ := List.map_eq_cons_iff.mp h₂
  obtain rfl := List.map_eq_nil_iff.mp h₃
  exact ⟨m₁, m₂, m₃, rfl⟩

end Machine
end Toolpath
