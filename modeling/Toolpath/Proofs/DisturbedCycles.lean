import Toolpath.Proofs.ModalCodes

/-!
# Motion codes inside canned cycles

A controller takes a motion code for the end of a canned cycle, so none is to be queued between
the code of a cycle and the code that cancels it. Motions disturb no cycle, since they have no
code while one is active. Moves to machine zero look at no cycle: each of them disturbs the
cycle that it finds, and nothing else does.
-/

namespace Toolpath

namespace Queued

def isCodeOf (fs : List Function) : Queued → Bool
  | .code c => fs.any fun f => f.name = c.function
  | _ => false

def drills : Queued → Bool := isCodeOf [.drill, .peckDrill]

def travels : Queued → Bool := isCodeOf Machine.pathFunctions

def cycleFunctions : List Function := [.drill, .peckDrill, .cycleCancel] ++ Machine.pathFunctions

theorem apart_of_isCodeOf {q : Queued} (h : q.isCodeOf cycleFunctions = false) :
    q.drills = false ∧ q.cancels = false ∧ q.travels = false := by
  cases q with
  | code c =>
    have hother : ∀ f ∈ cycleFunctions, ¬(f.name = c.function) := fun f hf => by
      simpa using List.any_eq_false.mp h f hf
    have hsome {fs : List Function} (hfs : ∀ f ∈ fs, f ∈ cycleFunctions) :
        isCodeOf fs (.code c) = false :=
      List.any_eq_false.mpr fun f hf => by simpa using hother f (hfs f hf)
    exact ⟨hsome (by decide), decide_eq_false fun h => hother .cycleCancel (by decide) h.symm,
      hsome (by decide)⟩
  | _ => exact ⟨rfl, rfl, rfl⟩

end Queued

/-- The code of a motion comes before any code that cancels a cycle. -/
def Interrupted (qs : List Queued) : Prop :=
  ∃ between motion after, qs = between ++ motion :: after ∧ (∀ q ∈ between, q.cancels = false) ∧
    motion.travels = true

/-- Between the code of a canned cycle and the one that cancels it stands the code of a
motion. -/
def Disturbed (qs : List Queued) : Prop :=
  ∃ before drill after, qs = before ++ drill :: after ∧ drill.drills = true ∧ Interrupted after

def Unclosed (qs : List Queued) : Prop :=
  ∃ before drill after, qs = before ++ drill :: after ∧ drill.drills = true ∧
    ∀ q ∈ after, q.cancels = false

def drillsAfter : Bool → List Queued → Bool
  | on, [] => on
  | on, q :: qs => drillsAfter (q.drills || on && !q.cancels) qs

def disturbs : Bool → List Queued → Bool
  | _, [] => false
  | on, q :: qs => on && q.travels || disturbs (q.drills || on && !q.cancels) qs

variable {on : Bool} {q : Queued} {qs qs' : List Queued}

theorem drillsAfter_append : drillsAfter on (qs ++ qs') = drillsAfter (drillsAfter on qs) qs' := by
  induction qs generalizing on with
  | nil => rfl
  | cons q qs ih => exact ih

theorem disturbs_append :
    disturbs on (qs ++ qs') = (disturbs on qs || disturbs (drillsAfter on qs) qs') := by
  induction qs generalizing on with
  | nil => rfl
  | cons q qs ih => rw [List.cons_append, disturbs, disturbs, ih, Bool.or_assoc, drillsAfter]

theorem drillsAfter_apart (on : Bool) (h : ∀ q ∈ qs, q.isCodeOf Queued.cycleFunctions = false) :
    drillsAfter on qs = on ∧ disturbs on qs = false := by
  induction qs with
  | nil => exact ⟨rfl, rfl⟩
  | cons q qs ih =>
    obtain ⟨hdrills, hcancels, htravels⟩ := Queued.apart_of_isCodeOf (h q List.mem_cons_self)
    simpa [drillsAfter, disturbs, hdrills, hcancels, htravels] using
      ih fun q hq => h q (List.mem_cons_of_mem _ hq)

theorem exists_cons_iff {P : List Queued → Queued → List Queued → Prop} :
    (∃ before x after, q :: qs = before ++ x :: after ∧ P before x after) ↔
      P [] q qs ∨ ∃ before x after, qs = before ++ x :: after ∧ P (q :: before) x after := by
  constructor
  · rintro ⟨before, x, after, h, hP⟩
    cases before with
    | nil =>
      obtain ⟨rfl, rfl⟩ := List.cons.inj h
      exact .inl hP
    | cons y before =>
      obtain ⟨rfl, rfl⟩ := List.cons.inj h
      exact .inr ⟨before, x, after, rfl, hP⟩
  · rintro (hP | ⟨before, x, after, rfl, hP⟩)
    · exact ⟨[], q, qs, rfl, hP⟩
    · exact ⟨q :: before, x, after, rfl, hP⟩

theorem interrupted_cons :
    Interrupted (q :: qs) ↔ q.travels = true ∨ q.cancels = false ∧ Interrupted qs := by
  unfold Interrupted
  rw [exists_cons_iff]
  simp only [List.not_mem_nil, false_implies, implies_true, true_and, List.forall_mem_cons]
  constructor
  · rintro (h | ⟨between, motion, after, hqs, ⟨hq, hbetween⟩, hmotion⟩)
    · exact .inl h
    · exact .inr ⟨hq, between, motion, after, hqs, hbetween, hmotion⟩
  · rintro (h | ⟨hq, between, motion, after, hqs, hbetween, hmotion⟩)
    · exact .inl h
    · exact .inr ⟨between, motion, after, hqs, ⟨hq, hbetween⟩, hmotion⟩

theorem disturbed_cons : Disturbed (q :: qs) ↔ q.drills = true ∧ Interrupted qs ∨ Disturbed qs :=
  exists_cons_iff

theorem unclosed_cons :
    Unclosed (q :: qs) ↔ q.drills = true ∧ (∀ q ∈ qs, q.cancels = false) ∨ Unclosed qs :=
  exists_cons_iff

theorem disturbs_iff : disturbs on qs = true ↔ Disturbed qs ∨ on = true ∧ Interrupted qs := by
  induction qs generalizing on with
  | nil => simp [disturbs, Disturbed, Interrupted]
  | cons q qs ih =>
    rw [disturbs, disturbed_cons, interrupted_cons, Bool.or_eq_true, ih]
    simp only [Bool.or_eq_true, Bool.and_eq_true, Bool.not_eq_true']
    tauto

theorem drillsAfter_iff :
    drillsAfter on qs = true ↔ Unclosed qs ∨ on = true ∧ ∀ q ∈ qs, q.cancels = false := by
  induction qs generalizing on with
  | nil => simp [drillsAfter, Unclosed]
  | cons q qs ih =>
    rw [drillsAfter, unclosed_cons, ih]
    simp only [Bool.or_eq_true, Bool.and_eq_true, Bool.not_eq_true', List.forall_mem_cons]
    tauto

instance (qs : List Queued) : Decidable (Disturbed qs) :=
  decidable_of_iff (disturbs false qs = true) (by simp [disturbs_iff])

namespace Machine

variable {S : Machine → Deed → Prop} {p : Profile} {m m' m'' : Machine} {d : Deed} {v : Verb}
  {c : Command} {u : Unit} {b b' : Bool}

def Hushed (m : Machine) : Prop := m.active .cycle ≠ [] → m.active .motion = []

/-- The words that were queued from the first machine to the second tell which cycle is
active, and `b` tells whether they disturb one. If they do not, no motion code has
become active in a cycle. -/
structure Continues (b : Bool) (m m' : Machine) : Prop where
  sound : Sound m'
  words : ∃ qs, m'.ledger = m.ledger ++ qs ∧
    drillsAfter (m.active .cycle ≠ []) qs = decide (m'.active .cycle ≠ []) ∧
    disturbs (m.active .cycle ≠ []) qs = b
  hushed : b = false → Hushed m → Hushed m'

theorem Continues.of_same (hm : Sound m') (hledger : m'.ledger = m.ledger)
    (hcycle : m'.active .cycle = m.active .cycle)
    (hmotion : m'.active .motion = m.active .motion ∨ m'.active .motion = []) :
    Continues false m m' := by
  refine ⟨hm, ⟨[], by rw [hledger, List.append_nil], by simp only [hcycle, drillsAfter], rfl⟩,
    fun _ hhushed h => ?_⟩
  rcases hmotion with hmotion | hmotion
  · rw [hmotion]
    exact hhushed (hcycle ▸ h)
  · exact hmotion

theorem Continues.refl (hm : Sound m) : Continues false m m := .of_same hm rfl rfl (.inl rfl)

theorem Continues.trans (h : Continues b m m') (h' : Continues b' m' m'') :
    Continues (b || b') m m'' := by
  obtain ⟨qs, hqs, hon, hdisturbs⟩ := h.words
  obtain ⟨qs', hqs', hon', hdisturbs'⟩ := h'.words
  refine ⟨h'.sound, ⟨qs ++ qs', ?_, ?_, ?_⟩, fun hb hhushed => ?_⟩
  · rw [hqs', hqs, List.append_assoc]
  · rw [drillsAfter_append, hon, hon']
  · rw [disturbs_append, hon, hdisturbs, hdisturbs']
  · obtain ⟨hb, hb'⟩ := Bool.or_eq_false_iff.mp hb
    exact h'.hushed hb' (h.hushed hb hhushed)

theorem Continues.then_quiet (h : Continues b m m') (h' : Continues false m' m'') :
    Continues b m m'' :=
  Bool.or_false b ▸ h.trans h'

/-- The deeds that leave the active cycle alone and queue none of its codes. -/
def Quiet : Deed → Prop
  | .select group function => group ≠ ModalGroup.cycle.name ∧ group ≠ ModalGroup.motion.name ∧
      function ∉ Queued.cycleFunctions.map Function.name
  | .forget group => group ≠ ModalGroup.cycle.name
  | .queue q => q.Proper ∧ q.isCodeOf Queued.cycleFunctions = false
  | _ => True

theorem Quiet.orderly (hd : Quiet d) : Orderly d := by
  cases d with
  | queue => exact hd.1
  | _ => trivial

theorem ledger_queued (h : m'.writer = m.writer.queue q) : m'.ledger = m.ledger ++ [q] := by
  rw [ledger, ledger, h]
  exact (List.append_assoc _ _ _).symm

theorem selected_ledger (m : Machine) (g : ModalGroup) (f : Function) :
    (m.selected g.name f.name).ledger = m.ledger ++ m.modalWords g f := by
  obtain ⟨hpending, hwritten⟩ := selected_pending m g f
  rw [ledger, ledger, hpending, hwritten, List.append_assoc]

theorem Continues.queued (hm : Sound m') (hq : q.isCodeOf Queued.cycleFunctions = false)
    (hledger : m'.ledger = m.ledger ++ [q]) (hcycle : m'.active .cycle = m.active .cycle)
    (hmotion : m'.active .motion = m.active .motion) : Continues false m m' := by
  have hother : ∀ x ∈ [q], x.isCodeOf Queued.cycleFunctions = false := by simpa using hq
  obtain ⟨hon, hdisturbs⟩ := drillsAfter_apart (m.active .cycle ≠ []) hother
  exact ⟨hm, ⟨[q], hledger, by simp only [hon, hcycle], hdisturbs⟩,
    fun _ hhushed h => hmotion.trans (hhushed (hcycle ▸ h))⟩

theorem Does.quiet (h : Does d m m') (hd : Quiet d) (hm : Sound m) : Continues false m m' := by
  have hsound := h.sound hd.orderly hm
  cases h with
  | select _ group function known =>
    obtain ⟨hcycle, hmotion, hfunction⟩ := hd
    have hactive {g : ModalGroup} (hg : group ≠ g.name) : (m.selected group function).active g =
        m.active g := by
      simp [selected, active, activeNamed, Memo.text, Ne.symm hg]
    by_cases hchanged : m.modal.hasChanged group (.text (m.profile.codeNamed function)) = true
    · refine .queued hsound ?_ (ledger_queued (by simp only [selected, hchanged, if_true]; rfl))
        (hactive hcycle) (hactive hmotion)
      simpa [Queued.isCodeOf] using hfunction
    · refine .of_same hsound ?_ (hactive hcycle) (.inl (hactive hmotion))
      simp [ledger, selected, hchanged]
  | forget _ group =>
    refine .of_same hsound rfl ?_ ?_
    · simp [active, activeNamed, Memo.text, Ne.symm hd]
    · by_cases hgroup : ModalGroup.motion.name = group
      · exact .inr (by simp [active, activeNamed, Memo.text, hgroup])
      · exact .inl (by simp [active, activeNamed, Memo.text, hgroup])
  | queue _ q => exact .queued hsound hd.2 (ledger_queued rfl) rfl rfl
  | block =>
    have hactive (g : ModalGroup) : m.wroteBlock.active g = m.active g := by
      rw [active, active, activeNamed, activeNamed, wroteBlock_modal]
    exact .of_same hsound (wroteBlock_ledger hm) (hactive _) (.inl (hactive _))
  | _ => exact .of_same hsound rfl rfl (.inl rfl)

theorem Course.quiet (hS : ∀ m d, S m d → Quiet d) (h : Course S m m') (hm : Sound m) :
    Continues false m m' :=
  h.kept (R := fun a b => Sound a → Continues false a b) (fun _ ha => .refl ha)
    (fun h h' ha => (h ha).trans (h' (h ha).sound))
      (fun d a _ hd hab ha => hab.quiet (hS a d hd) ha) hm

variable {f : Function}

theorem selected_continues (hf : f ∈ pathFunctions) (known : m.profile.code f ≠ []) (hm : Sound m) :
    Continues (decide (m.active .cycle ≠ []) && decide (m.profile.code f ≠ m.active .motion)) m
      (m.selected ModalGroup.motion.name f.name) := by
  have hsound := (Does.select m ModalGroup.motion.name f.name known).sound trivial hm
  have hne : ModalGroup.cycle.name ≠ ModalGroup.motion.name := name_ne (by decide)
  have hcycle : (m.selected ModalGroup.motion.name f.name).active .cycle = m.active .cycle := by
    simp [selected, active, activeNamed, Memo.text, hne]
  have hmotion : (m.selected ModalGroup.motion.name f.name).active .motion = m.profile.code f :=
    (selected_tells (g := .motion) known hm).2
  have hchanged := hasChanged_iff (m := m) (g := .motion) known
  have hhushed : (decide (m.active .cycle ≠ []) && decide (m.profile.code f ≠ m.active .motion)) =
      false → Hushed m → Hushed (m.selected ModalGroup.motion.name f.name) := by
    intro hb hhushed hactive
    rw [hcycle] at hactive
    have hsame : m.profile.code f = m.active .motion := by simpa [hactive] using hb
    exact absurd (hsame.trans (hhushed hactive)) known
  have hledger := selected_ledger m .motion f
  by_cases hsame : m.profile.code f = m.active .motion
  · have hnone : m.modalWords .motion f = [] :=
      if_neg (by simpa using hchanged.not.mpr (by simpa using hsame))
    rw [hnone] at hledger
    exact ⟨hsound, ⟨[], hledger, by simp only [hcycle, drillsAfter], by simp [hsame, disturbs]⟩,
      hhushed⟩
  · rw [modalWords, if_pos (hchanged.mpr hsame)] at hledger
    have hq : ∀ f ∈ pathFunctions, ∀ group text,
        (Queued.code { function := f.name, group, text }).drills = false ∧
        (Queued.code { function := f.name, group, text }).cancels = false ∧
        (Queued.code { function := f.name, group, text }).travels = true := by
      intro f hf group text
      cases f <;> first | exact ⟨rfl, rfl, rfl⟩ | exact absurd hf (by decide)
    refine ⟨hsound, ⟨_, hledger, ?_, ?_⟩, hhushed⟩
    · simp [drillsAfter, hq f hf, hcycle]
    · simp [disturbs, hq f hf, hsame]

theorem cancelled_continues (hcoded : m.profile.Coded) (hm : Sound m) :
    Continues false m m.cancelled := by
  have hoff : m.cancelled.active .cycle = [] := by simp [cancelled, active, activeNamed, Memo.text]
  have hq : (codeOf m.profile .cycleCancel).drills = false ∧
      (codeOf m.profile .cycleCancel).cancels = true ∧
      (codeOf m.profile .cycleCancel).travels = false := ⟨rfl, rfl, rfl⟩
  refine ⟨(cancelled_tells hcoded hm).sound, ⟨[_], ledger_queued rfl, ?_, ?_⟩,
    fun _ _ h => absurd hoff h⟩
  · simp [drillsAfter, hq, hoff]
  · simp [disturbs, hq]

theorem started_continues (d : DrillCycle) (once : Bool) (hcoded : m.profile.Coded) (hm : Sound m) :
    Continues false m (m.started d once) := by
  have hturns := started_turns (k := .off) (c := d) once hcoded hm
  have hactive : (m.started d once).active .cycle ≠ [] :=
    hturns.mode.active_iff.mpr (by cases once <;> decide)
  have hsound := hturns.sound
  unfold started at hactive hsound ⊢
  cases ha : m.announces d once with
  | false =>
    simp only [ha] at hsound
    exact .of_same hsound rfl rfl (.inl rfl)
  | true =>
    simp only [ha] at hsound hactive
    obtain ⟨q, qs, hwords, hq, hqs⟩ : ∃ q qs, m.cannedWords d = q :: qs ∧
        (q.drills = true ∧ q.travels = false) ∧
        ∀ q ∈ qs, q.isCodeOf Queued.cycleFunctions = false := by
      refine ⟨_, _, rfl, ?_, fun q hq => ?_⟩
      · unfold DrillCycle.code
        split <;> exact ⟨rfl, rfl⟩
      · obtain ⟨w, -, rfl⟩ := List.mem_map.mp hq
        rfl
    have hledger : ((m.marked d once).canned d).ledger = m.ledger ++ m.cannedWords d :=
      (List.append_assoc _ _ _).symm
    obtain ⟨hon, hdisturbs⟩ := drillsAfter_apart true hqs
    refine ⟨hsound, ⟨q :: qs, by rw [← hwords]; exact hledger, ?_, ?_⟩, fun _ _ _ => ?_⟩
    · rw [drillsAfter, hq.1, Bool.true_or, hon]
      exact (decide_eq_true hactive).symm
    · rw [disturbs, hq.1, hq.2, Bool.true_or, hdisturbs, Bool.and_false, Bool.or_false]
    · simp [canned, marked, active, activeNamed, Memo.text]

theorem startCycle_continues {d : DrillCycle} {once : Bool} (hcoded : m.profile.Coded)
    (style : m.profile.cycleStyle = .code) (hm : Sound m)
    (h : (startCycle d once).run m = .ok u m') :
    Continues false m m' := by
  simp only [startCycle, EStateM.run_bind, EStateM.run_get, style] at h
  have h := startCanned_ok hcoded h
  have hstarted := started_continues d once hcoded hm
  cases once with
  | false =>
    cases h
    exact hstarted
  | true =>
    obtain ⟨taken, rfl⟩ := writeBlock_ok.mp h
    exact hstarted.trans ((Does.block _ taken).quiet trivial hstarted.sound)

theorem cancelCycle_continues (hcoded : m.profile.Coded) (style : m.profile.cycleStyle = .code)
    (hm : Sound m) (h : cancelCycle.run m = .ok u m') : Continues false m m' := by
  rw [cancelCycle_run hcoded style] at h
  split at h
  · cases h
    exact .refl hm
  · obtain ⟨taken, rfl⟩ := writeBlock_ok.mp h
    have hcancelled := cancelled_continues hcoded hm
    have hassign :=
      (Does.assign m.cancelled Variable.restate (.flag true)).quiet trivial hcancelled.sound
    exact hcancelled.trans (hassign.trans ((Does.block _ taken).quiet trivial hassign.sound))

theorem adapted_continues (hcoded : m.profile.Coded) (hm : Sound m) :
    Continues false m m.adapted := by
  unfold adapted
  split
  · exact .refl hm
  · split
    · have hcancelled := cancelled_continues hcoded hm
      exact hcancelled.trans ((Does.flag m.cancelled true "Z").quiet trivial hcancelled.sound)
    · exact (Does.flag m false "Z").quiet trivial hm

theorem AxisMay.quiet (h : AxisMay m d) : Quiet d := by
  cases h
  trivial

theorem RestateMay.quiet (h : RestateMay m d) : Quiet d := by
  cases h <;> trivial

theorem Does.path_continues (h : Does d m m') (hd : PathMay m d) (hm : Sound m) :
    Continues false m m' := by
  cases hd with
  | motionCode f hf hnone =>
    cases h with
    | select _ _ _ known => simpa [hnone] using selected_continues hf known hm
  | _ => exact h.quiet trivial hm

theorem Course.path_continues (h : Course PathMay m m') (hm : Sound m) : Continues false m m' :=
  h.kept (R := fun a b => Sound a → Continues false a b) (fun _ ha => .refl ha)
    (fun h h' ha => (h ha).trans (h' (h ha).sound))
      (fun _ _ _ hd hab ha => hab.path_continues hd ha) hm

theorem queueMotion_continues {start : Point} (hcoded : m.profile.Coded) (hm : Sound m)
    (h : (queueMotion start).run m = .ok u m') : Continues false m m' := by
  have hrestate := keepsTo_restatePosition (p := m.profile) m rfl () m.restated restatePosition_run
  have hrestated := hrestate.quiet (fun _ _ hd => hd.quiet) hm
  have hadapted := adapted_continues (hrestate.profile ▸ hcoded) hrestated.sound
  have hpath := keepsTo_takePath (p := m.restated.adapted.profile) start _ _ rfl u m'
    (queueMotion_ok hcoded h)
  exact hrestated.trans (hadapted.trans (hpath.path_continues hadapted.sound))

theorem moveTo_continues (hcoded : m.profile.Coded) (style : m.profile.cycleStyle = .code)
    (hm : Sound m)
    (hne : c.numeric.isEmpty = false) (h : (moveTo c).run m = .ok u m') : Continues false m m' := by
  obtain ⟨m₁, m₂, haxis, hqueue, taken, rfl⟩ := moveTo_canned style hne h
  have hfirst := haxis.quiet (fun _ _ hd => hd.quiet) hm
  have hmotion := queueMotion_continues (haxis.profile ▸ hcoded) hfirst.sound hqueue
  exact hfirst.trans (hmotion.trans ((Does.block m₂ taken).quiet trivial hmotion.sound))

theorem motion_continues (hcoded : m.profile.Coded) (style : m.profile.cycleStyle = .code)
    (hm : Sound m)
    (hv : v.moves = true) (h : (perform v c).run m = .ok u m') : Continues false m m' := by
  have hsame {vars : Memo} {log : List Note} : Continues false m { m with vars, log } :=
    .of_same (hm.congr rfl rfl hm.proper) rfl rfl (.inl rfl)
  cases hmoves : m.movesBy v c with
  | true =>
    rw [perform_moving hmoves] at h
    have hannounced : Continues false m { m with vars := announced v m.vars } := hsame
    exact hannounced.trans
      (moveTo_continues (m := { m with vars := announced v m.vars }) hcoded style
      hannounced.sound (numeric_of_movesBy hmoves) h)
  | false =>
    obtain ⟨vars, log, rfl, -⟩ := perform_still hv hmoves h
    exact hsame

theorem moveHome_ok {axes : List Axis} (hcoded : m.profile.Coded)
    (h : (moveHome axes).run m = .ok u m') :
    Course (Verb.May m.profile · .home)
      (m.selected ModalGroup.motion.name Function.rapid.name) m' := by
  obtain ⟨_, m₁, h₁, h⟩ := run_bind_ok.mp h
  rw [emitModal_run, if_neg (hcoded .rapid)] at h₁
  cases h₁
  refine (?_ : KeepsTo m.profile _ _)
    (m.selected ModalGroup.motion.name Function.rapid.name) rfl u m' h
  refine keepsTo_bind (keepsTo_emit (fun _ => .book _) fun _ => .home) fun _ => ?_
  refine keepsTo_bind (keepsTo_forIn axes fun a => keepsTo_get fun _ _ => ?_) fun _ => ?_
  · exact keepsTo_bind (keepsTo_queueNumber fun _ n => .homeAxis n) fun _ => keepsTo_pure _
  refine keepsTo_bind (keepsTo_count (fun _ => .book _) _) fun _ => ?_
  exact keepsTo_writeBlock fun _ => .block _ (by simp)

theorem goHome_ok (hcoded : m.profile.Coded) (h : (goHome c).run m = .ok u m') :
    Course (Verb.May m.profile · .home)
      (m.selected ModalGroup.motion.name Function.rapid.name) m' := by
  obtain ⟨_, m₁, hmoves, hlast⟩ := run_bind_ok.mp h
  obtain ⟨axes, more, hhome⟩ := List.exists_cons_of_ne_nil (homeMoves_ne_nil (homeAxes c))
  rw [hhome] at hmoves
  obtain ⟨m₂, h₁, h₂⟩ := forIn_cons_ok hmoves
  have hfirst := moveHome_ok hcoded h₁
  have hprofile : m₂.profile = m.profile := hfirst.profile
  have hmore : KeepsTo m.profile (Verb.May m.profile · .home)
      (forIn more PUnit.unit fun axes _ => do
      moveHome axes
      pure (ForInStep.yield PUnit.unit)) :=
    keepsTo_forIn more fun axes => keepsTo_bind (keepsTo_moveHome axes) fun _ => keepsTo_pure _
  have hrest := hmore m₂ hprofile _ m₁ h₂
  cases hlast
  exact hfirst.trans (hrest.trans ((Course.one .homeRestate (.assign m₁ _ _)).trans
    (Course.one .homeMotion (.assign _ _ _))))

theorem quiet_code (known : p.code f ≠ []) (hf : f ∉ Queued.cycleFunctions) :
    Quiet (.queue (codeOf p f)) := by
  refine ⟨known, ?_⟩
  cases f <;> first | rfl | exact absurd (by decide) hf

theorem quiet_select {g : ModalGroup} (hg : g ∉ [ModalGroup.cycle, .motion])
    (hf : f ∉ Queued.cycleFunctions) : Quiet (.select g.name f.name) := by
  refine ⟨name_ne ?_, name_ne ?_, ?_⟩
  · rintro rfl
    simp at hg
  · rintro rfl
    simp at hg
  · cases f <;> first | decide | exact absurd (by decide) hf

theorem May.quiet (hv : LeavesCycle v) (hhome : v ≠ .home) (h : Verb.May p m v d) : Quiet d := by
  have hproper := May.orderly h
  have hsub : ∀ vs ∈ [[Verb.drillHere, .deepDrillHere, .cycle], [Verb.cycle, .finish]], v ∉ vs := by
    have := hv.2
    simp_all
  cases h with
  | move hmoves => simp [hv.1] at hmoves
  | start hstart => exact absurd hstart (hsub _ (by simp))
  | cancel hcancel => exact absurd hcancel (hsub _ (by simp))
  | wrapUp => exact absurd (by simp) hv.2
  | spindleSetting h =>
    cases h
    trivial
  | planeCode pl => exact quiet_select (by decide) (by cases pl <;> decide)
  | spindleCode s => exact quiet_select (by decide) (by cases s <;> decide)
  | cutcom f hf | coolantCode f hf =>
    refine quiet_select (by decide) ?_
    revert hf
    cases f <;> decide
  | homeCode | home | homeAxis => exact absurd rfl hhome
  | toolChange known | dwell known => exact quiet_code known (by decide)
  | toolMotion => exact name_ne (by decide)
  | toolWord | dwellTime => exact ⟨hproper, rfl⟩
  | _ => trivial

theorem WrapUpMay.quiet (h : WrapUpMay p m d) : Quiet d := by
  cases h with
  | spindleOff | coolantOff => exact quiet_select (by decide) (by decide)
  | programEnd known => exact quiet_code known (by decide)
  | _ => trivial

theorem Does.home_continues (h : Does d m m') (hd : Verb.May p m .home d) (hm : Sound m) :
    ∃ b, Continues b m m' ∧ (b = true → m.active .cycle ≠ []) ∧
      m'.active .cycle = m.active .cycle := by
  have hidle := (h.idles (May.idle ⟨rfl, by simp⟩ hd) hm).active
  have hquiet (hd : Quiet d) : ∃ b, Continues b m m' ∧ (b = true → m.active .cycle ≠ []) ∧
      m'.active .cycle = m.active .cycle :=
    ⟨false, h.quiet hd hm, by simp, hidle⟩
  have hproper := May.orderly hd
  cases hd with
  | homeCode =>
    cases h with
    | select _ _ _ known =>
      refine ⟨_, selected_continues (by decide) known hm, fun hb => ?_, hidle⟩
      simp only [Bool.and_eq_true, decide_eq_true_eq] at hb
      exact hb.1
  | move hmoves => cases hmoves
  | start hstart => simp at hstart
  | cancel hcancel => simp at hcancel
  | home known => exact hquiet (quiet_code known (by decide))
  | homeAxis => exact hquiet ⟨hproper, rfl⟩
  | toolNumber _ _ hv | toolWord _ hv | remark _ _ hv | feed _ _ hv => simp at hv
  | name _ _ _ hv => simp at hv
  | _ => exact hquiet trivial

theorem Course.home_continues (h : Course (Verb.May p · .home) m m') (hm : Sound m) :
    ∃ b, Continues b m m' ∧ (b = true → m.active .cycle ≠ []) ∧
      m'.active .cycle = m.active .cycle := by
  refine h.kept (R := fun a b => Sound a → ∃ k, Continues k a b ∧
    (k = true → a.active .cycle ≠ []) ∧
    b.active .cycle = a.active .cycle) (fun _ ha => ⟨false, .refl ha, by simp, rfl⟩)
    (fun h h' ha => ?_) (fun _ _ _ hd hab ha => hab.home_continues hd ha) hm
  obtain ⟨k, hk, hcycle, hsame⟩ := h ha
  obtain ⟨k', hk', hcycle', hsame'⟩ := h' hk.sound
  refine ⟨_, hk.trans hk', fun hor => ?_, hsame'.trans hsame⟩
  rcases Bool.or_eq_true_iff.mp hor with hor | hor
  · exact hcycle hor
  · exact hsame ▸ hcycle' hor

theorem goHome_continues (hcoded : m.profile.Coded) (hm : Sound m)
    (h : (goHome c).run m = .ok u m') :
    ∃ b, Continues b m m' ∧ (b = true → m.active .cycle ≠ []) ∧
      (m.active .cycle ≠ [] → m.active .motion = [] → b = true) := by
  have hselected := selected_continues (f := .rapid) (by decide) (hcoded .rapid) hm
  obtain ⟨b, hrest, hcycle, -⟩ := (goHome_ok hcoded h).home_continues hselected.sound
  have hsame : (m.selected ModalGroup.motion.name Function.rapid.name).active .cycle =
      m.active .cycle :=
    ((Does.select m ModalGroup.motion.name Function.rapid.name (hcoded .rapid)).idles
      (idle_select (by decide) (by decide)) hm).active
  refine ⟨_, hselected.trans hrest, fun hor => ?_, fun hactive hmotion => ?_⟩
  · rcases Bool.or_eq_true_iff.mp hor with hor | hor
    · simp only [Bool.and_eq_true, decide_eq_true_eq] at hor
      exact hor.1
    · exact hsame ▸ hcycle hor
  · simp [hactive, hmotion, hcoded .rapid]

def homes (m : Machine) (c : Command) : Bool := (m.verbs.resolve c).any fun vc => vc.1 = .home

theorem repeatCycle_continues (hcoded : m.profile.Coded) (style : m.profile.cycleStyle = .code)
    (hm : Sound m) (h : (repeatCycle c).run m = .ok u m') : Continues false m m' := by
  rcases repeatCycle_ok hcoded h with ⟨-, hcancel⟩ | ⟨-, -, log, rfl⟩ | ⟨d, i, m₁, -, hfeed, rfl⟩
  · exact cancelCycle_continues hcoded style hm hcancel
  · exact .of_same (hm.congr rfl rfl hm.proper) rfl rfl (.inl rfl)
  · have hsound : Sound m₁ := (keepsTo_setCycleFeed (p := m.profile) c i m rfl _ m₁ hfeed).sound
      (fun _ _ hd => May.orderly hd) hm
    obtain ⟨rack, rfl, -⟩ := setCycleFeed_ok hfeed
    have hfirst : Continues false m { m with rack } := .of_same hsound rfl rfl (.inl rfl)
    rw [begun, if_pos style]
    exact hfirst.trans (started_continues (m := { m with rack }) d false hcoded hsound)

theorem perform_continues (hcoded : m.profile.Coded) (style : m.profile.cycleStyle = .code)
    (hm : Sound m)
    (hhome : v ≠ .home) (h : (perform v c).run m = .ok u m') : Continues false m m' := by
  have hhere {d : DrillCycle} (h : (drillHere c d).run m = .ok u m') : Continues false m m' := by
    unfold drillHere at h
    split at h
    · cases h
      exact .refl hm
    · exact startCycle_continues hcoded style hm h
  cases v with
  | goto | rapid | start | continuation => exact motion_continues hcoded style hm rfl h
  | home => exact absurd rfl hhome
  | drillHere | deepDrillHere => exact hhere h
  | cycle => exact repeatCycle_continues hcoded style hm h
  | finish =>
    obtain ⟨_, m₁, h₁, h₂⟩ := run_bind_ok.mp h
    have hcancel := cancelCycle_continues hcoded style hm h₁
    have hcourse := keepsTo_wrapUp (p := m₁.profile) c m₁ rfl u m' h₂
    exact hcancel.trans (hcourse.quiet (fun _ _ hd => hd.quiet) hcancel.sound)
  | _ =>
    have hcourse := keepsTo_perform (p := m.profile) _ c m rfl u m' h
    exact hcourse.quiet (fun _ _ hd => May.quiet ⟨rfl, by simp⟩ (by simp) hd) hm

theorem Step.continues (hcoded : m.profile.Coded) (style : m.profile.cycleStyle = .code)
    (hm : Sound m) (h : Step c m m') :
    ∃ b, Continues b m m' ∧ (b = true → m.homes c = true ∧ m.active .cycle ≠ []) ∧
      (m.homes c = true → m.active .cycle ≠ [] → m.active .motion = [] → b = true) := by
  rcases h.cases with ⟨hv, stats, log, rfl⟩ | ⟨v, c', stats, log, m₁, hv, hp, rfl⟩
  · exact ⟨false,
      (Does.book m m.tools stats m.cycles m.last log).quiet trivial
        hm, by simp, by simp [homes, hv]⟩
  · have hbook := (Does.book m m.tools stats m.cycles m.last log).quiet trivial hm
    have hlast (hm₁ : Sound m₁) :
        Continues false m₁ { m₁ with last := if c'.isContinuation then m₁.last else c' } :=
      (Does.book m₁ m₁.tools m₁.stats m₁.cycles _ m₁.log).quiet trivial hm₁
    by_cases hhome : v = .home
    · subst hhome
      obtain ⟨b, hb, hcycle, hhushed⟩ :=
        goHome_continues (m := { m with stats, log }) hcoded hbook.sound hp
      refine ⟨b, ?_, fun h => ⟨by simp [homes, hv], hcycle h⟩, fun _ => hhushed⟩
      exact (hbook.trans hb).then_quiet (hlast hb.sound)
    · have hperform :=
        perform_continues (m := { m with stats, log }) hcoded style hbook.sound hhome hp
      refine ⟨false, hbook.trans (hperform.trans (hlast hperform.sound)), by simp, fun h => ?_⟩
      simp [homes, hv, hhome] at h

def HomesIdly : Machine → List (Command × Machine) → Prop :=
  Throughout fun c m _ => m.homes c = true → m.active .cycle = []

instance (m : Machine) (steps : List (Command × Machine)) : Decidable (HomesIdly m steps) :=
  inferInstanceAs (Decidable (Throughout _ m steps))

theorem Leads.continues {steps : List (Command × Machine)} (hcoded : m.profile.Coded)
    (style : m.profile.cycleStyle = .code) (hm : Sound m) (h : Leads m steps) :
    ∃ b, Continues b m (final m steps) ∧ (Hushed m → (b = false ↔ HomesIdly m steps)) := by
  induction steps generalizing m with
  | nil => exact ⟨false, .refl hm, fun _ => ⟨fun _ => trivial, fun _ => rfl⟩⟩
  | cons s steps ih =>
    obtain ⟨c, m₁⟩ := s
    obtain ⟨b, hb, hhomes, hdisturbs⟩ := h.1.continues hcoded style hm
    have hprofile := h.1.course.profile
    obtain ⟨b', hb', hiff⟩ := ih (hprofile ▸ hcoded) (hprofile ▸ style) hb.sound h.2
    rw [final_cons]
    refine ⟨_, hb.trans hb', fun hhushed => ?_⟩
    cases b with
    | true =>
      refine ⟨by simp, fun hidle => ?_⟩
      obtain ⟨hhome, hactive⟩ := hhomes rfl
      exact absurd (hidle.1 hhome) hactive
    | false =>
      rw [Bool.false_or, hiff (hb.hushed rfl hhushed)]
      refine ⟨fun hidle => ⟨fun hhome => ?_, hidle⟩, fun hidle => hidle.2⟩
      by_contra hactive
      exact absurd (hdisturbs hhome hactive (hhushed hactive)) (by simp)

/-- After any run under an accepted profile that writes cycles as codes: a cycle is
active just when its code was queued and no cancel code since, and no motion code was
queued between the code of a cycle and the cancel code behind it just when no move home
was made while a cycle was active. -/
theorem cycles_undisturbed_iff {p : Profile} {m₀ m : Machine} {steps : List (Command × Machine)}
    (haccepted : p.Accepted) (style : p.cycleStyle = .code) (hopens : Opens p m₀)
    (hrun : Leads m₀ steps) (hm : m = final m₀ steps) :
    (m.active .cycle ≠ [] ↔ Unclosed m.ledger) ∧ (¬Disturbed m.ledger ↔ HomesIdly m₀ steps) := by
  subst hm
  have hfresh := hopens.fresh
  have hcycle : m₀.active .cycle = [] := (hfresh.codes .cycle).2
  have hledger : m₀.ledger = [] := by
    rw [ledger, hfresh.pending, hfresh.written]
    rfl
  obtain ⟨b, ⟨-, ⟨qs, hqs, hon, hdisturbs⟩, -⟩, hiff⟩ :=
    hrun.continues (hfresh.profile ▸ haccepted.coded) (hfresh.profile ▸ style) hfresh.sound
  simp only [hcycle, ne_eq, not_true_eq_false, decide_false] at hon hdisturbs
  rw [hqs, hledger, List.nil_append]
  constructor
  · have hopen : drillsAfter false qs = true ↔ _ := drillsAfter_iff
    rw [hon, decide_eq_true_eq] at hopen
    simpa using hopen
  · rw [← hiff fun hactive => absurd hcycle hactive, ← hdisturbs, ← Bool.not_eq_true, disturbs_iff]
    simp

set_option maxRecDepth 100000 in
theorem cycles_undisturbed_iff_cancelled : ∃ (m₀ : Machine) (steps : List (Command × Machine)),
    Opens { cycleStyle := .code } m₀ ∧ Leads m₀ steps ∧
      steps.map Prod.fst = [{ major := "goto", numeric := [0, 0, 50] },
        { major := "cycle", minor := ["drill"], numeric := [10, 2] },
        { major := "goto", numeric := [10, 20, 50] },
        { major := "cycle", minor := ["off"] }, { major := "gohome" }] ∧
      HomesIdly m₀ steps ∧ ¬Disturbed (final m₀ steps).ledger := by
  let p : Profile := { cycleStyle := .code }
  let cs : List Command := [{ major := "goto", numeric := [0, 0, 50] },
    { major := "cycle", minor := ["drill"], numeric := [10, 2] },
    { major := "goto", numeric := [10, 20, 50] }, { major := "cycle", minor := ["off"] }]
  let c : Command := { major := "gohome" }
  let check (m₀ : Machine) (steps : List (Command × Machine)) (m : Machine) : Bool :=
    decide (HomesIdly m₀ (steps ++ [(c, m)]))
  have hparse : (Profile.parse "\x7b\"cycleStyle\":\"gcode\"\x7d" .json []).toOption = some p := by
    decide +kernel
  have hcheck : rehearse p cs c check = true := by decide +kernel
  obtain ⟨m₀, steps, m, hopens, hrun, hcs, hstep, hcheck⟩ := exists_of_rehearse hcheck
  have hidle : HomesIdly m₀ (steps ++ [(c, m)]) := of_decide_eq_true hcheck
  have hall : Leads m₀ (steps ++ [(c, m)]) := leads_append.mpr ⟨hrun, hstep, trivial⟩
  refine ⟨m₀, steps ++ [(c, m)], hopens, hall, by rw [List.map_append, hcs]; rfl, hidle, ?_⟩
  exact (cycles_undisturbed_iff (Profile.accepted_of_parse hparse) rfl hopens hall rfl).2.mpr hidle

set_option maxRecDepth 100000 in
/-- A move of the tool axis to machine zero disturbs the cycle that is active, and the
cycle stays active. -/
theorem cycle_disturbed_by_home : Profile.Accepted { cycleStyle := .code } ∧
    ∃ (m₀ : Machine) (steps : List (Command × Machine)), Opens { cycleStyle := .code } m₀ ∧
      Leads m₀ steps ∧ steps.map Prod.fst = [{ major := "goto", numeric := [0, 0, 50] },
        { major := "cycle", minor := ["drill"], numeric := [10, 2] },
        { major := "goto", numeric := [10, 20, 50] }, { major := "gohome", minor := ["z"] }] ∧
      (final m₀ steps).active .cycle ≠ [] ∧ Disturbed (final m₀ steps).ledger := by
  let p : Profile := { cycleStyle := .code }
  let cs : List Command := [{ major := "goto", numeric := [0, 0, 50] },
    { major := "cycle", minor := ["drill"], numeric := [10, 2] },
    { major := "goto", numeric := [10, 20, 50] }]
  let c : Command := { major := "gohome", minor := ["z"] }
  let check (_ : Machine) (_ : List (Command × Machine)) (m : Machine) : Bool :=
    m.active .cycle ≠ [] && decide (Disturbed m.ledger)
  have hparse : (Profile.parse "\x7b\"cycleStyle\":\"gcode\"\x7d" .json []).toOption = some p := by
    decide +kernel
  have hcheck : rehearse p cs c check = true := by decide +kernel
  obtain ⟨m₀, steps, m, hopens, hrun, hcs, hstep, hcheck⟩ := exists_of_rehearse hcheck
  simp only [check, Bool.and_eq_true, decide_eq_true_eq] at hcheck
  refine ⟨Profile.accepted_of_parse hparse, m₀, steps ++ [(c, m)], hopens,
    leads_append.mpr ⟨hrun, hstep, trivial⟩, by rw [List.map_append, hcs]; rfl, ?_⟩
  rw [final_append]
  exact hcheck

end Machine
end Toolpath
