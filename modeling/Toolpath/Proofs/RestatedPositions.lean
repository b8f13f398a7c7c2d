import Toolpath.Proofs.DisturbedCycles
import Toolpath.Proofs.MotionPaths

/-!
# Positions that are restated

A tool change, a move home and the end of a canned cycle leave the machine at a place
that the registers do not tell. From then on the position is to be restated, whatever is
done without a motion, and the next motion writes every coordinate.
-/

namespace Toolpath.Machine

variable {S : Machine → Deed → Prop} {p : Profile} {m m' : Machine} {d : Deed} {v : Verb}
  {c : Command} {u : Unit} {steps : List (Command × Machine)}

def retools (m : Machine) (c : Command) :
    Bool := (m.verbs.resolve c).any fun vc => m.changesTool vc.1 vc.2

/-- The command leaves the machine at a place that the registers do not tell. -/
def misplaces (m : Machine) (c : Command) : Bool := m.retools c || m.homes c || m.stops c

theorem loadTool_loses (hchange : m.changesTool .loadTool c = true)
    (h : (loadTool c).run m = .ok u m') :
    m'.restates = true ∧ m'.active .motion = [] := by
  unfold loadTool at h
  unfold changesTool at hchange
  split at h
  case h_1 hc => simp [hc] at hchange
  case h_2 number rest hc =>
    obtain ⟨_, _, hget, h⟩ := run_bind_ok.mp h
    cases hget
    rw [if_neg (by simpa [hc] using hchange)] at h
    -- what comes before does not matter: the code is forgotten and the position marked at the end
    iterate 6 obtain ⟨_, _, -, h⟩ := run_bind_ok.mp h
    obtain ⟨_, _, hforget, h⟩ := run_bind_ok.mp h
    obtain ⟨_, _, hrestate, h⟩ := run_bind_ok.mp h
    cases hforget
    cases hrestate
    obtain ⟨taken, rfl⟩ := writeBlock_ok.mp h
    constructor
    · simp [restates, wroteBlock_vars, Memo.flag]
    · simp [active, activeNamed, wroteBlock_modal, Memo.text]

theorem Step.loses_of_retools (h : Step c m m') (hchange : m.retools c = true) :
    m'.restates = true ∧ m'.active .motion = [] := by
  rcases h.cases with ⟨hv, -⟩ | ⟨v, c', stats, log, m₁, hv, hp, rfl⟩
  · simp [retools, hv] at hchange
  · have hchange : m.changesTool v c' = true := by simpa [retools, hv] using hchange
    change m₁.restates = true ∧ m₁.active .motion = []
    cases v with
    | loadTool => exact loadTool_loses (m := { m with stats, log }) hchange hp
    | _ => simp [changesTool] at hchange

theorem goHome_restates (h : (goHome c).run m = .ok u m') : m'.restates = true := by
  have hne : Variable.restate ≠ Variable.motion := by decide
  obtain ⟨_, _, -, h⟩ := run_bind_ok.mp h
  obtain ⟨_, _, hrestate, h⟩ := run_bind_ok.mp h
  cases hrestate
  cases h
  simp [restates, Memo.flag, hne]

theorem Step.restates_of_misplaces (hcoded : m.profile.Coded) (hm : Uncanned m) (h : Step c m m')
    (hlost : m.misplaces c = true) : m'.restates = true := by
  simp only [misplaces, Bool.or_eq_true] at hlost
  rcases hlost with (hchange | hhome) | hstops
  · exact (h.loses_of_retools hchange).1
  · rcases h.cases with ⟨hv, -⟩ | ⟨v, c', stats, log, m₁, hv, hp, rfl⟩
    · simp [homes, hv] at hhome
    · obtain rfl : v = .home := by simpa [homes, hv] using hhome
      change m₁.restates = true
      exact goHome_restates hp
  · have hactive : m.active .cycle ≠ [] := by
      simp only [stops, Bool.and_eq_true, decide_eq_true_eq] at hstops
      exact hstops.1
    cases style : m.profile.cycleStyle with
    | code => exact h.restates_of_stops hcoded style hstops
    | call => exact absurd (hm style) hactive

theorem Leads.kept_through {P : Machine → Prop} {Q : Command → Machine → Machine → Prop}
    (hstep : ∀ c a b, Q c a b → Step c a b → P a → P b) (hrun : Leads m steps)
    (hsteps : Throughout Q m steps) (hm : P m) : P (final m steps) := by
  induction steps generalizing m with
  | nil => exact hm
  | cons s steps ih =>
    rw [final_cons]
    exact ih hrun.2 hsteps.2 (hstep _ _ _ hsteps.1 hrun.1 hm)

theorem Throughout.and {P Q : Command → Machine → Machine → Prop} (hP : Throughout P m steps)
    (hQ : Throughout Q m steps) : Throughout (fun c a b => P c a b ∧ Q c a b) m steps := by
  induction steps generalizing m with
  | nil => trivial
  | cons s steps ih => exact ⟨⟨hP.1, hQ.1⟩, ih hP.2 hQ.2⟩

def Withholds : Deed → Prop
  | .select group _ => group ≠ ModalGroup.motion.name
  | _ => True

theorem Does.withholds (h : Does d m m') (hd : Withholds d) (hm : m.active .motion = []) :
    m'.active .motion = [] := by
  cases h with
  | select _ group function =>
    simpa [selected, active, activeNamed, Memo.text, Ne.symm hd] using hm
  | forget _ group =>
    by_cases hgroup : ModalGroup.motion.name = group
    · simp [active, activeNamed, Memo.text, hgroup]
    · simpa [active, activeNamed, Memo.text, hgroup] using hm
  | block => rwa [active, activeNamed, wroteBlock_modal]
  | _ => exact hm

theorem May.withholds (hstill : v.moves = false) (hhome : v ≠ .home) (h : Verb.May p m v d) :
    Withholds d := by
  cases h with
  | move hmoves => simp [hstill] at hmoves
  | homeCode => exact absurd rfl hhome
  | start _ h =>
    cases h with
    | call h => cases h <;> trivial
    | code => exact name_ne (by decide)
    | _ => trivial
  | cancel _ h => cases h <;> trivial
  | wrapUp h => cases h <;> first | trivial | exact name_ne (by decide)
  | spindleSetting h => cases h; trivial
  | planeCode | cutcom | spindleCode | coolantCode => exact name_ne (by decide)
  | _ => trivial

theorem Step.withholds (h : Step c m m') (hstill : m.moves c = false) (hhome : m.homes c = false)
    (hm : m.active .motion = []) : m'.active .motion = [] := by
  rcases h.still hstill with ⟨vars, stats, last, log, rfl, -⟩ | ⟨v, c', hv, hmoves, hcourse⟩
  · exact hm
  · have hverb : v ≠ .home := by simpa [homes, hv] using hhome
    exact hcourse.invariant (fun d a b hd hab => hab.withholds (May.withholds hmoves hverb hd)) hm

def pathOn (m : Machine) (c : Command) : Option Function :=
  (m.verbs.resolve c).map fun vc => (m.announcing vc.1).path

def pathWord (p : Profile) (f : Function) : Queued :=
  .code { function := f.name, group := some ModalGroup.motion.name, text := p.code f }

theorem pathWord_mem (hcoded : m.profile.Coded) (hidle : m.drills = false)
    (hm : m.active .motion = []) :
    pathWord m.profile m.path ∈ m.motionWords := by
  have hknown : m.knownMotion = [] := by
    unfold knownMotion
    split
    · rfl
    · exact hm
  simp [motionWords, pathWord, hidle, hknown, hcoded m.path]

theorem Step.restated (hcoded : m.profile.Coded) (hm : Fit m) (h : Step c m m')
    (hmoves : m.moves c = true)
    (hrestates : m.restates = true) : ∃ b ∈ blocksSince m m', b.word? "X" = some (m'.word "X") ∧
      b.word? "Y" = some (m'.word "Y") ∧
      b.word? "Z" = (if m.drills then none else some (m'.word "Z")) ∧
      (m.active .motion = [] → m.drills = false →
        ∃ f ∈ pathFunctions, m.pathOn c = some f ∧ pathWord m.profile f ∈ b.queued) := by
  obtain ⟨v, c', a, calls, hv, hheads, -, -, -, hblocks⟩ := h.moved hcoded hm hmoves
  have hdrills := announcing_drills m v
  obtain ⟨hx, hy, hz⟩ := hheads.restated (announcing_restates hrestates v)
  rcases hblocks with ⟨-, -, hnone⟩ | ⟨b, hblocks, hqueued, hword⟩
  · rw [hnone _ (by decide)] at hx
    cases hx
  refine ⟨b, by simp [hblocks], ?_, ?_, ?_, fun hknown hidle => ?_⟩
  · rw [hword _ (by decide), hx, if_pos rfl]
  · rw [hword _ (by decide), hy, if_pos rfl]
  · rw [hword _ (by decide)]
    cases hd : m.drills with
    | true => rw [hheads.hidden (hdrills.trans hd)]; rfl
    | false => rw [hz (hdrills.trans hd)]; rfl
  · refine ⟨(m.announcing v).path, pathFunction_mem _ _, by rw [pathOn, hv]; rfl, ?_⟩
    rw [hqueued, hheads.pending]
    exact List.mem_append_right
      _ (pathWord_mem (m := m.announcing v) hcoded (hdrills.trans hidle) hknown)

/-- Let a command change the tool, move the machine home or stop the active cycle, and let any
commands follow that are no motions. The next motion writes a block that has the words of X, Y and
Z, but that of Z only if no cycle is repeated. Behind a change of the tool the block has the code of
its path, too, unless the machine was moved home since then or a cycle is repeated. -/
theorem position_restated {p : Profile} {m₀ m m' n n' : Machine}
    {before after : List (Command × Machine)} {c c' : Command} (haccepted : p.Accepted)
    (hopens : Opens p m₀) (hbefore : Leads m₀ before) (hm : m = final m₀ before)
    (hlost : m.misplaces c = true) (hstep : Step c m m') (hafter : Leads m' after)
    (hstill : Throughout (fun c a _ => a.moves c = false) m' after) (hn : n = final m' after)
    (hmoves : n.moves c' = true) (hnext : Step c' n n') :
    ∃ b ∈ blocksSince n n', b.word? "X" = some (n'.word "X") ∧ b.word? "Y" = some (n'.word "Y") ∧
      b.word? "Z" = (if n.drills then none else some (n'.word "Z")) ∧
      (m.retools c = true → Throughout (fun c a _ => a.homes c = false) m' after →
        n.drills = false →
        ∃ f ∈ pathFunctions, n.pathOn c' = some f ∧ pathWord p f ∈ b.queued) := by
  subst hm hn
  have hready := hbefore.ready hopens.ready
  have hready' := hstep.ready hready
  have hready'' := hafter.ready hready'
  have hrestates : (final m' after).restates = true :=
    hafter.kept_through (P := fun a => a.restates = true)
      (fun _ _ _ hq hab ha => hab.recalls hq ha) hstill
      (hstep.restates_of_misplaces (hready.profile ▸ haccepted.coded) hready.uncanned hlost)
  obtain ⟨b, hb, hx, hy, hz, hcode⟩ :=
    hnext.restated (hready''.profile ▸ haccepted.coded) hready''.fit hmoves hrestates
  refine ⟨b, hb, hx, hy, hz, fun hchange hhomes hidle => ?_⟩
  rw [hready''.profile] at hcode
  exact hcode (hafter.kept_through (P := fun a => a.active .motion = [])
    (fun _ _ _ hq hab ha =>
      hab.withholds hq.1 hq.2 ha) (hstill.and hhomes) (hstep.loses_of_retools hchange).2) hidle

set_option maxRecDepth 100000 in
theorem position_restated_retooled :
    ∃ m₀ m m' n n' : Machine, ∃ before after : List (Command × Machine),
    Opens { cycleStyle := .code } m₀ ∧ Leads m₀ before ∧ m = final m₀ before ∧
      Step { major := "loadtl", numeric := [1] } m m' ∧ Leads m' after ∧ n = final m' after ∧
      after.map Prod.fst = [{ major := "start_op" }] ∧
      Step { major := "goto", numeric := [1, 2, 3] } n n' ∧ n.word "X" = n'.word "X" ∧
      ∃ b ∈ blocksSince n n', b.word? "X" = some (n'.word "X") ∧ b.word? "Y" = some (n'.word "Y") ∧
        b.word? "Z" = some (n'.word "Z") ∧ ∃ f ∈ pathFunctions,
        pathWord { cycleStyle := .code } f ∈ b.queued := by
  let p : Profile := { cycleStyle := .code }
  let first : Command := { major := "goto", numeric := [1, 2, 3] }
  let tool : Command := { major := "loadtl", numeric := [1] }
  let operation : Command := { major := "start_op" }
  let check (_ : Machine) (steps : List (Command × Machine)) (n' : Machine) : Bool :=
    steps |> passThree fun m m' n => m.misplaces tool && m.retools tool && !m'.moves operation &&
      !m'.homes operation && n.moves first && !n.drills && n.word "X" = n'.word "X"
  have hparse : (Profile.parse "\x7b\"cycleStyle\":\"gcode\"\x7d" .json []).toOption = some p := by
    decide +kernel
  have hcheck : rehearse p [first, tool, operation] first check = true := by decide +kernel
  obtain ⟨m₀, steps, n', hopens, hrun, hcs, hstep, hcheck⟩ := exists_of_rehearse hcheck
  obtain ⟨m, m', n, rfl⟩ := steps_of_three hcs
  simp only [check, passThree, Bool.and_eq_true, Bool.not_eq_true', decide_eq_true_eq] at hcheck
  obtain ⟨⟨⟨⟨⟨⟨hlost, hchange⟩, hstill⟩, hhomes⟩, hmoves⟩, hidle⟩, hsame⟩ := hcheck
  have hbefore : Leads m₀ [(first, m)] := ⟨hrun.1, trivial⟩
  have hafter : Leads m' [(operation, n)] := ⟨hrun.2.2.1, trivial⟩
  obtain ⟨b, hb, hx, hy, hz, hcode⟩ :=
    position_restated (Profile.accepted_of_parse hparse) hopens hbefore rfl
    hlost hrun.2.1 hafter ⟨hstill, trivial⟩ rfl hmoves hstep
  obtain ⟨f, hf, -, hqueued⟩ := hcode hchange ⟨hhomes, trivial⟩ hidle
  exact ⟨m₀, m, m', n, n', [(first, m)], [(operation, n)], hopens, hbefore, rfl, hrun.2.1,
    hafter, rfl, rfl, hstep, hsame, b, hb, hx, hy,
    hz.trans (if_neg (Bool.eq_false_iff.mp hidle)), f, hf, hqueued⟩

end Toolpath.Machine
