import Toolpath.Proofs.CycleModes

/-!
# The protocol of canned cycles

A motion leaves the depth out of its block while a cycle is repeated. It writes
the depth when it ends a single hole, and when it is the first one that is made
without a cycle since one was stopped: from the stop on, a cycle is active or the
position is to be restated.
-/

namespace Toolpath.Machine

open Registers (normalName)

variable {S : Machine → Deed → Prop} {p : Profile} {m m' : Machine} {d : Deed} {v : Verb}
  {k : Mode} {u : Unit}

theorem flag_flagged {r : Text} (h : m.rack.registers.Has r) (b : Bool) :
    ({ m with rack := m.rack.flag b (.register r) } : Machine).flagged r = b := by
  obtain ⟨n, hn⟩ := h
  rw [flagged, Rack.flag_register, Registers.find?_modify_same rfl, hn]
  rfl

theorem restated_flagged (hm : Sound m) (h : m.vars.flag Variable.restate false = true) :
    m.restated.flagged "Z" = true := by
  let m₁ : Machine := { m with rack := m.rack.flag true (.register "X") }
  let m₂ : Machine := { m₁ with rack := m₁.rack.flag true (.register "Y") }
  have hm₁ : Sound m₁ := (Does.flag m true "X").sound trivial hm
  have hm₂ : Sound m₂ := (Does.flag m₁ true "Y").sound trivial hm₁
  rw [restated, if_pos h]
  exact flag_flagged hm₂.depth true

theorem Does.flagged (h : Does d m m') (hd : PathMay m d) (hi : m.rack.registers.Indexed)
    (hf : m.flagged "Z" = true) : m'.flagged "Z" = true := by
  cases h with
  | hold _ name x n found =>
    cases hd with
    | arcWord _ _ hname =>
      have hapart : ∀ a ∈ (["I", "J", "K", "R"] : List Text), normalName "Z" ≠ normalName a := by
        decide
      rw [Machine.flagged, Rack.set_register, Registers.find?_modify_other hi (hapart name hname)]
      exact hf
  | flag _ b name =>
    cases hd with
    | point =>
      rw [Machine.flagged, Rack.flag_register]
      by_cases hname : normalName "Z" = normalName name
      · rw [Registers.find?_modify_same hname]
        cases hz : m.rack.registers.find? "Z" with
        | none => simp [Machine.flagged, hz] at hf
        | some n => rfl
      · rw [Registers.find?_modify_other hi hname]
        exact hf
  | clearFlags => cases hd
  | block => cases hd
  | _ => exact hf

theorem Course.flagged (h : Course PathMay m m') (hi : m.rack.registers.Indexed)
    (hf : m.flagged "Z" = true) : m'.flagged "Z" = true := by
  refine (h.invariant (I := fun a => a.rack.registers.Indexed ∧ a.flagged "Z" = true)
    (fun d a b hd hab ha => ⟨hab.indexed ha.1, hab.flagged hd ha.1 ha.2⟩) ⟨hi, hf⟩).2

/-- When a motion has been queued, the depth is flagged if a single hole is over
or the position is restated, and it is not flagged while a cycle is repeated. -/
theorem queueMotion_flagged {start : Point} (hcoded : m.profile.Coded) (hm : Sound m)
    (hk : InMode m k) (h : (queueMotion start).run m = .ok u m') :
    (k = .repeated → m'.flagged "Z" = false) ∧
      (k = .once ∨ k = .off ∧ m.vars.flag Variable.restate false = true →
        m'.flagged "Z" = true) := by
  obtain ⟨hsound, hidles⟩ := restated_idles hm
  have hmode := hidles.inMode hk
  have hpath := queueMotion_ok hcoded h
  have hcourse := keepsTo_takePath (p := m.restated.adapted.profile) start _ _ rfl u m' hpath
  constructor
  · rintro rfl
    have hadapted : m.restated.adapted =
        { m.restated with rack := m.restated.rack.flag false (.register "Z") } := by
      simp [adapted, hmode.1, hmode.once_iff]
    rw [hadapted] at hpath
    rw [Machine.flagged, takePath_drilling (by exact hmode.1) hpath]
    exact flag_flagged hsound.depth false
  · intro hcase
    have hflagged : m.restated.adapted.flagged "Z" = true := by
      rcases hcase with rfl | ⟨rfl, hrestate⟩
      · rw [adapted, if_neg hmode.1, if_pos (by simp [hmode.once_iff])]
        exact flag_flagged hsound.depth true
      · rw [adapted, if_pos hmode.1]
        exact restated_flagged hm hrestate
    have hprofile : m.restated.profile = m.profile :=
      (keepsTo_restatePosition (p := m.profile) m rfl () m.restated restatePosition_run).profile
    have hindexed := (adapted_turns (hprofile ▸ hcoded) hsound hmode).sound.indexed
    exact hcourse.flagged hindexed hflagged

variable {c : Command} {steps : List (Command × Machine)}

theorem moveTo_depth (hcoded : m.profile.Coded) (style : m.profile.cycleStyle = .code)
    (hm : Sound m) (hk : InMode m k) (hne : c.numeric.isEmpty = false)
    (h : (moveTo c).run m = .ok u m') :
    (k = .repeated → ∃ bs : List Block, m'.writer.written = bs ++ m.writer.written ∧
      ∀ b ∈ bs, b.word? "Z" = none) ∧
    (k = .once ∨ k = .off ∧ m.vars.flag Variable.restate false = true →
      ∃ b : Block, m'.writer.written = b :: m.writer.written ∧
        b.word? "Z" = some (m'.word "Z")) := by
  obtain ⟨m₁, m₂, haxis, hqueue, taken, rfl⟩ := moveTo_canned style hne h
  obtain ⟨hsound, hidles⟩ := haxis.idles (fun _ _ h => h.idle) hm
  have hmode := hidles.inMode hk
  have hcoded₁ : m₁.profile.Coded := haxis.profile ▸ hcoded
  have hvars : m₁.vars = m.vars :=
    haxis.kept (R := fun a b => b.vars = a.vars) (fun _ => rfl) (fun h h' => h'.trans h)
      fun d a b hd hab => by cases hd; cases hab; rfl
  have htravel := keepsTo_queueMotion (p := m₁.profile) m.position m₁ rfl () m₂ hqueue
  have hwritten : m₂.writer.written = m.writer.written := by
    rw [htravel.written fun a d hd => ?_, haxis.written fun a d hd => ?_]
    · cases hd
      simp
    · rcases hd with ⟨⟨⟩⟩ | ⟨⟨⟩⟩ | ⟨⟨⟩⟩ <;> simp
  have hsound₂ := (queueMotion_turns hcoded₁ hsound hmode hqueue).sound
  obtain ⟨hhidden, hshown⟩ := queueMotion_flagged hcoded₁ hsound hmode hqueue
  rw [← hwritten, ← hvars]
  constructor
  · intro hrepeated
    exact wroteBlock_unflagged hsound₂.indexed (fun q hq => (hsound₂.proper q hq).isOf (by decide))
      (hhidden hrepeated)
  · intro hcase
    exact wroteBlock_flagged hsound₂.indexed hsound₂.tracked (hshown hcase)

def restates (m : Machine) : Bool := m.vars.flag Variable.restate false

/-- The deeds after which a position that was to be restated still is. -/
def Recalls : Deed → Prop
  | .assign key v => key = Variable.restate → v = .flag true
  | .unassign key => key ≠ Variable.restate
  | _ => True

theorem Does.recalls (h : Does d m m') (hd : Recalls d) (hm : m.restates = true) :
    m'.restates = true := by
  cases h with
  | assign _ key v =>
    by_cases hkey : Variable.restate = key
    · simp [restates, Memo.flag, hkey, hd hkey.symm]
    · simpa [restates, Memo.flag, hkey] using hm
  | unassign _ key => simpa [restates, Memo.flag, Ne.symm hd] using hm
  | block => rwa [restates, wroteBlock_vars]
  | _ => exact hm

theorem Course.recalls (hS : ∀ m d, S m d → Recalls d) (h : Course S m m')
    (hm : m.restates = true) : m'.restates = true :=
  h.invariant (fun d a _ hd hab => hab.recalls (hS a d hd)) hm

theorem recalls_assign {key : Text} {w : Value} (h : key ≠ Variable.restate) :
    Recalls (.assign key w) := fun hkey => absurd hkey h

theorem WrapUpMay.recalls (h : WrapUpMay p m d) : Recalls d := by
  cases h with
  | finished => exact recalls_assign (by decide)
  | _ => trivial

theorem StartMay.recalls (h : StartMay p m d) : Recalls d := by
  cases h with
  | call h => cases h <;> trivial
  | cycle | once => exact recalls_assign (by decide)
  | repeated => exact (by decide : Variable.cycleOnce ≠ Variable.restate)
  | _ => trivial

theorem CancelMay.recalls (h : CancelMay p m d) : Recalls d := by
  cases h with
  | unassign key hkey =>
    rintro rfl
    exact absurd hkey (by decide)
  | restate => exact fun _ => rfl
  | _ => trivial

theorem May.recalls (hv : v.moves = false) (h : Verb.May p m v d) : Recalls d := by
  cases h with
  | move hmoves => simp [hv] at hmoves
  | start _ h => exact h.recalls
  | cancel _ h => exact h.recalls
  | wrapUp h => exact h.recalls
  | name v key t hname =>
    refine recalls_assign ?_
    rintro rfl
    exact absurd (List.mem_map_of_mem (f := Prod.snd) hname)
      (by decide : Variable.restate ∉ [Variable.partNumber, Variable.operation])
  | spindleSetting h =>
    cases h with
    | assign key v hkey =>
      refine recalls_assign ?_
      rintro rfl
      exact absurd hkey (by decide)
  | plane | homeMotion | multiAxis | coolantKind | tool | dwellSum =>
    exact recalls_assign (by decide)
  | homeRestate | toolRestate => exact fun _ => rfl
  | _ => trivial

theorem Step.recalls (h : Step c m m') (hstill : m.moves c = false)
    (hm : m.restates = true) : m'.restates = true := by
  rcases h.still hstill with ⟨vars, stats, last, log, rfl, hvars⟩ | ⟨v, c', -, hmoves, hcourse⟩
  · have hne : Variable.restate ≠ Variable.motion := by decide
    rcases hvars with rfl | rfl
    · exact hm
    · simpa [restates, Memo.flag, hne] using hm
  · exact hcourse.recalls (fun _ _ hd => May.recalls hmoves hd) hm

theorem cancelCycle_restates (hcoded : m.profile.Coded) (style : m.profile.cycleStyle = .code)
    (ha : m.active .cycle ≠ []) (h : cancelCycle.run m = .ok u m') : m'.restates = true := by
  rw [cancelCycle_run hcoded style, if_neg ha] at h
  obtain ⟨taken, rfl⟩ := writeBlock_ok.mp h
  simp [restates, wroteBlock_vars, Memo.flag]

theorem Step.restates_of_stops (hcoded : m.profile.Coded)
    (style : m.profile.cycleStyle = .code) (h : Step c m m') (hstops : m.stops c = true) :
    m'.restates = true := by
  rcases h.cases with ⟨hv, -⟩ | ⟨v, c', stats, log, m₁, hv, hp, rfl⟩
  · simp [stops, hv] at hstops
  · change m₁.restates = true
    have hstops : m.active .cycle ≠ [] ∧ stopsBy v c' = true := by simpa [stops, hv] using hstops
    cases v with
    | cycle =>
      simp only [perform, repeatCycle, EStateM.run_bind, EStateM.run_get] at hp
      rw [if_pos (by exact hstops.2)] at hp
      exact cancelCycle_restates (m := { m with stats, log }) hcoded style hstops.1 hp
    | finish =>
      obtain ⟨_, m₂, h₁, h₂⟩ := run_bind_ok.mp hp
      have hrestates := cancelCycle_restates (m := { m with stats, log }) hcoded style hstops.1 h₁
      have hcourse := keepsTo_wrapUp (p := m₂.profile) c' m₂ rfl () m₁ h₂
      exact hcourse.recalls (fun _ _ h => h.recalls) hrestates
    | _ => simp [stopsBy] at hstops

theorem Step.depth (hcoded : m.profile.Coded) (style : m.profile.cycleStyle = .code)
    (hm : Sound m) (hk : InMode m k) (h : Step c m m') (hmoves : m.moves c = true) :
    (k = .repeated → ∃ bs : List Block, m'.writer.written = bs ++ m.writer.written ∧
      ∀ b ∈ bs, b.word? "Z" = none) ∧
    (k = .once ∨ k = .off ∧ m.restates = true →
      ∃ b : Block, m'.writer.written = b :: m.writer.written ∧
        b.word? "Z" = some (m'.word "Z")) := by
  rcases h.cases with ⟨hv, -⟩ | ⟨v, c', stats, log, m₁, hv, hp, rfl⟩
  · simp [moves, hv] at hmoves
  · have hby : m.movesBy v c' = true := by simpa [moves, hv] using hmoves
    rw [perform_moving (m := { m with stats, log }) hby] at hp
    let a : Machine := { m with stats, log, vars := announced v m.vars }
    have hmode : InMode a k := (announced_idles m v).inMode hk
    have hsound : Sound a := hm.congr rfl rfl hm.proper
    have hrestates : m.restates = true → a.restates = true := by
      have hne : Variable.restate ≠ Variable.motion := by decide
      intro h
      simp only [restates, a, announced]
      split
      · simpa [restates, Memo.flag, hne] using h
      · simp [Memo.flag, hne]
      · exact h
    obtain ⟨hhidden, hshown⟩ :=
      moveTo_depth (m := a) hcoded style hsound hmode (numeric_of_movesBy hby) hp
    exact ⟨hhidden, fun hcase => hshown (hcase.imp_right fun h => ⟨h.1, hrestates h.2⟩)⟩

/-- Cycles are codes under the profile, and the machine is sound and in some mode. -/
structure Canned (p : Profile) (m : Machine) : Prop where
  profile : m.profile = p
  separator : m.writer.separator = p.separator
  sound : Sound m
  mode : ∃ k, InMode m k

theorem Fresh.canned (h : m.Fresh p) : Canned p m := by
  refine ⟨h.profile, h.separator, h.sound, .off, ?_, h.vars _ (by simp), h.vars _ (by simp)⟩
  rw [active, activeNamed, h.modal]
  rfl

theorem Step.canned (hcoded : p.Coded) (style : p.cycleStyle = .code)
    (hm : Canned p m) (h : Step c m m') : Canned p m' := by
  obtain ⟨rfl, hseparator, hsound, k, hk⟩ := hm
  have hturns := h.turns hcoded style hsound hk
  exact ⟨h.course.profile, h.course.alike.separator.trans hseparator, hturns.sound, _, hturns.mode⟩

theorem Leads.canned (hcoded : p.Coded)
    (style : p.cycleStyle = .code) (hm : Canned p m) (h : Leads m steps) :
    Canned p (final m steps) :=
  h.kept (fun _ _ _ ha hab => hab.canned hcoded style ha) hm

def Drills : Machine → List (Command × Machine) → Prop :=
  Throughout fun c m m' => m.moves c = true → m'.active .cycle ≠ []

theorem Step.owes (hcoded : p.Coded) (style : p.cycleStyle = .code) (hm : Canned p m)
    (h : Step c m m') (howes : m.active .cycle ≠ [] ∨ m.restates = true)
    (hdrills : m.moves c = true → m'.active .cycle ≠ []) :
    m'.active .cycle ≠ [] ∨ m'.restates = true := by
  obtain ⟨rfl, -, hsound, k, hk⟩ := hm
  cases hmoves : m.moves c with
  | true => exact .inl (hdrills hmoves)
  | false =>
    rcases howes with hactive | hrestates
    · by_cases hends : m.ends c = true
      · have hstops : m.stops c = true := by simpa [ends, hmoves] using hends
        exact .inr (h.restates_of_stops hcoded style hstops)
      · refine .inl ((h.turns hcoded style hsound hk).mode.active_iff.mpr fun hoff => ?_)
        exact hends ((ends_iff hk).mpr ⟨hk.active_iff.mp hactive, hoff⟩)
    · exact .inr (h.recalls hmoves hrestates)

theorem Leads.owes (hcoded : p.Coded)
    (style : p.cycleStyle = .code) (hm : Canned p m) (h : Leads m steps) (hdrills : Drills m steps)
    (howes : m.active .cycle ≠ [] ∨ m.restates = true) :
    (final m steps).active .cycle ≠ [] ∨ (final m steps).restates = true := by
  induction steps generalizing m with
  | nil => exact howes
  | cons s steps ih =>
    rw [final_cons]
    have hnext := h.1.owes hcoded style hm howes hdrills.1
    exact ih (h.1.canned hcoded style hm) h.2 hdrills.2 hnext

def Stopped (m : Machine) (steps : List (Command × Machine)) : Prop :=
  ∃ before c m₁ after, steps = before ++ (c, m₁) :: after ∧ (final m before).stops c = true ∧
    Drills m₁ after

theorem stopped_of_last (hlast : (steps.map Prod.fst).getLast? = some c)
    (hstops : (final m steps.dropLast).stops c = true) : Stopped m steps := by
  rw [List.getLast?_map] at hlast
  obtain ⟨s, hs, rfl⟩ := Option.map_eq_some_iff.mp hlast
  obtain ⟨before, rfl⟩ := List.getLast?_eq_some_iff.mp hs
  rw [List.dropLast_concat] at hstops
  exact ⟨before, s.1, s.2, [], rfl, hstops, trivial⟩

theorem Stopped.owes (hcoded : p.Coded) (style : p.cycleStyle = .code) (hm : Canned p m)
    (h : Leads m steps) (hstopped : Stopped m steps) :
    (final m steps).active .cycle ≠ [] ∨ (final m steps).restates = true := by
  obtain ⟨before, c, m₁, after, rfl, hstops, hdrills⟩ := hstopped
  obtain ⟨hbefore, hstep, hafter⟩ := leads_append.mp h
  have hcanned := hbefore.canned hcoded style hm
  have hrestates : m₁.restates = true := by
    refine hstep.restates_of_stops ?_ ?_ hstops
    · exact hcanned.profile ▸ hcoded
    · exact hcanned.profile ▸ style
  rw [final_append, final_cons]
  exact Leads.owes hcoded style (hstep.canned hcoded style hcanned) hafter hdrills (.inr hrestates)

/-- The protocol of canned cycles, after any run under an accepted profile that writes cycles as
codes. Between the commands, a code is active just when a cycle is remembered. With each command one
cancel code is queued if the command ends the active cycle, and none otherwise. A motion writes no
depth while a cycle is repeated; it writes the depth when it ends a single hole, and when it is the
first one without a cycle since one was stopped. -/
theorem canned_cycle_protocol {p : Profile} {m₀ m : Machine} {steps : List (Command × Machine)}
    (haccepted : p.Accepted) (style : p.cycleStyle = .code) (hopens : Opens p m₀)
    (hrun : Leads m₀ steps) (hm : m = final m₀ steps) :
    (m.active .cycle ≠ [] ↔ (m.vars.cycle? Variable.cycle).isSome = true) ∧
    (m.vars.contains Variable.cycleOnce = true → m.active .cycle ≠ []) ∧
    ∀ c m', Step c m m' →
      (m.active .cycle ≠ [] ∧ m'.active .cycle = [] ↔ m.ends c = true) ∧
      m'.cancels = m.cancels + (if m.ends c then 1 else 0) ∧
      ∃ blocks lines, m'.writer.written = blocks ++ m.writer.written ∧
        m'.outlet.lines = m.outlet.lines ++ lines ∧
        (blocks.reverse.map (Block.line p.separator)).Sublist lines ∧
        (m.moves c = true → m.active .cycle ≠ [] → m.vars.flag Variable.cycleOnce false = false →
          ∀ b ∈ blocks, b.word? "Z" = none) ∧
        (m.moves c = true → m.vars.flag Variable.cycleOnce false = true →
          ∃ b ∈ blocks, b.word? "Z" = some (m'.word "Z")) ∧
        (m.moves c = true → m'.active .cycle = [] → Stopped m₀ steps →
          ∃ b ∈ blocks, b.word? "Z" = some (m'.word "Z")) := by
  have hcoded := haccepted.coded
  have hfresh := hopens.fresh.canned
  have howes := fun hstopped => hm ▸ Stopped.owes hcoded style hfresh hrun hstopped
  obtain ⟨rfl, hseparator, hsound, k, hk⟩ := hm ▸ hrun.canned hcoded style hfresh
  refine ⟨hk.active_iff_cycle, hk.active_of_once, fun c m' hstep => ?_⟩
  have hturns := hstep.turns hcoded style hsound hk
  have hends := ends_iff (c := c) hk
  have hoff' : m'.active .cycle = [] ↔ k.after m c = .off := by
    simpa using not_congr hturns.mode.active_iff
  refine ⟨by rw [hends, hk.active_iff, hoff'], ?_, ?_⟩
  · simp only [hturns.cancels, hends]
  obtain ⟨blocks, lines, hwritten, hlines, hsub, -⟩ := hstep.course.handsOver
  rw [hseparator] at hsub
  have hone : (∃ b : Block, m'.writer.written = b :: m.writer.written ∧
      b.word? "Z" = some (m'.word "Z")) → ∃ b ∈ blocks, b.word? "Z" = some (m'.word "Z") := by
    rintro ⟨b, hb, hword⟩
    have hblocks : blocks = [b] := List.append_cancel_right (hwritten.symm.trans hb)
    exact ⟨b, by simp [hblocks], hword⟩
  refine ⟨blocks, lines, hwritten, hlines, hsub, fun hmoves hactive hflag => ?_,
    fun hmoves hflag => ?_, fun hmoves hoff hstopped => ?_⟩
  · have hrepeated : k = .repeated := by
      rw [hk.active_iff] at hactive
      rw [hk.once_iff, decide_eq_false_iff_not] at hflag
      cases k <;> simp_all
    obtain ⟨bs, hbs, hnone⟩ := (hstep.depth hcoded style hsound hk hmoves).1 hrepeated
    rwa [List.append_cancel_right (hwritten.symm.trans hbs)]
  · rw [hk.once_iff, decide_eq_true_eq] at hflag
    exact hone ((hstep.depth hcoded style hsound hk hmoves).2 (.inl hflag))
  · rw [hoff', after_of_moves hmoves] at hoff
    refine hone ((hstep.depth hcoded style hsound hk hmoves).2 ?_)
    cases k with
    | once => exact .inl rfl
    | repeated => cases hoff
    | off => exact .inr ⟨rfl, (howes hstopped).resolve_left (fun h => h hk.1)⟩

set_option maxRecDepth 100000 in
theorem canned_cycle_protocol_stopped : ∃ m₀ m m' : Machine, ∃ steps : List (Command × Machine),
    Opens { cycleStyle := .code } m₀ ∧ Leads m₀ steps ∧ steps.length = 3 ∧ m = final m₀ steps ∧
      Step { major := "goto", numeric := [3, 4, 5] } m m' ∧ m.cancels = 1 ∧ m'.cancels = 1 ∧
      m.value "Z" = 5 ∧ ∃ b ∈ m'.writer.written, b.word? "Z" = some (m'.word "Z") := by
  let p : Profile := { cycleStyle := .code }
  let drill : Command := { major := "cycle", minor := ["drill"], numeric := [10, 2] }
  let hole : Command := { major := "goto", numeric := [1, 2, 5] }
  let off : Command := { major := "cycle", minor := ["off"] }
  let c : Command := { major := "goto", numeric := [3, 4, 5] }
  let check (m₀ : Machine) (steps : List (Command × Machine)) (m' : Machine) : Bool :=
    (final m₀ steps.dropLast).stops off && (final m₀ steps).moves c &&
      (final m₀ steps).cancels = 1 && !(final m₀ steps).ends c && (final m₀ steps).value "Z" = 5 &&
      m'.active .cycle = []
  have hparse : (Profile.parse "\x7b\"cycleStyle\":\"gcode\"\x7d" .json []).toOption = some p := by
    decide +kernel
  have hcheck : rehearse p [drill, hole, off] c check = true := by decide +kernel
  obtain ⟨m₀, steps, m', hopens, hrun, hcs, hstep, hcheck⟩ := exists_of_rehearse hcheck
  simp only [check, Bool.and_eq_true, decide_eq_true_eq, Bool.not_eq_true'] at hcheck
  obtain ⟨⟨⟨⟨⟨hstops, hmoves⟩, hcancels⟩, hends⟩, hdepth⟩, hoff⟩ := hcheck
  have hsteps : steps.length = 3 := by rw [← List.length_map Prod.fst, hcs]; rfl
  have hstopped : Stopped m₀ steps := stopped_of_last (hcs ▸ rfl) hstops
  have haccepted := Profile.accepted_of_parse hparse
  have hprotocol := (canned_cycle_protocol haccepted rfl hopens hrun rfl).2.2 c m' hstep
  obtain ⟨-, hcount, blocks, lines, hwritten, -, -, -, -, hfirst⟩ := hprotocol
  rw [hends, hcancels] at hcount
  obtain ⟨b, hb, hword⟩ := hfirst hmoves hoff hstopped
  refine ⟨m₀, _, m', steps, hopens, hrun, hsteps, rfl, hstep, hcancels, hcount, hdepth,
    b, ?_, hword⟩
  rw [hwritten]
  exact List.mem_append_left _ hb

end Toolpath.Machine
