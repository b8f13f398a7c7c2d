import Toolpath.Proofs.MotionPaths
import Toolpath.Proofs.StartedMachines

/-!
# The words of arcs

The registers of arcs are set for an arc and for nothing else, and the block of the arc
clears their flags if they are modal. So a block has a word of theirs only if it is that
of an arc, and then it has just the words that the arc is written with.
-/

namespace Toolpath

def Plane.ends : Plane → List Text
  | .xy => ["X", "Y"]
  | .zx => ["X", "Z"]
  | .yz => ["Y", "Z"]

def Plane.offsets : Plane → List Text
  | .xy => ["I", "J"]
  | .zx => ["I", "K"]
  | .yz => ["J", "K"]

theorem Plane.named_name (plane : Plane) : Frame.named plane.name = Frame.ofPlane plane := by
  cases plane <;> decide

variable {plane : Plane}

theorem Plane.mem_ends {r : Text} : r ∈ plane.ends ↔ r ∈ (Frame.ofPlane plane).registers := by
  cases plane <;> simp [ends, Frame.registers, Frame.ofPlane, Axis.register, or_comm]

theorem Plane.mem_offsets {r : Text} :
    r ∈ plane.offsets ↔
      r ∈ [(Frame.ofPlane plane).first.offset, (Frame.ofPlane plane).second.offset] := by
  cases plane <;> simp [offsets, Frame.ofPlane, Axis.offset, or_comm]

namespace Machine

open Registers (normalName)

variable {S : Machine → Deed → Prop} {p : Profile} {m m' : Machine} {d : Deed} {v : Verb}
  {c : Command} {r : Text} {steps : List (Command × Machine)}

/-- The block is that of an arc in the plane: it has both coordinates of the end point,
and of the registers of arcs either just the offsets of the center or, where the profile
has arcs written so, just the radius. -/
def IsArc (p : Profile) (plane : Plane) (word : Text → Text) (b : Block) : Prop :=
  (∀ r ∈ plane.ends, b.word? r = some (word r)) ∧
    ∃ words, (words = plane.offsets ∨ p.arcRadius = true ∧ words = [Text.ofString "R"]) ∧
      ∀ r ∈ arcNames, (r ∈ words → b.word? r = some (word r)) ∧ (r ∉ words → b.word? r = none)

def WorksIn (plane : Plane) (m : Machine) :
    Prop := m.vars.text Variable.plane Plane.xy.name = plane.name

theorem WorksIn.frame (h : WorksIn plane m) : m.frame = Frame.ofPlane plane := by
  rw [Machine.frame, h, plane.named_name]

/-- The deeds that leave the working plane or take up another one. -/
def KeepsPlane : Deed → Prop
  | .assign key v => key = Variable.plane → ∃ plane : Plane, v = .text plane.name
  | .unassign key => key ≠ Variable.plane
  | _ => True

theorem Does.keepsPlane (h : Does d m m') (hd : KeepsPlane d) (hm : ∃ plane, WorksIn plane m) :
    ∃ plane, WorksIn plane m' := by
  obtain ⟨plane, hplane⟩ := hm
  cases h with
  | assign _ key v =>
    by_cases hkey : Variable.plane = key
    · obtain ⟨plane', rfl⟩ := hd hkey.symm
      exact ⟨plane', by simp [WorksIn, Memo.text, hkey]⟩
    · exact ⟨plane, by simpa [WorksIn, Memo.text, hkey] using hplane⟩
  | unassign _ key => exact ⟨plane, by simpa [WorksIn, Memo.text, Ne.symm hd] using hplane⟩
  | block => exact ⟨plane, by rwa [WorksIn, wroteBlock_vars]⟩
  | _ => exact ⟨plane, hplane⟩

theorem keepsPlane_assign {key : Text} {w : Value} (h : key ≠ Variable.plane) :
    KeepsPlane (.assign key w) :=
  fun hkey => absurd hkey h

theorem keepsPlane_unassign {key : Text} {keys : List Text} (hkey : key ∈ keys)
    (h : Variable.plane ∉ keys) :
    KeepsPlane (.unassign key) := by
  rintro rfl
  exact h hkey

theorem MotionMay.keepsPlane (h : MotionMay p m d) : KeepsPlane d := by
  cases h with
  | call h => cases h <;> trivial
  | travel h =>
    cases h with
    | restate h =>
      cases h with
      | point => trivial
      | restated => exact (by decide : Variable.restate ≠ Variable.plane)
    | adapt h =>
      cases h with
      | unassign key hkey => exact keepsPlane_unassign hkey (by decide)
      | _ => trivial
    | path h =>
      cases h with
      | straightened => exact keepsPlane_assign (by decide)
      | _ => trivial
  | axis h => cases h; trivial
  | rapid | restate => exact keepsPlane_assign (by decide)
  | block => trivial

theorem May.keepsPlane (h : Verb.May p m v d) : KeepsPlane d := by
  cases h with
  | move _ h => exact h.keepsPlane
  | start _ h =>
    cases h with
    | call h => cases h <;> trivial
    | cycle | once => exact keepsPlane_assign (by decide)
    | repeated => exact (by decide : Variable.cycleOnce ≠ Variable.plane)
    | _ => trivial
  | cancel _ h =>
    cases h with
    | unassign key hkey => exact keepsPlane_unassign hkey (by decide)
    | restate => exact keepsPlane_assign (by decide)
    | _ => trivial
  | wrapUp h =>
    cases h with
    | finished => exact keepsPlane_assign (by decide)
    | _ => trivial
  | name v key t hname =>
    refine keepsPlane_assign ?_
    rintro rfl
    exact absurd (List.mem_map_of_mem (f := Prod.snd) hname)
      (by decide : Variable.plane ∉ [Variable.partNumber, Variable.operation])
  | spindleSetting h =>
    cases h with
    | assign key v hkey =>
      refine keepsPlane_assign ?_
      rintro rfl
      exact absurd hkey (by decide)
  | plane plane => exact fun _ => ⟨plane, rfl⟩
  | homeRestate | homeMotion | multiAxis | coolantKind | tool | toolRestate | dwellSum =>
    exact keepsPlane_assign (by decide)
  | _ => trivial

theorem Step.keepsPlane (h : Step c m m') (hm : ∃ plane, WorksIn plane m) :
    ∃ plane, WorksIn plane m' := by
  refine h.course.invariant (fun d a b hd hab => hab.keepsPlane ?_) hm
  rcases hd with rfl | ⟨v, c', -, hd⟩
  · trivial
  · exact May.keepsPlane hd

theorem Opens.worksIn (h : Opens p m) : WorksIn .xy m := by
  obtain ⟨occasion, outlet, m₀, strict, subject, log, skip, hstart, rfl⟩ := h
  have hinitial : initialVariables.text Variable.plane Plane.xy.name = Plane.xy.name := by decide
  have hne : Variable.plane ≠ Variable.skipSameTool := by decide
  cases skip
  · simpa [WorksIn, (start_others hstart).2.1] using hinitial
  · simpa [WorksIn, Memo.text, (start_others hstart).2.1, hne] using hinitial

def Arcless (m : Machine) : Prop := ∀ r ∈ arcNames, m.isModal r = true ∧ m.flagged r = false

theorem arcNames_tracked : ∀ r ∈ arcNames, r ∈ trackedNames ∧ r ≠ "F" := by decide

theorem Step.arcless (h : Step c m m') (hfit : Fit m) (hm : Arcless m) : Arcless m' := by
  intro r hr
  obtain ⟨htracked, hfeed⟩ := arcNames_tracked r hr
  have hmodal : m'.isModal r = true := (h.course.isModal hfit.sound.indexed).trans (hm r hr).1
  refine ⟨hmodal, ?_⟩
  have hrest := h.atRest htracked hfeed hfit.sound.indexed (hfit.tracks htracked) fun hf => by
    simp [(hm r hr).2] at hf
  by_contra hflagged
  have hfixed := (hrest (by simpa using hflagged)).1
  simp [hmodal] at hfixed

theorem May.passesBy_arcs (hstill : v.moves = false) (hr : r ∈ arcNames) (h : Verb.May p m v d) :
    PassesBy r d := by
  obtain ⟨htracked, hfeed⟩ := arcNames_tracked r hr
  by_cases hspindle : v = .spindle
  · subst hspindle
    have hspeed : ∀ r ∈ arcNames, normalName "S" ≠ normalName r := by decide
    cases h with
    | speed => exact hspeed r hr
    | spindleSetting h => cases h; trivial
    | move hmoves => cases hmoves
    | start hv => simp at hv
    | cancel hv => simp at hv
    | feed _ _ hv => simp at hv
    | toolNumber _ _ hv => simp at hv
    | _ => trivial
  · exact May.passesBy htracked hfeed hstill hspindle h

theorem Step.still_words (h : Step c m m') (hstill : m.moves c = false) (hfit : Fit m)
    (hm : Arcless m) :
    ∀ b ∈ blocksSince m m', ∀ r ∈ arcNames, b.word? r = none := by
  let I (a : Machine) : Prop := Fit a ∧ ∀ r ∈ arcNames, a.flagged r = false
  rcases h.still hstill with ⟨vars, stats, last, log, rfl, -⟩ | ⟨v, c', -, hmoves, hcourse⟩
  · simp [blocksSince]
  · obtain ⟨-, bs, hbs, hdue⟩ := hcourse.blocks (I := I) (fun d a b hd hab ha =>
      ⟨hab.fit (May.orderly hd) ha.1, fun r hr =>
        hab.unflagged (May.passesBy_arcs hmoves hr hd) ha.1
        (arcNames_tracked r hr).1 (ha.2 r hr)⟩) ⟨hfit, fun r hr => (hm r hr).2⟩
    intro b hb r hr
    rw [blocksSince_eq hbs] at hb
    obtain ⟨a, number, ⟨ha, hflags⟩, rfl⟩ := hdue b hb
    rw [due_word? ha (arcNames_tracked r hr).1, hflags r hr]
    rfl

theorem Step.arc_words (hcoded : m.profile.Coded) (hfit : Fit m) (hm : Arcless m)
    (hplane : WorksIn plane m) (h : Step c m m') (hmoves : m.moves c = true) {b : Block}
    (hb : b ∈ blocksSince m m') (hr : r ∈ arcNames) (hword : b.word? r ≠ none) :
    ∃ circle winding, m.arcOn? c = some (circle, winding) ∧ m.circle = some circle ∧
      m'.active .motion = m.profile.code winding.code ∧ IsArc m.profile plane m'.word b := by
  obtain ⟨v, c', a, calls, hv, hheads, -, hcode, hcalls, hblocks⟩ := h.moved hcoded hfit hmoves
  -- the call of a cycle comes behind the block, which has cleared the flags
  have hcleared {x : Block} (hx : x ∈ calls) {r : Text} (hr : r ∈ arcNames) : x.word? r = none := by
    refine (hcalls x hx).2 r (arcNames_tracked r hr).1 ?_
    rw [(hm r hr).1, Bool.not_true, Bool.and_false]
  rcases hblocks with ⟨hblocks, -, -⟩ | ⟨b', hblocks, -, hwords⟩
  · rw [hblocks] at hb
    exact absurd (hcleared hb hr) hword
  · rw [hblocks] at hb
    rcases List.mem_append.mp hb with hb | hb
    · exact absurd (hcleared hb hr) hword
    obtain rfl := List.mem_singleton.mp hb
    have hflagged : a.flagged r = true := by
      by_contra hf
      exact hword (by rw [hwords r (arcNames_tracked r hr).1, if_neg hf])
    have hbent : (m.announcing v).arc? ≠ none := by
      intro hnone
      rw [hheads.straight hnone r hr] at hflagged
      exact absurd ((hm r hr).2.symm.trans hflagged) Bool.false_ne_true
    obtain ⟨⟨circle, winding⟩, harc⟩ := Option.ne_none_iff_exists'.mp hbent
    obtain ⟨hstraight, hcircle, -⟩ := arcUnless_some harc
    have hidle : m.drills = false := (announcing_drills m v) ▸ (Bool.or_eq_false_iff.mp hstraight).2
    have hframe : (m.announcing v).frame = Frame.ofPlane plane :=
      (announcing_frame m v).trans hplane.frame
    -- of an arc the flags before its block are known exactly
    obtain ⟨words, hshown, hends, hflags⟩ := hheads.bent hbent
    rw [hframe] at hends
    rw [ArcWords, hframe] at hshown
    have hshow (r : Text) (hr : r ∈ arcNames) :
        (r ∈ words → b.word? r = some (m'.word r)) ∧ (r ∉ words → b.word? r = none) := by
      have hbefore : (m.announcing v).flagged r = false := (hm r hr).2
      rw [hwords r (arcNames_tracked r hr).1, hflags r hr, hbefore, Bool.false_or]
      exact ⟨fun hmem => if_pos (decide_eq_true hmem), fun hmem => if_neg (by simpa using hmem)⟩
    refine ⟨circle, winding, (arcOn?_eq hv).trans harc, hcircle, ?_, fun r hr => ?_, ?_⟩
    · rw [hcode hidle, path, harc]
      rfl
    · have hend := Plane.mem_ends.mp hr
      rw [hwords r ((Frame.ofPlane plane).registers_tracked r hend), if_pos (hends r hend)]
    · rcases hshown with rfl | ⟨hradius, rfl⟩
      · refine ⟨plane.offsets, .inl rfl, fun r hr => ?_⟩
        rw [Plane.mem_offsets]
        exact hshow r hr
      · exact ⟨_, .inr ⟨hradius, rfl⟩, hshow⟩

/-- After any run under a profile with modal registers for arcs, none of these registers is flagged.
A motion leaves no circle, and a block has a word of one of these registers only if it is the block
of an arc: it has the words of the end point in the working plane, and of the registers of arcs
just the two offsets of that plane, or just the radius where the profile has arcs written so. -/
theorem arc_words_confined {p : Profile} {m₀ m : Machine} {steps : List (Command × Machine)}
    (haccepted : p.Accepted) (hopens : Opens p m₀) (hmodal : ∀ r ∈ arcNames, m₀.isModal r = true)
    (hrun : Leads m₀ steps) (hm : m = final m₀ steps) :
    (∀ r ∈ arcNames, m.flagged r = false) ∧ ∃ plane : Plane, WorksIn plane m ∧
      ∀ c m', Step c m m' → (m.moves c = true → m'.circle = none) ∧
        ∀ b ∈ blocksSince m m', (∃ r ∈ arcNames, b.word? r ≠ none) → m.moves c = true ∧
          ∃ circle winding, m.arcOn? c = some (circle, winding) ∧ m.circle = some circle ∧
            m'.active .motion = p.code winding.code ∧ IsArc p plane m'.word b := by
  subst hm
  have hready := hrun.ready hopens.ready
  have hcoded : (final m₀ steps).profile.Coded := hready.profile ▸ haccepted.coded
  have hfresh := hopens.fresh
  obtain ⟨plane, hplane⟩ := hrun.kept (P := fun a => ∃ plane, WorksIn plane a)
    (fun _ _ _ ha hab => hab.keepsPlane ha) ⟨_, hopens.worksIn⟩
  have harcless : Arcless (final m₀ steps) :=
    (hrun.kept (P := fun a => Fit a ∧ Arcless a) (fun _ _ _ ha hab =>
      ⟨hab.fit ha.1, hab.arcless ha.1 ha.2⟩)
      ⟨hopens.fit, fun r hr => ⟨hmodal r hr, (hfresh.value_flagged r).2⟩⟩).2
  refine ⟨fun r hr => (harcless r hr).2, plane, hplane, fun c m' hstep => ⟨fun hmoves => ?_, ?_⟩⟩
  · obtain ⟨-, -, -, -, -, -, hcircle, -⟩ := hstep.moved hcoded hready.fit hmoves
    exact hcircle
  · rintro b hb ⟨r, hr, hword⟩
    cases hmoves : (final m₀ steps).moves c with
    | false => exact absurd (hstep.still_words hmoves hready.fit harcless b hb r hr) hword
    | true =>
      rw [← hready.profile]
      exact ⟨rfl, hstep.arc_words hcoded hready.fit harcless hplane hmoves hb hr hword⟩

set_option maxRecDepth 100000 in
theorem arc_words_confined_turned : ∃ m₀ m m' : Machine, ∃ steps : List (Command × Machine),
    Opens {} m₀ ∧ (∀ r ∈ arcNames, m₀.isModal r = true) ∧ Leads m₀ steps ∧ m = final m₀ steps ∧
      steps.map Prod.fst = [{ major := "goto", numeric := [10, 0, 0] },
        { major := "circle", numeric := [0, 0, 0, 0, 0, 1, 10] }] ∧
      Step { major := "goto", numeric := [0, 10, 0] } m m' ∧ m'.circle = none ∧
      ∃ b ∈ blocksSince m m', b.word? "I" ≠ none ∧ IsArc {} .xy m'.word b := by
  let cs : List Command := [{ major := "goto", numeric := [10, 0, 0] },
    { major := "circle", numeric := [0, 0, 0, 0, 0, 1, 10] }]
  let c : Command := { major := "goto", numeric := [0, 10, 0] }
  let check (m₀ : Machine) (steps : List (Command × Machine)) (m' : Machine) : Bool :=
    decide (∀ r ∈ arcNames, m₀.isModal r = true) && (final m₀ steps).moves c &&
      (final m₀ steps).vars.text Variable.plane Plane.xy.name = Plane.xy.name &&
      (blocksSince (final m₀ steps) m').any fun b => (b.word? "I").isSome
  have hparse : (Profile.parse "\x7b\x7d" .json []).toOption = some {} := by decide +kernel
  have hcheck : rehearse {} cs c check = true := by decide +kernel
  obtain ⟨m₀, steps, m', hopens, hrun, hcs, hstep, hcheck⟩ := exists_of_rehearse hcheck
  simp only [check, Bool.and_eq_true, decide_eq_true_eq, List.any_eq_true] at hcheck
  obtain ⟨⟨⟨hmodal, hmoves⟩, hxy⟩, b, hb, hword⟩ := hcheck
  have hword : b.word? "I" ≠ none := Option.isSome_iff_ne_none.mp hword
  obtain ⟨-, plane, hplane, hsteps⟩ :=
    arc_words_confined (Profile.accepted_of_parse hparse) hopens hmodal hrun rfl
  obtain rfl : plane = .xy := by
    have hname := hplane.symm.trans hxy
    revert hname
    cases plane <;> decide
  obtain ⟨hcircle, hblocks⟩ := hsteps c m' hstep
  obtain ⟨-, circle, winding, -, -, -, harc⟩ := hblocks b hb ⟨"I", by decide, hword⟩
  exact ⟨m₀, _, m', steps, hopens, hmodal, hrun, rfl, hcs, hstep, hcircle hmoves, b, hb,
    hword, harc⟩

end Machine
end Toolpath
