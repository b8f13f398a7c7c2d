import Toolpath.Proofs.ArcWords

/-!
# Circles that are dropped

A motion forgets the circle that was announced before it, whether it follows the circle or
not. It does not while a canned cycle is repeated. Where cycles are called there is no such
cycle to see: the motion between two calls follows its circle, and is written as an arc.
-/

namespace Toolpath

def Queued.bends : Queued → Bool
  | .code c => c.group = some ModalGroup.motion.name &&
      [Function.arcClockwise, .arcCounter].any fun f => f.name = c.function
  | _ => false

def Block.Straight (b : Block) : Prop :=
  (∀ q ∈ b.queued, q.bends = false) ∧ ∀ r ∈ Machine.arcNames, b.word? r = none

namespace Machine

variable {p : Profile} {m m' : Machine} {k : Mode} {c : Command} {r : Text}
  {steps : List (Command × Machine)}

def startsRepeated (m : Machine) (c : Command) : Bool :=
  (m.verbs.resolve c).any fun vc => vc.1 = .cycle && (m.repeats? vc.2).isSome

def endsRepeated (m : Machine) (c : Command) :
    Bool := (m.verbs.resolve c).any fun vc => stopsBy vc.1 vc.2

def drillsHere (m : Machine) (c : Command) : Bool :=
  (m.verbs.resolve c).any fun vc => vc.1 ∈ [Verb.drillHere, .deepDrillHere] && !vc.2.numeric.isEmpty

/-- A cycle was started in the run for every position to come, and no command of the kind
came behind it. -/
def GoesOn (ends : Machine → Command → Bool) (m : Machine) (steps : List (Command × Machine)) :
    Prop :=
  ∃ before c m₁ after, steps = before ++ (c, m₁) :: after ∧
    (final m before).startsRepeated c = true ∧ Throughout (fun c a _ => ends a c = false) m₁ after

theorem throughout_concat {P : Command → Machine → Machine → Prop} :
    Throughout P m (steps ++ [(c, m')]) ↔ Throughout P m steps ∧ P c (final m steps) m' := by
  induction steps generalizing m with
  | nil => simp [Throughout, final]
  | cons s steps ih => rw [List.cons_append, Throughout, Throughout, ih, final_cons, and_assoc]

theorem goesOn_concat {ends : Machine → Command → Bool} :
    GoesOn ends m (steps ++ [(c, m')]) ↔ (final m steps).startsRepeated c = true ∨
      GoesOn ends m steps ∧ ends (final m steps) c = false := by
  constructor
  · rintro ⟨before, c₁, m₁, after, heq, hstarts, hafter⟩
    rcases List.eq_nil_or_concat after with rfl | ⟨after, s, rfl⟩
    · obtain ⟨rfl, hlast⟩ := List.append_inj' heq rfl
      cases hlast
      exact .inl hstarts
    · have hsplit : steps ++ [(c, m')] = (before ++ (c₁, m₁) :: after) ++ [s] := by simpa using heq
      obtain ⟨rfl, hlast⟩ := List.append_inj' hsplit rfl
      cases hlast
      rw [List.concat_eq_append] at hafter
      obtain ⟨hafter, hends⟩ := throughout_concat.mp hafter
      refine .inr ⟨⟨before, c₁, m₁, after, rfl, hstarts, hafter⟩, ?_⟩
      rwa [final_append, final_cons]
  · rintro (hstarts | ⟨⟨before, c₁, m₁, after, rfl, hstarts, hafter⟩, hends⟩)
    · exact ⟨steps, c, m', [], rfl, hstarts, trivial⟩
    · rw [final_append, final_cons] at hends
      exact ⟨before, c₁, m₁, after ++ [(c, m')], by simp, hstarts,
        throughout_concat.mpr ⟨hafter, hends⟩⟩

theorem after_eq_repeated : k.after m c = .repeated ↔ m.startsRepeated c = true ∨
    k = .repeated ∧ (m.endsRepeated c || m.drillsHere c) = false := by
  unfold Mode.after startsRepeated endsRepeated drillsHere
  cases hv : m.verbs.resolve c with
  | none => simp
  | some vc =>
    obtain ⟨v, c'⟩ := vc
    have hmoved : k.moved = .repeated ↔ k = .repeated := by cases k <;> decide
    have hmotion (b : Bool) : (if b then k.moved else k) = .repeated ↔ k = .repeated := by
      cases b <;> simp [hmoved]
    cases v with
    | cycle =>
      by_cases hoff : c'.hasMinor ["off"] = true
      · simp [Mode.next, repeats?, stopsBy, hoff]
      · by_cases hdrill : c'.hasMinor ["drill"] = true <;>
          by_cases hdeep : c'.hasMinor ["deep"] = true <;>
          simp [Mode.next, repeats?, stopsBy, hoff, hdrill, hdeep]
    | drillHere | deepDrillHere =>
      cases hnone : c'.numeric.isEmpty <;> simp [Mode.next, stopsBy, hnone]
    | finish => simp [Mode.next, stopsBy]
    | _ => simpa [Mode.next, stopsBy] using hmotion _

theorem Fresh.off (h : m.Fresh p) : InMode m .off :=
  ⟨(h.codes .cycle).2, h.vars _ (by simp), h.vars _ (by simp)⟩

theorem drills_eq_inMode (hk : InMode m k) : m.drills = decide (k = .repeated) := by
  have hactive := hk.active_iff
  rw [drills, hk.once_iff]
  cases k <;> simp_all

theorem Leads.drills_iff (hcoded : p.Coded) (style : p.cycleStyle = .code) (hm : Canned p m)
    (hoff : InMode m .off) (h : Leads m steps) : (final m steps).drills = true ↔
      GoesOn (fun a c => a.endsRepeated c || a.drillsHere c) m steps := by
  -- the induction goes from the end, since a run is told by what its last command does
  suffices hmode : ∃ k, InMode (final m steps) k ∧
      (k = .repeated ↔ GoesOn (fun a c => a.endsRepeated c || a.drillsHere c) m steps) by
    obtain ⟨k, hk, hiff⟩ := hmode
    rw [drills_eq_inMode hk, decide_eq_true_eq, hiff]
  induction steps using List.reverseRecOn with
  | nil =>
    refine ⟨.off, hoff, iff_of_false (by decide) ?_⟩
    rintro ⟨before, c, m₁, after, heq, -⟩
    simp at heq
  | append_singleton steps s ih =>
    obtain ⟨hsteps, hstep, -⟩ := leads_append.mp h
    obtain ⟨k, hk, hiff⟩ := ih hsteps
    obtain ⟨hprofile, -, hsound, -⟩ := hsteps.canned hcoded style hm
    have hturns := hstep.turns (hprofile ▸ hcoded) (hprofile ▸ style) hsound hk
    refine ⟨k.after (final m steps) s.1, ?_, ?_⟩
    · rw [final_append, final_cons]
      exact hturns.mode
    · rw [goesOn_concat, after_eq_repeated, hiff]

theorem Stocked.straight (hm : Stocked m) : ∀ q ∈ m.writer.pending, q.bends = false := by
  have hapart : ModalGroup.motion.name ≠ ModalGroup.cutcom.name ∧
      ModalGroup.motion.name ≠ ModalGroup.cycle.name := by decide
  intro q hq
  cases q with
  | code c =>
    by_contra hbends
    have hgroup : c.group = some ModalGroup.motion.name := by
      simp only [Queued.bends, Bool.not_eq_false, Bool.and_eq_true, decide_eq_true_eq] at hbends
      exact hbends.1
    have hmem : ModalGroup.motion.name ∈ m.groups := List.mem_filterMap.mpr ⟨_, hq, hgroup⟩
    exact (hm.batch.groups _ hmem).elim hapart.1 hapart.2
  | _ => rfl

theorem motionWords_straight (h : m.arc? = none) : ∀ q ∈ m.motionWords, q.bends = false := by
  have hpath : m.path = .rapid ∨ m.path = .linear := by
    rw [path, h, pathFunction]
    cases m.isRapid
    · exact .inr rfl
    · exact .inl rfl
  have hcode (text : Text) : Queued.bends
      (.code { function := m.path.name, group := some ModalGroup.motion.name, text }) = false := by
    rcases hpath with hpath | hpath <;> rw [hpath] <;> rfl
  intro q hq
  rcases List.mem_append.mp hq with hq | hq
  · split at hq
    · obtain rfl := List.mem_singleton.mp hq
      rfl
    · simp at hq
  · split at hq
    · simp at hq
    · obtain rfl := List.mem_singleton.mp hq
      exact hcode _

theorem ArcWords.mem_arcNames {words : List Text} (h : ArcWords m words) :
    ∃ r ∈ arcNames, r ∈ words := by
  rcases h with rfl | ⟨-, rfl⟩
  · refine ⟨m.frame.first.offset, ?_, by simp⟩
    cases m.frame.first <;> decide
  · exact ⟨"R", by decide, by simp⟩

/-- A motion forgets the circle, and its blocks are those of a straight motion just when
it follows no circle and no register of arcs is flagged before it. -/
theorem Step.straight_iff (hm : Ordered m) (h : Step c m m') (hmoves : m.moves c = true) :
    m'.circle = none ∧ ((∀ b ∈ blocksSince m m', b.Straight) ↔
      m.arcOn? c = none ∧ ∀ r ∈ arcNames, m.flagged r = false) := by
  obtain ⟨v, c', a, calls, hv, hheads, hcircle, -, hcalls, hblocks⟩ :=
    h.moved hm.coded hm.fit hmoves
  refine ⟨hcircle, ?_⟩
  rw [arcOn?_eq hv]
  have hunflagged (hflags : ∀ r ∈ arcNames, a.flagged r = false) :
      (m.announcing v).arc? = none ∧ ∀ r ∈ arcNames, m.flagged r = false := by
    have harc : (m.announcing v).arc? = none := by
      -- an arc shows at least one register of its own
      by_contra hbent
      obtain ⟨words, hwords, -, hshown⟩ := hheads.bent hbent
      obtain ⟨r, hr, hmem⟩ := hwords.mem_arcNames
      have hflag := (hflags r hr).symm.trans (hshown r hr)
      simp [hmem] at hflag
    exact ⟨harc, fun r hr => (hheads.straight harc r hr).symm.trans (hflags r hr)⟩
  constructor
  · intro hstraight
    refine hunflagged fun r hr => ?_
    rcases hblocks with ⟨-, -, hnone⟩ | ⟨b, hblocks, -, hwords⟩
    · exact hnone r (arcNames_tracked r hr).1
    · by_contra hflag
      have hword := (hstraight b (by simp [hblocks])).2 r hr
      rw [hwords r (arcNames_tracked r hr).1, if_pos (by simpa using hflag)] at hword
      cases hword
  · rintro ⟨harc, hflags⟩ b hb
    have hnone (r : Text) (hr : r ∈ arcNames) : a.flagged r = false :=
      (hheads.straight harc r hr).trans (hflags r hr)
    have hcall {b : Block} (hb : b ∈ calls) : b.Straight := by
      refine ⟨fun q hq => ?_, fun r hr => (hcalls b hb).2 r (arcNames_tracked r hr).1 ?_⟩
      · obtain ⟨w, rfl⟩ := (hcalls b hb).1 q hq
        rfl
      · rw [hnone r hr, Bool.false_and]
    rcases hblocks with ⟨hblocks, -, -⟩ | ⟨b', hblocks, hqueued, hwords⟩
    · exact hcall (hblocks ▸ hb)
    · rw [hblocks] at hb
      rcases List.mem_append.mp hb with hb | hb
      · exact hcall hb
      obtain rfl := List.mem_singleton.mp hb
      refine ⟨fun q hq => ?_, fun r hr => ?_⟩
      · rw [hqueued, hheads.pending] at hq
        rcases List.mem_append.mp hq with hq | hq
        · exact hm.stocked.straight q hq
        · exact motionWords_straight harc q hq
      · rw [hwords r (arcNames_tracked r hr).1, hnone r hr]
        rfl

def rapidOn (m : Machine) (c : Command) :
    Bool := (m.verbs.resolve c).any fun vc => (m.announcing vc.1).isRapid

theorem arcOn?_eq_none {circle : Circle} (hcircle : m.circle = some circle)
    (hmoves : m.moves c = true) :
    m.arcOn? c = none ↔ m.drills = true ∨ m.rapidOn c = true ∨
    Arc.winding? m.frame circle = none := by
  cases hv : m.verbs.resolve c with
  | none => simp [moves, hv] at hmoves
  | some vc =>
    have hcircle' : (m.announcing vc.1).circle = some circle := hcircle
    simp only [arcOn?, rapidOn, hv, Option.bind_some, Option.any_some, arc?, arcUnless, hcircle',
      announcing_frame, announcing_drills]
    cases (m.announcing vc.1).isRapid <;> cases m.drills <;> simp

/-- After any run under an accepted profile, let a circle be announced and a motion come. The motion
forgets the circle. It is written without the code of an arc and without words of arcs just when it
is rapid, the axis of the circle is not normal to the working plane, or cycles are codes and one
goes on at every position; and no register of arcs that is not modal still has its flag. -/
theorem circle_dropped_iff {p : Profile} {m₀ m m' : Machine} {steps : List (Command × Machine)}
    {c : Command} {circle : Circle} (haccepted : p.Accepted) (hopens : Opens p m₀)
    (hrun : Leads m₀ steps) (hm : m = final m₀ steps) (hcircle : m.circle = some circle)
    (hmoves : m.moves c = true) (hstep : Step c m m') :
    m'.circle = none ∧ ((∀ b ∈ blocksSince m m', b.Straight) ↔
      (p.cycleStyle = .code ∧ GoesOn (fun a c => a.endsRepeated c || a.drillsHere c) m₀ steps ∨
        m.rapidOn c = true ∨ Arc.winding? m.frame circle = none) ∧
      ∀ r ∈ arcNames, m.flagged r = false) := by
  subst hm
  have hordered : Ordered (final m₀ steps) :=
    hrun.kept (P := Ordered) (fun _ _ _ ha hab => hab.ordered ha) (hopens.ordered haccepted)
  obtain ⟨hdropped, hiff⟩ := hstep.straight_iff hordered hmoves
  refine ⟨hdropped, hiff.trans ?_⟩
  rw [arcOn?_eq_none hcircle hmoves]
  have hready := hrun.ready hopens.ready
  have hdrills : (final m₀ steps).drills = true ↔
      p.cycleStyle = .code ∧ GoesOn (fun a c => a.endsRepeated c || a.drillsHere c) m₀ steps := by
    cases style : p.cycleStyle with
    | code => simpa using hrun.drills_iff haccepted.coded style hopens.fresh.canned hopens.fresh.off
    | call =>
      have hidle := hready.uncanned (hready.profile ▸ style)
      simp [drills, hidle]
  rw [hdrills]

set_option maxRecDepth 100000 in
theorem circle_dropped_iff_drilling : ∃ m₀ m m' : Machine, ∃ steps : List (Command × Machine),
    Opens { cycleStyle := .code } m₀ ∧ Leads m₀ steps ∧ m = final m₀ steps ∧
      steps.map Prod.fst = [{ major := "goto", numeric := [10, 0, 0] },
        { major := "cycle", minor := ["drill"], numeric := [10, 2] },
        { major := "circle", numeric := [0, 0, 0, 0, 0, 1, 10] }] ∧
      m.circle ≠ none ∧ Step { major := "goto", numeric := [0, 10, 0] } m m' ∧ m'.circle = none ∧
      ∀ b ∈ blocksSince m m', b.Straight := by
  let p : Profile := { cycleStyle := .code }
  let first : Command := { major := "goto", numeric := [10, 0, 0] }
  let drill : Command := { major := "cycle", minor := ["drill"], numeric := [10, 2] }
  let turn : Command := { major := "circle", numeric := [0, 0, 0, 0, 0, 1, 10] }
  let c : Command := { major := "goto", numeric := [0, 10, 0] }
  let check (_ : Machine) (steps : List (Command × Machine)) (_ : Machine) : Bool :=
    steps |> passThree fun a b m =>
      a.startsRepeated drill && !(b.endsRepeated turn || b.drillsHere turn) &&
      m.circle.isSome && m.moves c && decide (∀ r ∈ arcNames, m.flagged r = false)
  have hparse : (Profile.parse "\x7b\"cycleStyle\":\"gcode\"\x7d" .json []).toOption = some p := by
    decide +kernel
  have hcheck : rehearse p [first, drill, turn] c check = true := by decide +kernel
  obtain ⟨m₀, steps, m', hopens, hrun, hcs, hstep, hcheck⟩ := exists_of_rehearse hcheck
  obtain ⟨a, b, m, rfl⟩ := steps_of_three hcs
  simp only [check, passThree, Bool.and_eq_true, Bool.not_eq_true', decide_eq_true_eq] at hcheck
  obtain ⟨⟨⟨⟨hstarts, hgoes⟩, hturn⟩, hmoves⟩, hflags⟩ := hcheck
  obtain ⟨circle, hcircle⟩ := Option.isSome_iff_exists.mp hturn
  obtain ⟨hnone, hiff⟩ :=
    circle_dropped_iff (Profile.accepted_of_parse hparse) hopens hrun rfl hcircle hmoves hstep
  refine ⟨m₀, m, m', _, hopens, hrun, rfl, hcs, by simp [hcircle], hstep, hnone,
    hiff.mpr ⟨.inl ⟨rfl, ?_⟩, hflags⟩⟩
  exact ⟨[(first, a)], drill, b, [(turn, m)], rfl, hstarts, hgoes, trivial⟩

set_option maxRecDepth 100000 in
/-- Where cycles are called, a motion follows its circle while a cycle is repeated. -/
theorem circle_followed_while_drilling : Profile.Accepted {} ∧
    ∃ m₀ m m' : Machine, ∃ steps : List (Command × Machine), Opens {} m₀ ∧ Leads m₀ steps ∧
      m = final m₀ steps ∧ steps.map Prod.fst = [{ major := "goto", numeric := [10, 0, 0] },
        { major := "cycle", minor := ["drill"], numeric := [10, 2] },
        { major := "circle", numeric := [0, 0, 0, 0, 0, 1, 10] }] ∧
      GoesOn endsRepeated m₀ steps ∧ m.circle ≠ none ∧
      Step { major := "goto", numeric := [0, 10, 0] } m m' ∧
      ∃ b ∈ blocksSince m m', (∃ q ∈ b.queued, q.bends = true) ∧ b.word? "I" ≠ none ∧
        b.word? "J" ≠ none := by
  let first : Command := { major := "goto", numeric := [10, 0, 0] }
  let drill : Command := { major := "cycle", minor := ["drill"], numeric := [10, 2] }
  let turn : Command := { major := "circle", numeric := [0, 0, 0, 0, 0, 1, 10] }
  let c : Command := { major := "goto", numeric := [0, 10, 0] }
  let check (_ : Machine) (steps : List (Command × Machine)) (m' : Machine) : Bool :=
    steps |> passThree fun a b m =>
      a.startsRepeated drill && !b.endsRepeated turn && m.circle.isSome &&
      (blocksSince m m').any fun b =>
        b.queued.any Queued.bends && (b.word? "I").isSome && (b.word? "J").isSome
  have hparse : (Profile.parse "\x7b\x7d" .json []).toOption = some {} := by decide +kernel
  have hcheck : rehearse {} [first, drill, turn] c check = true := by decide +kernel
  obtain ⟨m₀, steps, m', hopens, hrun, hcs, hstep, hcheck⟩ := exists_of_rehearse hcheck
  obtain ⟨a, b, m, rfl⟩ := steps_of_three hcs
  simp only [check, passThree, Bool.and_eq_true, Bool.not_eq_true', List.any_eq_true] at hcheck
  obtain ⟨⟨⟨hstarts, hgoes⟩, hturn⟩, block, hblock, ⟨hcode, hi⟩, hj⟩ := hcheck
  exact ⟨Profile.accepted_of_parse hparse, m₀, m, m', _, hopens, hrun, rfl, hcs,
    ⟨[(first, a)], drill, b, [(turn, m)], rfl, hstarts, hgoes, trivial⟩,
    Option.isSome_iff_ne_none.mp hturn, hstep, block, hblock, hcode,
    Option.isSome_iff_ne_none.mp hi, Option.isSome_iff_ne_none.mp hj⟩

end Machine
end Toolpath
