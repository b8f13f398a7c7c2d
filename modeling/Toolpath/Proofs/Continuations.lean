import Toolpath.Proofs.Cycles
import Toolpath.Proofs.Lockstep

/-!
# Continuation rows

A row of numbers without a major word continues the last command that a verb answers to and that
is no row itself. A command that no verb answers to leaves no trace. Only behind a statement that
is spelled `goto` or `rapid` does a row move.
-/

namespace Toolpath

namespace Verbs

/-- The statement that a command is carried out as, if it is one and its verb is known. -/
def statement? (vs : Verbs) (c : Command) : Option Command :=
  ((vs.resolve c).map Prod.snd).filter fun c => !c.isContinuation

def lastStatement? (vs : Verbs) (cs : List Command) : Option Command :=
  (cs.filterMap vs.statement?).getLast?

theorem lastStatement?_cons (vs : Verbs) (c : Command) (cs : List Command) :
    vs.lastStatement? (c :: cs) = (vs.lastStatement? cs).or (vs.statement? c) := by
  unfold lastStatement?
  cases hc : vs.statement? c with
  | none => rw [List.filterMap_cons_none hc, Option.or_none]
  | some s =>
    rw [List.filterMap_cons_some hc, List.getLast?_cons]
    cases (cs.filterMap vs.statement?).getLast? <;> rfl

theorem resolve_row {c : Command} (h : c.isContinuation = true) :
    standard.resolve c = some (.continuation, c) := by
  have hmajor : c.major = Command.continuationWord := by simpa [Command.isContinuation] using h
  have hfound : standard.find? Command.continuationWord = some .continuation := by decide
  simp only [resolve, hmajor, hfound]

theorem lastStatement?_rows {before rows : List Command} {s s' : Command}
    (hs : standard.statement? s = some s') (hrows : ∀ c ∈ rows, c.isContinuation = true) :
    standard.lastStatement? (before ++ s :: rows) = some s' := by
  have hnone : rows.filterMap standard.statement? = [] := by
    refine List.filterMap_eq_nil_iff.mpr fun c hc => ?_
    simp [statement?, resolve_row (hrows c hc), Option.filter, hrows c hc]
  rw [lastStatement?, List.filterMap_append, List.filterMap_cons_some hs, hnone]
  simp

theorem resolve_spelled {c c' : Command} {v : Verb} {vs : Verbs} (h : vs.resolve c = some (v, c')) :
    vs.find? c'.major = some v := by
  unfold resolve at h
  split at h
  case h_1 w hw =>
    cases h
    exact hw
  case h_2 =>
    obtain ⟨c₁, -, h⟩ := Option.bind_eq_some_iff.mp h
    obtain ⟨w, hw, h⟩ := Option.map_eq_some_iff.mp h
    cases h
    exact hw

end Verbs

namespace Machine

variable {α β : Type} {p : Profile} {m m' : Machine} {c : Command} {v : Verb} {u : Unit}

theorem perform_last (h : (perform v c).run m = .ok u m') : m'.last = m.last := by
  obtain ⟨ds, htrace, -⟩ := perform_lockstep (Matches.refl m) (fun _ => rfl) h h
  exact htrace.last

theorem Step.last (h : Step c m m') : m'.last = (m.verbs.statement? c).getD m.last := by
  rcases h.cases with ⟨hv, stats, log, rfl⟩ | ⟨v, c', stats, log, m₁, hv, hp, rfl⟩
  · simp [Verbs.statement?, hv]
  · have hkept : m₁.last = m.last := perform_last (m := { m with stats, log }) hp
    by_cases hc : c'.isContinuation = true <;>
      simp [Verbs.statement?, hv, hc, hkept, Option.filter]

theorem Leads.last {steps : List (Command × Machine)} (h : Leads m steps) :
    (final m steps).last = (m.verbs.lastStatement? (steps.map Prod.fst)).getD m.last := by
  induction steps generalizing m with
  | nil => rfl
  | cons s steps ih =>
    have hrest := ih h.2
    rw [h.1.course.alike.verbs, h.1.last] at hrest
    rw [final_cons, hrest, List.map_cons, Verbs.lastStatement?_cons]
    cases m.verbs.lastStatement? (steps.map Prod.fst) <;> rfl

theorem Opens.last (h : Opens p m) : m.last = {} := by
  obtain ⟨occasion, outlet, m₀, strict, subject, log, skip, hstart, rfl⟩ := h
  obtain ⟨rs, rs', -, -, rfl⟩ := start_ok hstart
  rfl

def Counts (k : Nat) (a : Action α) : Prop :=
  ∀ m x m', a.run m = .ok x m' → m'.stats.motions = m.stats.motions + k

theorem counts_pure (x : α) : Counts 0 (pure x : Action α) := by
  intro m y m' h
  cases h
  rfl

variable {a : Action α} {k : Nat}

theorem counts_bind {j k : Nat} {f : α → Action β} (ha : Counts j a)
    (hf : ∀ x, Counts k (f x)) : Counts (j + k) (a >>= f) := by
  intro m y m' h
  obtain ⟨x, m₁, h₁, h₂⟩ := run_bind_ok.mp h
  have hfirst := ha m x m₁ h₁
  have hsecond := hf x m₁ y m' h₂
  omega

theorem counts_then {f : α → Action β} (ha : Counts 0 a)
    (hf : ∀ x, Counts k (f x)) : Counts k (a >>= f) := by
  have h := counts_bind ha hf
  rwa [Nat.zero_add] at h

theorem counts_get {f : Machine → Action β} (hf : ∀ m, Counts k (f m)) : Counts k (get >>= f) :=
  fun m => hf m m

theorem counts_ite {c : Prop} [Decidable c] {a b : Action α} (ha : Counts k a)
    (hb : Counts k b) : Counts k (if c then a else b) := by
  split
  · exact ha
  · exact hb

theorem counts_onlyIf {b : Bool} {a : Action Unit} (ha : Counts 0 a) : Counts 0 (onlyIf b a) :=
  counts_ite ha (counts_pure ())

theorem counts_modify {f : Machine → Machine}
    (hf : ∀ m, (f m).stats.motions = m.stats.motions + k) : Counts k (modify f : Action PUnit) := by
  intro m x m' h
  cases h
  exact hf m

theorem counts_of_keepsTo {S : Machine → Deed → Prop} (hS : ∀ m d, S m d → d ≠ .book)
    (h : ∀ p, KeepsTo p S a) : Counts 0 a := by
  intro m x m' hr
  refine (h m.profile m rfl x m' hr).kept (R := fun a b => b.stats.motions = a.stats.motions)
    (fun _ => rfl) (fun h h' => h'.trans h) fun d a b hd hab => ?_
  cases hab with
  | book => exact absurd rfl (hS _ _ hd)
  | block => rcases wroteBlock_cases a with ⟨-, h⟩ | ⟨-, number, counter, -, h⟩ <;> rw [h]
  | _ => rfl

theorem counts_emit (f : Function) : Counts 0 (emit f) := by
  intro m x m' h
  rw [emit_run] at h
  split at h <;> cases h <;> rfl

theorem counts_emitModal (g : ModalGroup) (f : Function) : Counts 0 (emitModal g f) := by
  intro m x m' h
  rw [emitModal_run] at h
  split at h <;> cases h <;> rfl

theorem counts_writeBlock : Counts 0 writeBlock :=
  counts_of_keepsTo (S := fun _ d => d = .block) (fun _ _ h => by simp [h]) fun _ =>
    keepsTo_writeBlock fun _ => rfl

theorem counts_callCycle (name : Text) (params : Parameters) :
    Counts 0 (callCycle name params) := by
  refine counts_then (counts_modify fun _ => rfl) fun _ =>
    counts_then (counts_get fun m => ?_) fun c => ?_
  · cases m.cycleMemo? name with
    | some c => exact counts_pure c
    | none =>
      refine counts_then ?_ fun c => counts_then (counts_modify fun _ => rfl) fun _ => counts_pure c
      cases CycleMemo.new name with
      | ok c => exact counts_pure c
      | error e =>
        intro m x m' h
        cases h
  · refine counts_then (counts_modify fun _ => rfl) fun _ =>
      counts_then (counts_modify fun _ => rfl) fun _ => ?_
    exact counts_then counts_writeBlock fun _ => counts_modify fun _ => rfl

theorem counts_adaptToCycle : Counts 0 adaptToCycle := by
  refine counts_get fun m =>
    counts_ite (counts_pure ()) (counts_ite ?_ (counts_modify fun _ => rfl))
  refine counts_then (counts_emit _) fun _ => counts_then ?_ fun _ => counts_modify fun _ => rfl
  intro m x m' h
  cases h
  rfl

theorem counts_setArcWord (name : Text) (x : Float) : Counts 0 (setArcWord name x) :=
  counts_of_keepsTo (S := fun _ d => d ≠ .book) (fun _ _ h => h) fun _ =>
    keepsTo_bind (keepsTo_setRegister (fun _ _ => by simp) x) fun _ =>
      keepsTo_flag fun _ _ _ => by simp

theorem counts_emitArcWords (f : Frame) (c : Circle) (winding : Winding) (start : Point) :
    Counts 0 (emitArcWords f c winding start) := by
  refine counts_get fun m => counts_then (counts_emitModal _ _) fun _ => ?_
  refine counts_then (counts_modify fun _ => rfl) fun _ => counts_get fun m => ?_
  refine counts_ite (counts_setArcWord _ _) (counts_of_keepsTo (S := fun _ d => d ≠ .book)
    (fun _ _ h => h) fun _ => ?_)
  refine keepsTo_bind (keepsTo_forIn _ fun a => ?_) fun _ => keepsTo_pure _
  refine keepsTo_bind ?_ fun _ => keepsTo_pure _
  exact keepsTo_bind (keepsTo_setRegister (fun _ _ => by simp) _) fun _ =>
    keepsTo_flag fun _ _ _ => by simp

theorem counts_followCircle (start : Point) (rapid : Bool) :
    Counts 0 (followCircle start rapid) := by
  have hwarn (text : Text) (details : List (Text × Detail)) : Counts 0 (do
      note .warning text details
      return false) :=
    counts_then (counts_modify fun _ => rfl) fun _ => counts_pure false
  rw [followCircle_eq]
  refine counts_get fun m => ?_
  split
  · exact counts_pure false
  · refine counts_then (counts_modify fun _ => rfl) fun _ => counts_ite (hwarn _ _) ?_
    dsimp only
    split
    · exact counts_then (counts_emitArcWords _ _ _ _) fun _ => counts_pure true
    · exact hwarn _ _

theorem counts_takePath (start : Point) (rapid : Bool) : Counts 1 (takePath start rapid) := by
  refine counts_then (counts_followCircle _ _) fun arc => counts_then (counts_onlyIf ?_) fun _ => ?_
  · exact counts_get fun m => counts_onlyIf (counts_emitModal _ _)
  · refine counts_then (counts_onlyIf (counts_modify fun _ => rfl)) fun _ => ?_
    exact counts_modify fun _ => rfl

theorem counts_queueMotion (start : Point) : Counts 1 (queueMotion start) := by
  refine counts_then (counts_get fun m => counts_onlyIf ?_) fun _ => counts_get fun m => ?_
  · exact counts_then (counts_modify fun _ => rfl) fun _ => counts_modify fun _ => rfl
  · exact counts_then counts_adaptToCycle fun _ => counts_takePath _ _

theorem counts_moveTo (hne : c.numeric.isEmpty = false) : Counts 1 (moveTo c) := by
  have hcall : Counts 0 callRepeated := by
    refine counts_get fun m => ?_
    split
    · exact counts_callCycle _ _
    · exact counts_pure ()
  have haxis {a : Action Unit} (h : ∀ p, KeepsTo p AxisMay a) : Counts 0 a :=
    counts_of_keepsTo (fun _ _ h => by cases h; simp) h
  rw [moveTo, if_neg (by simp [hne])]
  refine counts_get fun m => counts_then (haxis fun _ => keepsTo_setCoordinates c) fun _ => ?_
  refine counts_then (haxis fun _ => keepsTo_setToolAxis c) fun _ => ?_
  exact counts_bind (counts_queueMotion _) fun _ => counts_then counts_writeBlock fun _ => hcall

def takesRows (s : Command) : Bool := s.major = "goto" || s.major = "rapid"

def counted (m : Machine) :
    Machine := { m with stats := { m.stats with commands := m.stats.commands + 1 } }

theorem dispatch_run {c' : Command} (hv : m.verbs.resolve c = some (v, c')) :
    (dispatch c).run m = match (perform v c').run m.counted with
      | .ok _ a => .ok () (if c'.isContinuation then a else { a with last := c' })
      | .error (.failure f) a => .error (.failure (.within (placeOf c') f)) a
      | .error (.violation w) a => .error (.violation w) a := by
  have hv' : m.counted.verbs.resolve c = some (v, c') := hv
  simp only [dispatch, count]
  change (do let m ← get; _ : Action Unit).run m.counted = _
  simp only [EStateM.run_bind, EStateM.run_get, hv', performAt, run_tryCatch]
  cases (perform v c').run m.counted with
  | ok x a =>
    cases c'.isContinuation <;> simp only [onlyIf] <;> rfl
  | error e a => cases e <;> rfl

theorem continueMotion_run (m : Machine) (c : Command) :
    (continueMotion c).run m = if takesRows m.last then (moveTo c).run m
      else (note .warning "continuation ignored"
        [atLine c.line, ("after", .text m.last.major)]).run m := by
  simp only [continueMotion, EStateM.run_bind, EStateM.run_get]
  exact apply_ite (fun a : Action Unit => a.run m) _ _ _

theorem dispatch_row_still (hverbs : m.verbs = .standard) (hrow : c.isContinuation = true)
    (hstill : takesRows m.last = false) :
    ∃ log, (dispatch c).run m = .ok () { m.counted with log } := by
  have hv : m.verbs.resolve c = some (.continuation, c) := hverbs ▸ Verbs.resolve_row hrow
  have hlast : takesRows m.counted.last = false := hstill
  rw [dispatch_run hv, perform, continueMotion_run, hlast]
  simp only [hrow, if_true]
  exact ⟨_, rfl⟩

theorem dispatch_row_motions (hverbs : m.verbs = .standard) (hrow : c.isContinuation = true)
    (hnumber : c.numeric ≠ []) (hmoves : takesRows m.last = true)
    (h : (dispatch c).run m = .ok u m') : m'.stats.motions = m.stats.motions + 1 := by
  have hv : m.verbs.resolve c = some (.continuation, c) := hverbs ▸ Verbs.resolve_row hrow
  have hlast : takesRows m.counted.last = true := hmoves
  rw [dispatch_run hv, perform, continueMotion_run, hlast, if_pos rfl] at h
  cases hmove : (moveTo c).run m.counted with
  | ok x a =>
    simp only [hmove, hrow, if_true] at h
    cases h
    exact counts_moveTo (by simpa using hnumber) m.counted x _ hmove
  | error e a =>
    rw [hmove] at h
    cases e <;> cases h

/-- In every run a row with numbers moves just when the last statement before it,
commands left out that no verb answers to, is spelled `goto` or `rapid`. That
statement is the nearest command that is no row, if a verb answers to it. A row
that does not move is carried out and changes nothing but the books. -/
theorem row_moves_iff {p : Profile} {m₀ m : Machine} {steps : List (Command × Machine)}
    {c : Command} (hopens : Opens p m₀) (hrun : Leads m₀ steps) (hm : m = final m₀ steps)
    (hrow : c.isContinuation = true) (hnumber : c.numeric ≠ []) :
    (∀ m', Step c m m' → (m'.stats.motions = m.stats.motions + 1 ↔
      (Verbs.standard.lastStatement? (steps.map Prod.fst)).any takesRows = true)) ∧
    ((Verbs.standard.lastStatement? (steps.map Prod.fst)).any takesRows = false →
      (∃ m', Step c m m') ∧ ∀ m', Step c m m' → ∃ stats log, m' = { m with stats, log } ∧
        stats.motions = m.stats.motions) ∧
    ∀ before s rows s', steps.map Prod.fst = before ++ s :: rows →
      (∀ row ∈ rows, row.isContinuation = true) → Verbs.standard.statement? s = some s' →
      (Verbs.standard.lastStatement? (steps.map Prod.fst)).any takesRows = takesRows s' := by
  have hverbs₀ := hopens.fresh.verbs
  have hverbs : m.verbs = .standard :=
    hm ▸ hrun.kept (P := fun a => a.verbs = .standard)
      (fun _ _ _ ha hab => hab.course.alike.verbs.trans ha) hverbs₀
  have hlast : takesRows m.last =
      (Verbs.standard.lastStatement? (steps.map Prod.fst)).any takesRows := by
    rw [hm, hrun.last, hverbs₀, hopens.last]
    cases Verbs.standard.lastStatement? (steps.map Prod.fst) <;> rfl
  refine ⟨?_, ?_, fun before s rows s' hsteps hrows hs => ?_⟩
  · rw [← hlast]
    rintro m' ⟨notes, h⟩
    cases hmoves : takesRows m.last with
    | true =>
      have hone := dispatch_row_motions (m := m.addNotes notes) hverbs hrow hnumber hmoves h
      exact ⟨fun _ => rfl, fun _ => hone⟩
    | false =>
      obtain ⟨log, hstill⟩ := dispatch_row_still (m := m.addNotes notes) hverbs hrow hmoves
      cases hstill.symm.trans h
      simp [counted, addNotes]
  · rw [← hlast]
    intro hstill
    constructor
    · obtain ⟨log, h⟩ := dispatch_row_still (m := m.addNotes []) hverbs hrow hstill
      exact ⟨_, [], h⟩
    · rintro m' ⟨notes, h⟩
      obtain ⟨log, hrun⟩ := dispatch_row_still (m := m.addNotes notes) hverbs hrow hstill
      cases hrun.symm.trans h
      exact ⟨_, _, rfl, rfl⟩
  · rw [hsteps, Verbs.lastStatement?_rows hs hrows]
    rfl

set_option maxRecDepth 100000 in
theorem row_moves_iff_rapid : ∃ (m₀ m' : Machine) (steps : List (Command × Machine)),
    Opens {} m₀ ∧ Leads m₀ steps ∧ steps.length = 4 ∧
      Step { major := "continuation", numeric := [7] } (final m₀ steps) m' ∧
      m'.stats.motions = (final m₀ steps).stats.motions + 1 := by
  let cs : List Command :=
    [{ major := "fedrat", numeric := [250] }, { major := "rapid", numeric := [1, 2, 3] },
      { major := "continuation", numeric := [4, 5, 6] }, { major := "cutlev" }]
  let c : Command := { major := "continuation", numeric := [7] }
  have hcheck : rehearse {} cs c (fun _ _ _ => true) = true := by decide +kernel
  obtain ⟨m₀, steps, m', hopens, hrun, hcs, hstep, -⟩ := exists_of_rehearse hcheck
  have hlength : steps.length = 4 := by rw [← List.length_map Prod.fst, hcs]; rfl
  have hlast : (Verbs.standard.lastStatement? cs).any takesRows = true := by decide +kernel
  refine ⟨m₀, m', steps, hopens, hrun, hlength, hstep, ?_⟩
  exact ((row_moves_iff hopens hrun rfl rfl (by simp)).1 m' hstep).mpr (hcs ▸ hlast)

set_option maxRecDepth 100000 in
/-- The nearest command before the row is no row and no motion, and still the row
moves: no verb answers to that command. -/
theorem row_moves_behind_unknown : ∃ (m₀ m' : Machine) (steps : List (Command × Machine)),
    Opens {} m₀ ∧ Leads m₀ steps ∧
      steps.map Prod.fst = [{ major := "goto", numeric := [1, 2, 3] },
        { major := "foo", numeric := [1, 2] }] ∧
      Step { major := "continuation", numeric := [4, 5, 6] } (final m₀ steps) m' ∧
      m'.stats.motions = (final m₀ steps).stats.motions + 1 ∧
      (final m₀ steps).value "X" = 1 ∧ m'.value "X" = 4 := by
  let cs : List Command :=
    [{ major := "goto", numeric := [1, 2, 3] }, { major := "foo", numeric := [1, 2] }]
  let c : Command := { major := "continuation", numeric := [4, 5, 6] }
  let check (m₀ : Machine) (steps : List (Command × Machine)) (m' : Machine) : Bool :=
    m'.stats.motions = (final m₀ steps).stats.motions + 1 &&
      ((final m₀ steps).value "X" = 1 && m'.value "X" = 4)
  have hcheck : rehearse {} cs c check = true := by decide +kernel
  obtain ⟨m₀, steps, m', hopens, hrun, hcs, hstep, hcheck⟩ := exists_of_rehearse hcheck
  simp only [check, Bool.and_eq_true, decide_eq_true_eq] at hcheck
  exact ⟨m₀, m', steps, hopens, hrun, hcs, hstep, hcheck⟩

end Machine
end Toolpath
