import Toolpath.Check
import Toolpath.Proofs.CheckedRuns
import Toolpath.Proofs.ReliableOutlets

/-!
# Checking a program and running it

A check and a run read the same commands, and find the same ones unknown. A run that
skips them counts as many commands and as many unknown ones as the check reports, and a
strict run fails at the first of them, which is the first warning of the check.
-/

namespace Toolpath

def Source.answers (src : Source) : (fuel : Nat) → List Command
  | 0 => []
  | fuel + 1 =>
    match src.next fun _ => false with
    | ((.command c, _), src) => c :: src.answers fuel
    | _ => []

namespace Check

variable {c : Command} {cs : List Command}

theorem drain_examine (vs : Verbs) (src : Source) (r : Report) (notes : List Note) (fuel : Nat) :
    (src.drain false (examine vs) r notes fuel).2.2 =
      { commands := r.commands + (src.answers fuel).length
        issues := r.issues ++ (src.answers fuel).filterMap (command vs) } := by
  induction fuel generalizing src r notes with
  | zero => simp [Source.drain, Source.answers]
  | succ fuel ih =>
    unfold Source.drain Source.answers
    obtain ⟨⟨reply, new⟩, src'⟩ := src.next fun _ => false
    cases reply with
    | command c =>
      simp only [examine, ih]
      cases hc : command vs c <;> simp [Report.add, hc] <;> omega
    | ended => simp
    | cancelled => simp
    | failed f => simp

/-- A command is known to a check just when a verb answers to it in a run. -/
theorem isKnown_eq (vs : Verbs) (c : Command) : isKnown vs c = (vs.resolve c).isSome := by
  unfold isKnown Verbs.resolve Verbs.splitMajor
  cases vs.find? c.major with
  | some v => rfl
  | none =>
    cases Text.cut? Text.space c.major with
    | none => rfl
    | some parts => simp

def isStrange (c : Command) : Bool := !isKnown .standard c

theorem isStrange_of_find? {v : Verb} (h : Verbs.standard.find? c.major = some v) :
    isStrange c = false := by
  simp [isStrange, isKnown, h]

theorem command_of_isStrange (h : isStrange c = true) :
    command .standard c = some (unknown .standard c) := by
  have hgoto : c.major ≠ "goto" := by
    intro hmajor
    have hfound : Verbs.standard.find? c.major = some .goto := by rw [hmajor]; decide
    simp [isStrange_of_find? hfound] at h
  have hrapid : c.major ≠ "rapid" := by
    intro hmajor
    have hfound : Verbs.standard.find? c.major = some .rapid := by rw [hmajor]; decide
    simp [isStrange_of_find? hfound] at h
  have hknown : isKnown .standard c = false := by simpa [isStrange] using h
  rw [command, if_neg hgoto, if_neg hrapid, hknown]
  rfl

theorem warning_of_not_isStrange {i : Issue} (h : isStrange c = false)
    (hi : command .standard c = some i) : i.warning = false := by
  have hknown : isKnown .standard c = true := by simpa [isStrange] using h
  unfold command at hi
  rw [hknown] at hi
  split at hi
  · split at hi
    · cases hi
      rfl
    · cases hi
  split at hi
  · split at hi
    · cases hi
      rfl
    · cases hi
  · cases hi

theorem warnings_filterMap (cs : List Command) :
    (cs.filterMap (command .standard)).filter (·.warning) =
      (cs.filter isStrange).map (unknown .standard) := by
  induction cs with
  | nil => rfl
  | cons c cs ih =>
    rw [List.filterMap_cons]
    cases hstrange : isStrange c with
    | true =>
      rw [command_of_isStrange hstrange, List.filter_cons_of_pos hstrange, List.map_cons, ← ih]
      rfl
    | false =>
      rw [List.filter_cons_of_neg (by simp [hstrange]), ← ih]
      cases hc : command .standard c with
      | none => rfl
      | some i => exact List.filter_cons_of_neg (by simp [warning_of_not_isStrange hstrange hc])

theorem source_report (src : Source) :
    (source .standard src false).2.2.commands = (src.answers (src.bound + 1)).length ∧
      (source .standard src false).2.2.issues.filter (·.warning) =
        ((src.answers (src.bound + 1)).filter isStrange).map (unknown .standard) := by
  have hreport := drain_examine .standard src {} [] (src.bound + 1)
  rw [← warnings_filterMap]
  unfold source
  generalize src.drain false (examine .standard) {} [] (src.bound + 1) = drained at hreport ⊢
  obtain ⟨f, notes, r⟩ := drained
  obtain rfl : r = _ := hreport
  cases f with
  | none => simp
  | some f => cases hroot : f.root <;> simp [Report.add, hroot]

end Check

theorem Report.warnings_eq (r : Report) : r.warnings = (r.issues.filter (·.warning)).length := by
  have h := List.length_eq_length_filter_add (l := r.issues) (·.warning)
  unfold warnings errors
  omega

/-! ## Sources that end in no unknown command -/

def Stop.unknown? : Stop → Option UnknownCommand
  | .failure f =>
    match f.root with
    | .unknownCommand e => some e
    | _ => none
  | .violation _ => none

def Source.ending? : Source → Option Failure
  | .listed _ ending => ending
  | _ => none

def Source.Quiet (src : Source) :
    Prop := ∀ f, src.ending? = some f → (Stop.failure f).unknown? = none

theorem Source.Quiet.next {src : Source} (h : src.Quiet) (stop : Nat → Bool) :
    (src.next stop).2.Quiet ∧
      ∀ f, (src.next stop).1.1 = .failed f → (Stop.failure f).unknown? = none := by
  cases src with
  | program l =>
    refine ⟨h, ?_⟩
    change ∀ f, (ofLexer (l.nextUnless stop).1).1 = .failed f → _
    cases (l.nextUnless stop).1 <;> rintro f ⟨⟩ <;> rfl
  | stream r =>
    refine ⟨h, ?_⟩
    change ∀ f, ofStream (r.next (stop 0)).1 = .failed f → _
    cases (r.next (stop 0)).1 <;> rintro f ⟨⟩; rfl
  | listed cs ending =>
    dsimp only [Source.next]
    cases stop 0 with
    | true => exact ⟨h, fun f hf => by cases hf⟩
    | false =>
      cases cs with
      | cons c cs => exact ⟨h, fun f hf => by cases hf⟩
      | nil =>
        cases ending with
        | none => exact ⟨h, fun f hf => by cases hf⟩
        | some f => exact ⟨h, fun g hg => h g (congrArg some (SourceReply.failed.inj hg))⟩

namespace Machine

open Check (isStrange)

variable {p : Profile} {m m' : Machine} {c : Command} {src : Source}

def tallied (m : Machine) (commands unknown : Nat) : Machine :=
  { m with stats := { m.stats with
      commands := m.stats.commands + commands
      unknown := m.stats.unknown + unknown } }

theorem SameTally.add {m'' : Machine} {a a' b b' : Nat} (h : SameTally (m.tallied a b) m')
    (h' : SameTally (m'.tallied a' b') m'') : SameTally (m.tallied (a' + a) (b' + b)) m'' where
  reliable := h'.reliable
  verbs := h'.verbs.trans h.verbs
  strict := h'.strict.trans h.strict
  commands := by
    have hcommands : m'.stats.commands = m.stats.commands + a := h.commands
    have hcommands' : m''.stats.commands = m'.stats.commands + a' := h'.commands
    change m''.stats.commands = m.stats.commands + (a' + a)
    omega
  unknown := by
    have hunknown : m'.stats.unknown = m.stats.unknown + b := h.unknown
    have hunknown' : m''.stats.unknown = m'.stats.unknown + b' := h'.unknown
    change m''.stats.unknown = m.stats.unknown + (b' + b)
    omega

def objection (c : Command) : UnknownCommand := ⟨c.major, c.line, Verbs.standard.suggest c.major⟩

theorem find?_ne_refuse {major : Text} {v : Verb} (h : Verbs.standard.find? major = some v)
    (reason : Text) : v ≠ .refuse reason := by
  have hentries : ∀ e ∈ Verbs.standard.entries,
      (match e.2 with | .refuse _ => false | _ => true) = true := by
    decide
  obtain ⟨l₁, l₂, hl, -⟩ := List.lookup_eq_some_iff.mp h
  have hmem := hentries (major.lower, v) (by rw [hl]; simp)
  rintro rfl
  cases hmem

theorem resolve_ne_refuse {v : Verb} {c' : Command} (h : Verbs.standard.resolve c = some (v, c'))
    (reason : Text) : v ≠ .refuse reason := by
  unfold Verbs.resolve at h
  split at h
  · rename_i hfound
    cases h
    exact find?_ne_refuse hfound reason
  · obtain ⟨c₁, -, h⟩ := Option.bind_eq_some_iff.mp h
    obtain ⟨v', hfound, h⟩ := Option.map_eq_some_iff.mp h
    cases h
    exact find?_ne_refuse hfound reason

theorem dispatch_known (hm : m.outlet.Reliable) (hverbs : m.verbs = .standard)
    (hknown : isStrange c = false) :
    (∃ w m', (dispatch c).run m = .error (.violation w) m') ∨
      ∃ m', (dispatch c).run m = .ok () m' ∧ SameTally (m.tallied 1 0) m' := by
  obtain ⟨⟨v, c'⟩, hv⟩ : ∃ vc, Verbs.standard.resolve c = some vc := by
    rw [← Option.isSome_iff_exists]
    simpa [isStrange, Check.isKnown_eq] using hknown
  rw [dispatch_run (hverbs ▸ hv)]
  obtain ⟨w, m', hr⟩ | ⟨_, m', hr, hsame⟩ := delivers_perform (resolve_ne_refuse hv) c' m.counted hm
  · rw [hr]
    exact .inl ⟨w, m', rfl⟩
  · rw [hr]
    refine .inr ⟨_, rfl, ?_⟩
    split
    · exact { hsame with }
    · exact { hsame with }

theorem skipUnknown_run (m : Machine) (c : Command) :
    (skipUnknown c).run m =
      if m.strict then .error
        (.failure (.unknownCommand ⟨c.major, c.line, m.verbs.suggest c.major⟩)) (m.tallied 0 1)
      else (note .warning "unknown command skipped" [atLine c.line, ("major", .text c.major),
        ("suggestion", .text (m.verbs.suggest c.major))]).run (m.tallied 0 1) :=
  apply_ite (fun a : Action Unit => a.run (m.tallied 0 1)) (m.strict = true) _ _

theorem dispatch_run_strange (hverbs : m.verbs = .standard) (hstrange : isStrange c = true) :
    (dispatch c).run m = (skipUnknown c).run m.counted := by
  have hv : m.counted.verbs.resolve c = none := by
    change m.verbs.resolve c = none
    simpa [hverbs, isStrange, Check.isKnown_eq] using hstrange
  simp only [dispatch, count]
  change (do let m ← get; _ : Action Unit).run m.counted = _
  simp only [EStateM.run_bind, EStateM.run_get, hv]

theorem dispatch_strange (hm : m.outlet.Reliable) (hverbs : m.verbs = .standard)
    (hstrict : m.strict = false) (hstrange : isStrange c = true) :
    ∃ m', (dispatch c).run m = .ok () m' ∧ SameTally (m.tallied 1 1) m' := by
  rw [dispatch_run_strange hverbs hstrange, skipUnknown_run, if_neg (by simp [counted, hstrict])]
  exact ⟨_, rfl, hm, rfl, rfl, rfl, rfl⟩

theorem dispatch_strange_strict (hverbs : m.verbs = .standard) (hstrict : m.strict = true)
    (hstrange : isStrange c = true) :
    ∃ m', (dispatch c).run m = .error (.failure (.unknownCommand (objection c))) m' := by
  rw [dispatch_run_strange hverbs hstrange, skipUnknown_run,
    if_pos (show m.counted.strict = true from hstrict),
    show m.counted.verbs = .standard from hverbs]
  exact ⟨_, rfl⟩

def Stops {α : Type} (a : Action α) : Prop :=
  ∀ m, m.outlet.Reliable → ∃ e m', a.run m = .error e m' ∧ e.unknown? = none

theorem stops_bind {α β : Type} {a : Action α} {f : α → Action β} (ha : Delivers a)
    (hf : ∀ x, Stops (f x)) : Stops (a >>= f) := by
  intro m hm
  rw [EStateM.run_bind]
  obtain ⟨w, m', hr⟩ | ⟨x, m', hr, hsame⟩ := ha m hm
  · rw [hr]
    exact ⟨_, m', rfl, rfl⟩
  · rw [hr]
    exact hf x m' hsame.reliable

theorem stops_cancel (cause : Text) : Stops (cancel cause) := by
  have hget {f : Machine → Action Unit} (hf : ∀ m, Stops (f m)) : Stops (get >>= f) :=
    fun m hm => hf m m hm
  have hend : Stops (do flush; fail (.runCancelled cause) : Action Unit) :=
    stops_bind delivers_flush fun _ m _ => ⟨.failure (.runCancelled cause), m, rfl, rfl⟩
  refine hget fun m => stops_bind (delivers_note _ _ _) fun _ => hget fun m => ?_
  dsimp only
  split
  · exact stops_bind (delivers_writeLine _) fun _ => hend
  · exact hend

/-- The end of a run without one more command: with what has been delivered, or with a stop
that is no unknown command. -/
def Closed (m : Machine) (t : Transcript) : Prop :=
  (t.stop = none ∧ SameTally m t.machine) ∨ ∃ e, t.stop = some e ∧ e.unknown? = none

theorem closed_complete (hm : m.outlet.Reliable) (turns : List Turn) :
    Closed m (after turns complete m) := by
  unfold after
  obtain ⟨w, m', hr⟩ | ⟨_, m', hr, hsame⟩ := delivers_complete m hm
  · rw [hr]
    exact .inr ⟨_, rfl, rfl⟩
  · rw [hr]
    exact .inl ⟨rfl, hsame⟩

theorem closed_cancel (hm : m.outlet.Reliable) (turns : List Turn) (cause : Text) :
    Closed m (after turns (cancel cause) m) := by
  obtain ⟨e, m', hr, he⟩ := stops_cancel cause m hm
  rw [after, hr]
  exact .inr ⟨e, rfl, he⟩

theorem runFrom_never (fuel i : Nat) (turns : List Turn) (src : Source) (m : Machine) :
    runFrom .never i turns src m (fuel + 1) =
      match src.next fun _ => false with
      | ((.ended, notes), _) => after (m.turn none :: turns) complete (m.addNotes notes)
      | ((.cancelled, notes), _) =>
        after (m.turn none :: turns) (cancel Failure.stopped) (m.addNotes notes)
      | ((.failed f, notes), _) => ⟨m.turn none :: turns, some (.failure f), m.addNotes notes⟩
      | ((.command c, notes), src') =>
        match (dispatch c).run (m.addNotes notes) with
        | .ok _ m' => runFrom .never (i + 1) (m.turn (some c) :: turns) src' m' fuel
        | .error e m' => ⟨m.turn (some c) :: turns, some e, m'⟩ := by
  have hbefore : Cancellation.never.before i = false := rfl
  have hreading : Cancellation.never.reading i = fun _ => false := rfl
  rw [runFrom, hbefore, hreading]
  generalize src.next (fun _ => false) = answer
  obtain ⟨⟨reply, notes⟩, src'⟩ := answer
  cases reply <;> rfl

theorem runFrom_cases (fuel i : Nat) (turns : List Turn) (hm : m.outlet.Reliable)
    (hsrc : src.Quiet) :
    (src.answers (fuel + 1) = [] ∧
        ∃ notes, Closed (m.addNotes notes) (runFrom .never i turns src m (fuel + 1))) ∨
      ∃ c notes src', src'.Quiet ∧ src.answers (fuel + 1) = c :: src'.answers fuel ∧
        runFrom .never i turns src m (fuel + 1) =
          match (dispatch c).run (m.addNotes notes) with
          | .ok _ m' => runFrom .never (i + 1) (m.turn (some c) :: turns) src' m' fuel
          | .error e m' => ⟨m.turn (some c) :: turns, some e, m'⟩ := by
  obtain ⟨hquiet, hfailed⟩ := hsrc.next fun _ => false
  have hstart (notes : List Note) : (m.addNotes notes).outlet.Reliable := hm
  rw [runFrom_never, Source.answers]
  generalize src.next (fun _ => false) = answer at *
  obtain ⟨⟨reply, notes⟩, src'⟩ := answer
  cases reply with
  | command c => exact .inr ⟨c, notes, src', hquiet, rfl, rfl⟩
  | ended => exact .inl ⟨rfl, notes, closed_complete (hstart notes) _⟩
  | cancelled => exact .inl ⟨rfl, notes, closed_cancel (hstart notes) _ _⟩
  | failed f => exact .inl ⟨rfl, notes, .inr ⟨_, rfl, hfailed f rfl⟩⟩

theorem runFrom_counts (fuel : Nat) {i : Nat} {turns : List Turn} (hm : m.outlet.Reliable)
    (hsrc : src.Quiet) (hverbs : m.verbs = .standard) (hstrict : m.strict = false)
    (hstop : (runFrom .never i turns src m fuel).stop = none) :
    SameTally (m.tallied (src.answers fuel).length ((src.answers fuel).filter isStrange).length)
      (runFrom .never i turns src m fuel).machine := by
  induction fuel generalizing i turns src m with
  | zero => exact ⟨hm, rfl, rfl, rfl, rfl⟩
  | succ fuel ih =>
    obtain ⟨hnone, notes, hclosed⟩ | ⟨c, notes, src', hsrc', hanswers, hrun⟩ :=
      runFrom_cases fuel i turns hm hsrc
    · rw [hnone]
      obtain ⟨-, hsame⟩ | ⟨e, he, -⟩ := hclosed
      · exact { hsame with }
      · rw [hstop] at he
        cases he
    · rw [hanswers]
      rw [hrun] at hstop ⊢
      cases hstrange : isStrange c with
      | true =>
        obtain ⟨m', hr, hsame⟩ :=
          dispatch_strange (m := m.addNotes notes) hm hverbs hstrict hstrange
        rw [hr] at hstop ⊢
        have hrest :=
          ih hsame.reliable hsrc' (hsame.verbs.trans hverbs) (hsame.strict.trans hstrict) hstop
        rw [List.filter_cons_of_pos hstrange]
        exact { hsame.add hrest with }
      | false =>
        obtain ⟨w, m', hr⟩ | ⟨m', hr, hsame⟩ :=
          dispatch_known (m := m.addNotes notes) hm hverbs hstrange
        · rw [hr] at hstop
          cases hstop
        · rw [hr] at hstop ⊢
          have hrest :=
            ih hsame.reliable hsrc' (hsame.verbs.trans hverbs) (hsame.strict.trans hstrict) hstop
          rw [List.filter_cons_of_neg (by simp [hstrange])]
          exact { hsame.add hrest with }

theorem runFrom_objects (fuel : Nat) {i : Nat} {turns : List Turn} (hm : m.outlet.Reliable)
    (hsrc : src.Quiet) (hverbs : m.verbs = .standard) (hstrict : m.strict = true)
    (hstop : ∀ w, (runFrom .never i turns src m fuel).stop ≠ some (.violation w)) :
    (runFrom .never i turns src m fuel).stop.bind Stop.unknown? =
      ((src.answers fuel).find? isStrange).map objection := by
  induction fuel generalizing i turns src m with
  | zero => rfl
  | succ fuel ih =>
    obtain ⟨hnone, notes, hclosed⟩ | ⟨c, notes, src', hsrc', hanswers, hrun⟩ :=
      runFrom_cases fuel i turns hm hsrc
    · rw [hnone]
      obtain ⟨he, -⟩ | ⟨e, he, hunknown⟩ := hclosed
      · rw [he]
        rfl
      · rw [he]
        exact hunknown
    · rw [hanswers, List.find?_cons]
      rw [hrun] at hstop ⊢
      cases hstrange : isStrange c with
      | true =>
        obtain ⟨m', hr⟩ := dispatch_strange_strict (m := m.addNotes notes) hverbs hstrict hstrange
        rw [hr]
        rfl
      | false =>
        obtain ⟨w, m', hr⟩ | ⟨m', hr, hsame⟩ :=
          dispatch_known (m := m.addNotes notes) hm hverbs hstrange
        · rw [hr] at hstop
          exact absurd rfl (hstop w)
        · rw [hr] at hstop ⊢
          exact ih hsame.reliable hsrc' (hsame.verbs.trans hverbs)
            (hsame.strict.trans hstrict) hstop

theorem run_cases (hm : m.outlet.Reliable) (src : Source) :
    (∃ w, (m.run src .never).stop = some (.violation w)) ∨
      ∃ m', SameTally m m' ∧ m.run src .never = runFrom .never 0 [] src m' (src.bound + 1) := by
  unfold run
  obtain ⟨w, m', hr⟩ | ⟨_, m', hr, hsame⟩ := delivers_writeTemplate m.profile.templates.header m hm
  · rw [hr]
    exact .inl ⟨w, rfl⟩
  · rw [hr]
    exact .inr ⟨m', hsame, rfl⟩

theorem start_tally {occasion : Occasion} {outlet : Outlet} (h : start p occasion outlet = .ok m) :
    m.outlet = outlet ∧ m.stats = {} := by
  obtain ⟨rs, rs', -, -, rfl⟩ := start_ok h
  exact ⟨rfl, rfl⟩

theorem Opens.stats (h : Opens p m) : m.stats = {} := by
  obtain ⟨occasion, outlet, m₀, strict, subject, log, skip, hstart, rfl⟩ := h
  exact (start_tally hstart).2

/-- With an outlet that takes every line and a source that ends in no unknown command, a
run that is not strict and completes has counted what a check of the source reports; and
a strict run that breaks no contract stops at an unknown command just when the check has a
warning, with the line, the major word and the suggestion of the first one. -/
theorem check_agrees_with_run (hm : Opens p m) (hreliable : m.outlet.Reliable) (src : Source)
    (hsrc : src.Quiet) :
    (m.strict = false → (m.run src .never).stop = none →
      (m.run src .never).machine.stats.commands = (Check.source .standard src false).2.2.commands ∧
      (m.run src .never).machine.stats.unknown = (Check.source .standard src false).2.2.warnings) ∧
    (m.strict = true → (∀ w, (m.run src .never).stop ≠ some (.violation w)) →
      ((∃ e, (m.run src .never).stop.bind Stop.unknown? = some e) ↔
        0 < (Check.source .standard src false).2.2.warnings) ∧
      ∀ e, (m.run src .never).stop.bind Stop.unknown? = some e →
        (Check.source .standard src false).2.2.issues.find? (·.warning) = some
          { line := e.line, major := e.major, warning := true
            message := Text.ofString "unknown command" ++
              UnknownCommand.didYouMean e.suggestion }) := by
  obtain ⟨hcommands, hissues⟩ := Check.source_report src
  rw [Report.warnings_eq, hcommands, ← List.head?_filter, hissues, List.length_map, List.head?_map,
    List.head?_filter]
  obtain ⟨w, hviolated⟩ | ⟨m', hsame, hrun⟩ := run_cases hreliable src
  · rw [hviolated]
    exact ⟨fun _ h => (nomatch h), fun _ h => absurd rfl (h w)⟩
  rw [hrun]
  have hverbs : m'.verbs = .standard := hsame.verbs.trans hm.fresh.verbs
  constructor
  · intro hstrict hstop
    have hcounts := runFrom_counts _ hsame.reliable hsrc hverbs (hsame.strict.trans hstrict) hstop
    constructor
    · rw [hcounts.commands, tallied, hsame.commands, hm.stats]
      exact Nat.zero_add _
    · rw [hcounts.unknown, tallied, hsame.unknown, hm.stats]
      exact Nat.zero_add _
  · intro hstrict hstop
    rw [runFrom_objects _ hsame.reliable hsrc hverbs (hsame.strict.trans hstrict) hstop]
    cases hfirst : (src.answers (src.bound + 1)).find? isStrange with
    | none =>
      have hfilter : (src.answers (src.bound + 1)).filter isStrange = [] := by
        rw [← List.head?_eq_none_iff, List.head?_filter, hfirst]
      simp [hfilter]
    | some c =>
      have hfilter : (src.answers (src.bound + 1)).filter isStrange ≠ [] := by
        rw [ne_eq, ← List.head?_eq_none_iff, List.head?_filter, hfirst]
        simp
      refine ⟨⟨fun _ => List.length_pos_iff.mpr hfilter, fun _ => ⟨_, rfl⟩⟩, ?_⟩
      rintro e ⟨⟩
      rfl

theorem exists_opens_of_inspect (strict : Bool) (check : Machine → Bool)
    (h : inspect p (fun m => check { m with strict }) = true) :
    ∃ m, Opens p m ∧ m.outlet.Reliable ∧ m.strict = strict ∧ check m = true := by
  unfold inspect at h
  split at h
  · rename_i m hstart
    refine ⟨{ m with strict }, ⟨_, _, m, strict, m.subject, m.log, false, hstart, rfl⟩, ?_, rfl, h⟩
    change m.outlet.Reliable
    rw [(start_tally hstart).1]
    exact ⟨fun _ => rfl, fun _ h => nomatch h⟩
  · cases h

set_option maxRecDepth 100000 in
/-- A major word with its text behind it, one in another case, a misspelt one and one that
resembles no other. -/
theorem check_agrees_with_run_misspelt :
    let src : Source := .listed [{ major := "partno bracket", line := 1 },
      { major := "GoTo", numeric := [1, 2, 3], line := 2 }, { major := "gto", line := 3 },
      { major := "qqqq qq", line := 4 }] none
    (∃ m, Opens {} m ∧ m.outlet.Reliable ∧ m.strict = false ∧ (m.run src .never).stop = none ∧
      (m.run src .never).machine.stats.commands = (Check.source .standard src false).2.2.commands ∧
      (m.run src .never).machine.stats.unknown = (Check.source .standard src false).2.2.warnings) ∧
    ∃ m, Opens {} m ∧ m.outlet.Reliable ∧ m.strict = true ∧
      (∀ w, (m.run src .never).stop ≠ some (.violation w)) ∧
      0 < (Check.source .standard src false).2.2.warnings ∧
      ∃ e, (m.run src .never).stop.bind Stop.unknown? = some e ∧ e.line = 3 ∧
        e.major = Text.ofString "gto" ∧
        (Check.source .standard src false).2.2.issues.find? (·.warning) = some
          { line := e.line, major := e.major, warning := true
            message := Text.ofString "unknown command" ++
              UnknownCommand.didYouMean e.suggestion } := by
  intro src
  have hquiet : src.Quiet := fun _ h => nomatch h
  constructor
  · obtain ⟨m, hopens, hreliable, hstrict, hcheck⟩ := exists_opens_of_inspect (p := {}) false
      (fun m => (m.run src .never).stop = none) (by decide +kernel)
    have hstop : (m.run src .never).stop = none := of_decide_eq_true hcheck
    obtain ⟨hlenient, -⟩ := check_agrees_with_run hopens hreliable src hquiet
    exact ⟨m, hopens, hreliable, hstrict, hstop, hlenient hstrict hstop⟩
  · obtain ⟨m, hopens, hreliable, hstrict, hcheck⟩ := exists_opens_of_inspect (p := {}) true
      (fun m => ((m.run src .never).stop.bind Stop.unknown?).any fun e =>
        e.line = 3 && e.major = Text.ofString "gto") (by decide +kernel)
    obtain ⟨e, hunknown, he⟩ := (Option.any_eq_true _ _).mp hcheck
    rw [Bool.and_eq_true, decide_eq_true_eq, decide_eq_true_eq] at he
    have hkept (w : Violation) : (m.run src .never).stop ≠ some (.violation w) := by
      intro hstop
      rw [hstop] at hunknown
      cases hunknown
    obtain ⟨-, hstrictly⟩ := check_agrees_with_run hopens hreliable src hquiet
    obtain ⟨hiff, hfirst⟩ := hstrictly hstrict hkept
    exact ⟨m, hopens, hreliable, hstrict, hkept, hiff.mp ⟨e, hunknown⟩, e, hunknown, he.1, he.2,
      hfirst e hunknown⟩

end Machine
end Toolpath
