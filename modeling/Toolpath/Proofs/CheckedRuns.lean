import Toolpath.Proofs.AcceptedTexts
import Toolpath.Proofs.ModerateNumbers
import Toolpath.Proofs.StartedMachines

/-!
# Runs that break a contract

A run breaks a contract exactly when a command of it hands over a number that is not finite, and it
breaks no other one. The commands of a text have finite numbers, so such a number is then a
computed one. When every number is moderate there is none.
-/

namespace Toolpath

theorem Lexer.readUntil_proper (stop : Nat → Bool) (lines : List Text) (i : Nat) (l : Lexer)
    {c : Command}
    (h : (Source.ofLexer (l.readUntil stop i lines).1).1 = .command c) : c.Proper := by
  induction lines generalizing i l with
  | nil =>
    rw [readUntil] at h
    split at h
    · cases h
    rw [finish] at h
    split at h
    · cases h
    dsimp only at h
    split at h
    · cases h
    · cases h
      exact Command.withParameters_proper (by decide) _ _
  | cons raw rest ih =>
    rw [readUntil] at h
    split at h
    · cases h
    obtain ⟨t, ht⟩ := readLine_cases l raw rest
    rw [ht] at h
    cases hkind : Layout.kind (l.advance raw rest).1 with
    | blank =>
      rw [hkind] at h
      exact ih _ _ h
    | joined body =>
      rw [hkind] at h
      exact ih _ _ h
    | complete body =>
      rw [hkind] at h
      cases h
      exact Command.withParameters_proper (Command.sides_ne_nil _) _ _

theorem Source.next_program (stop : Nat → Bool) (l : Lexer) :
    ∃ l', (Source.next stop (.program l)).2 = .program l' ∧
      ∀ c, (Source.next stop (.program l)).1.1 = .command c → c.Proper := by
  refine ⟨_, rfl, fun c hc => ?_⟩
  change (Source.ofLexer (l.nextUnless stop).1).1 = .command c at hc
  unfold Lexer.nextUnless at hc
  split at hc
  · split at hc <;> cases hc
  · exact Lexer.readUntil_proper stop l.rest 0 l hc

namespace Machine

variable {N : Float → Prop} {p : Profile} {m m' : Machine} {c : Command} {v : Verb}

def handedBy (m : Machine) (c : Command) : List Float :=
  (m.verbs.resolve c).elim [] fun vc => m.handed vc.1 vc.2

def computedBy (m : Machine) (c : Command) : List Float :=
  (m.verbs.resolve c).elim [] fun vc => m.computed vc.1 vc.2

theorem resolve_numeric {vs : Verbs} {c' : Command} (h : vs.resolve c = some (v, c')) :
    c'.numeric = c.numeric := by
  unfold Verbs.resolve at h
  split at h
  · cases h
    rfl
  · obtain ⟨c₁, hsplit, h⟩ := Option.bind_eq_some_iff.mp h
    obtain ⟨w, -, h⟩ := Option.map_eq_some_iff.mp h
    obtain ⟨⟨word, rest⟩, -, rfl⟩ := Option.map_eq_some_iff.mp hsplit
    cases h
    rfl

theorem handed_stats (m : Machine) (stats : Stats) (v : Verb) (c : Command) :
    handed { m with stats } v c = m.handed v c := by
  cases v <;> rfl

theorem checks_performAt {xs : List Float} (h : Checks (Intact N) xs (perform v c) m) :
    Checks (Intact N) xs (performAt v c) m := by
  unfold Checks at h ⊢
  rw [performAt, run_tryCatch]
  cases hr : (perform v c).run m with
  | ok x m' =>
    rw [hr] at h
    exact h
  | error e m' =>
    rw [hr] at h
    cases e <;> exact h

theorem safe_skipUnknown (c : Command) : Safe (Intact N) (skipUnknown c) := by
  refine safe_bind (safe_count _) fun _ => safe_get fun m hm => ?_
  exact safe_ite (safe_fail _) (safe_note _ _ _) m hm

theorem dispatch_checks (hm : m.Intact N) (hzero : N 0) (hc : ∀ x ∈ c.numeric, N x) :
    Checks (Intact N) (m.handedBy c) (dispatch c) m := by
  have hcounted := (safe_count (fun s => { s with commands := s.commands + 1 }) m hm).kept rfl
  refine checks_after (x := ()) rfl (checks_get ?_)
  unfold handedBy
  dsimp only
  cases hv : m.verbs.resolve c with
  | none => exact safe_skipUnknown c _ hcounted
  | some vc =>
    obtain ⟨v, c'⟩ := vc
    have hc' : ∀ x ∈ c'.numeric, N x := by
      rw [resolve_numeric hv]
      exact hc
    have hperform := perform_checks hcounted hzero hc' v
    rw [handed_stats] at hperform
    exact (checks_performAt hperform).bind fun _ => safe_onlyIf (safe_modify fun _ h => { h with })

theorem handedBy_finite_iff (hm : m.Intact fun x => Number.isFinite x = true)
    (hc : ∀ x ∈ c.numeric, Number.isFinite x = true) :
    AllFinite (m.handedBy c) ↔ AllFinite (m.computedBy c) := by
  unfold handedBy computedBy
  cases hv : m.verbs.resolve c with
  | none => rfl
  | some vc =>
    rw [← resolve_numeric hv] at hc
    exact handed_finite_iff hm hc vc.1

theorem handedBy_finite (hm : m.Intact fun x => Number.isModerate x = true)
    (hc : ∀ x ∈ c.numeric, Number.isModerate x = true) : AllFinite (m.handedBy c) := by
  unfold handedBy
  cases hv : m.verbs.resolve c with
  | none => exact allFinite_nil
  | some vc =>
    rw [← resolve_numeric hv] at hc
    exact handed_finite hm hc vc.1

def visitsFrom (halt : Cancellation) (i : Nat) (src : Source) (m : Machine) :
    (fuel : Nat) → List (Machine × Command)
  | 0 => []
  | fuel + 1 =>
    if halt.before i then []
    else
      let ((reply, notes), src) := src.next (halt.reading i)
      let start := m.addNotes notes
      match reply with
      | .command c =>
        (start, c) :: match (dispatch c).run start with
          | .ok _ m => visitsFrom halt (i + 1) src m fuel
          | .error _ _ => []
      | _ => []

def visits (m : Machine) (src : Source) (halt : Cancellation) : List (Machine × Command) :=
  match (writeTemplate m.profile.templates.header).run m with
  | .error _ _ => []
  | .ok _ m => visitsFrom halt 0 src m (src.bound + 1)

/-- What a run tells of the commands that it visited: each found an intact machine;
the run broke a contract over a number of theirs, or all their numbers are finite. -/
structure Accounts (N : Float → Prop) (visits : List (Machine × Command)) (t : Transcript) :
    Prop where
  intact : ∀ visit ∈ visits, visit.1.Intact N
  found : ∀ w, t.stop = some (.violation w) → ∃ visit ∈ visits, FoundIn (visit.1.handedBy visit.2) w
  clear : (∀ w, t.stop ≠ some (.violation w)) → ∀ visit ∈ visits,
    AllFinite (visit.1.handedBy visit.2)

variable {t : Transcript}

theorem Accounts.violates_iff {visits : List (Machine × Command)} (h : Accounts N visits t) :
    (∃ w, t.stop = some (.violation w)) ↔
      ∃ visit ∈ visits, ¬AllFinite (visit.1.handedBy visit.2) := by
  constructor
  · rintro ⟨w, hw⟩
    obtain ⟨visit, hvisit, hfound⟩ := h.found w hw
    exact ⟨visit, hvisit, hfound.not_allFinite⟩
  · rintro ⟨visit, hvisit, hnot⟩
    by_contra hnone
    exact hnot (h.clear (fun w hw => hnone ⟨w, hw⟩) visit hvisit)

theorem Accounts.cons {visits : List (Machine × Command)} (h : Accounts N visits t)
    (hm : m.Intact N) (hc : AllFinite (m.handedBy c)) : Accounts N ((m, c) :: visits) t := by
  refine ⟨List.forall_mem_cons.mpr ⟨hm, h.intact⟩, fun w hw => ?_, fun hnone => ?_⟩
  · obtain ⟨visit, hvisit, hfound⟩ := h.found w hw
    exact ⟨visit, List.mem_cons_of_mem _ hvisit, hfound⟩
  · exact List.forall_mem_cons.mpr ⟨hc, h.clear hnone⟩

theorem accounts_still (h : ∀ w, t.stop ≠ some (.violation w)) : Accounts N [] t :=
  ⟨by simp, fun w hw => absurd hw (h w), by simp⟩

theorem accounts_after {a : Action Unit} (ha : Safe (Intact N) a) (hm : m.Intact N)
    (turns : List Turn) :
    Accounts N [] (after turns a m) := by
  apply accounts_still
  intro w hw
  unfold after at hw
  cases hr : a.run m with
  | ok x m' =>
    rw [hr] at hw
    cases hw
  | error e m' =>
    rw [hr] at hw
    cases hw
    exact ha.run_ne_violation hm w hr

theorem safe_writeTemplate (lines : List Text) : Safe (Intact N) (writeTemplate lines) := by
  refine safe_get fun m hm => safe_ite ?_ (safe_pure ()) m hm
  refine safe_bind (safe_forIn (fun line => ?_) lines) fun _ => safe_pure ()
  exact safe_bind (safe_writeLine _) fun _ => safe_pure _

theorem safe_flush : Safe (Intact N) flush := by
  refine safe_get fun m hm => ?_
  generalize m.outlet.flush = flushed
  obtain ⟨failure, outlet⟩ := flushed
  refine checks_after (x := ()) rfl ?_
  cases failure with
  | none => exact checks_pure { hm with } ()
  | some f => exact safe_fail f _ { hm with }

theorem safe_complete : Safe (Intact N) complete := by
  refine safe_get fun m hm => safe_bind (safe_writeTemplate _) (fun _ => ?_) m hm
  refine safe_get fun m hm => safe_bind (safe_note _ _ _) (fun _ => safe_flush) m hm

theorem safe_cancel (cause : Text) : Safe (Intact N) (cancel cause) := by
  refine safe_get fun m hm => safe_bind (safe_note _ _ _) (fun _ => ?_) m hm
  refine safe_get fun m hm => ?_
  have hend : Safe (Intact N) (do flush; fail (.runCancelled cause) : Action Unit) :=
    safe_bind safe_flush fun _ => safe_fail _
  exact safe_ite (safe_bind (safe_writeLine _) fun _ => hend) hend m hm

theorem runFrom_accounts (hzero : N 0) (halt : Cancellation) (i : Nat) (turns : List Turn)
    (src : Source) (hm : m.Intact N) (fuel : Nat)
    (hnumbers : ∀ visit ∈ visitsFrom halt i src m fuel, ∀ x ∈ visit.2.numeric, N x) :
    Accounts N (visitsFrom halt i src m fuel) (runFrom halt i turns src m fuel) := by
  induction fuel generalizing i turns src m with
  | zero => exact accounts_still fun w hw => by cases hw
  | succ fuel ih =>
    unfold visitsFrom at hnumbers ⊢
    unfold runFrom
    split
    case isTrue hstop => exact accounts_after (safe_cancel _) hm turns
    case isFalse hstop =>
      rw [if_neg hstop] at hnumbers
      generalize src.next (halt.reading i) = answer at hnumbers ⊢
      obtain ⟨⟨reply, notes⟩, src'⟩ := answer
      have hstart : (m.addNotes notes).Intact N := { hm with }
      cases reply with
      | ended => exact accounts_after safe_complete hstart _
      | cancelled => exact accounts_after (safe_cancel _) hstart _
      | failed f => exact accounts_still fun w hw => by cases hw
      | command c =>
        have hchecks := dispatch_checks hstart hzero (hnumbers _ List.mem_cons_self)
        unfold Checks at hchecks
        dsimp only at hnumbers ⊢
        cases hr : (dispatch c).run (m.addNotes notes) with
        | ok u m' =>
          rw [hr] at hchecks hnumbers
          have hrest := ih (i + 1) (m.turn (some c) :: turns) src' hchecks.2
            fun visit hvisit => hnumbers visit (List.mem_cons_of_mem _ hvisit)
          exact hrest.cons hstart hchecks.1
        | error e m' =>
          rw [hr] at hchecks
          cases e with
          | failure f =>
            have hend : Accounts N [] ⟨m.turn (some c) :: turns, some (.failure f), m'⟩ :=
              accounts_still fun w hw => by cases hw
            exact hend.cons hstart hchecks.1
          | violation w =>
            refine ⟨by simpa using hstart, fun w' hw' => ?_, fun hnone => absurd rfl (hnone w)⟩
            cases hw'
            exact ⟨_, List.mem_cons_self, hchecks.1⟩

theorem run_accounts (hm : m.Intact N) (hzero : N 0) (src : Source) (halt : Cancellation)
    (hnumbers : ∀ visit ∈ m.visits src halt, ∀ x ∈ visit.2.numeric, N x) :
    Accounts N (m.visits src halt) (m.run src halt) := by
  have hheader : Safe (Intact N) (writeTemplate m.profile.templates.header) := safe_writeTemplate _
  unfold visits at hnumbers ⊢
  unfold run
  cases hr : (writeTemplate m.profile.templates.header).run m with
  | ok u m' =>
    rw [hr] at hnumbers
    exact runFrom_accounts hzero halt 0 [] src ((hheader m hm).kept hr) _ hnumbers
  | error e m' =>
    apply accounts_still
    intro w hw
    cases hw
    exact hheader.run_ne_violation hm w hr

theorem visitsFrom_finite (halt : Cancellation) (i : Nat) (l : Lexer) (m : Machine) (fuel : Nat) :
    ∀ visit ∈ visitsFrom halt i (.program l) m fuel, ∀ x ∈ visit.2.numeric,
      Number.isFinite x = true := by
  induction fuel generalizing i l m with
  | zero => simp [visitsFrom]
  | succ fuel ih =>
    obtain ⟨l', hl', hproper⟩ := Source.next_program (halt.reading i) l
    unfold visitsFrom
    split
    · simp
    generalize Source.next (halt.reading i) (.program l) = answer at hl' hproper ⊢
    obtain ⟨⟨reply, notes⟩, src⟩ := answer
    cases hl'
    cases reply with
    | command c =>
      refine List.forall_mem_cons.mpr ⟨(hproper c rfl).numeric, ?_⟩
      split
      · exact ih _ _ _
      · simp
    | _ => simp

theorem visits_finite (m : Machine) (l : Lexer) (halt : Cancellation) :
    ∀ visit ∈ m.visits (.program l) halt, ∀ x ∈ visit.2.numeric, Number.isFinite x = true := by
  unfold visits
  split
  · simp
  · exact visitsFrom_finite _ _ _ _ _

theorem after_turns (turns : List Turn) (a : Action Unit) (m : Machine) :
    (after turns a m).turns = turns := by
  unfold after
  split <;> rfl

theorem runFrom_commands (halt : Cancellation) (i : Nat) (turns : List Turn) (src : Source)
    (m : Machine) (fuel : Nat) :
    (runFrom halt i turns src m fuel).turns.reverse.filterMap Turn.command =
      turns.reverse.filterMap Turn.command ++ (visitsFrom halt i src m fuel).map Prod.snd := by
  induction fuel generalizing i turns src m with
  | zero => simp [runFrom, visitsFrom]
  | succ fuel ih =>
    unfold runFrom visitsFrom
    split
    · simp [after_turns]
    generalize src.next (halt.reading i) = answer
    obtain ⟨⟨reply, notes⟩, src'⟩ := answer
    cases reply with
    | ended => simp [after_turns, turn]
    | cancelled => simp [after_turns, turn]
    | failed f => simp [turn]
    | command c =>
      dsimp only
      cases (dispatch c).run (m.addNotes notes) with
      | ok u m' => simp [ih, turn]
      | error e m' => simp [turn]

theorem run_commands (m : Machine) (src : Source) (halt : Cancellation) :
    (m.run src halt).turns.reverse.filterMap Turn.command = (m.visits src halt).map Prod.snd := by
  unfold run visits
  cases (writeTemplate m.profile.templates.header).run m with
  | error e m' => rfl
  | ok u m' => exact runFrom_commands halt 0 [] src m' _

theorem text_violates_iff (hcoded : p.Coded) (hm : Opens p m) (l : Lexer) (halt : Cancellation) :
    (∃ w, (m.run (.program l) halt).stop = some (.violation w)) ↔
      ∃ visit ∈ m.visits (.program l) halt, ¬AllFinite (visit.1.computedBy visit.2) := by
  have hzero : Number.isFinite 0 = true := by decide
  have hnumbers := visits_finite m l halt
  have haccounts := run_accounts (hm.intact hcoded hzero) hzero (.program l) halt hnumbers
  rw [haccounts.violates_iff]
  refine exists_congr fun visit => and_congr_right fun hvisit => not_congr ?_
  exact handedBy_finite_iff (haccounts.intact visit hvisit) (hnumbers visit hvisit)

theorem moderate_fulfils (hcoded : p.Coded) (hm : Opens p m) (src : Source) (halt : Cancellation)
    (hnumbers : ∀ visit ∈ m.visits src halt, ∀ x ∈ visit.2.numeric, Number.isModerate x = true)
    (w : Violation) : (m.run src halt).stop ≠ some (.violation w) := by
  have hzero : Number.isModerate 0 = true := by decide +kernel
  have haccounts := run_accounts (hm.intact hcoded hzero) hzero src halt hnumbers
  intro hw
  obtain ⟨visit, hvisit, hfound⟩ := haccounts.found w hw
  exact hfound.not_allFinite
    (handedBy_finite (haccounts.intact visit hvisit) (hnumbers visit hvisit))

/-- An accepted profile starts a machine. A run of it, over any source, breaks a contract if and
only if a command that the source answered with hands over a number that is not finite, and then
that number is named. The numbers of a text are finite, so there it takes a computed number to break
a contract, and where all numbers are moderate none is broken. -/
theorem run_breaks_contract_iff (hp : p.Accepted) :
    (∀ occasion outlet, ∃ m, start p occasion outlet = .ok m) ∧
    ∀ m, Opens p m → ∀ src halt,
      (m.run src halt).turns.reverse.filterMap Turn.command = (m.visits src halt).map Prod.snd ∧
      (∀ visit ∈ m.visits src halt, visit.1.Intact fun _ => True) ∧
      (∀ w, (m.run src halt).stop = some (.violation w) →
        ∃ visit ∈ m.visits src halt, FoundIn (visit.1.handedBy visit.2) w) ∧
      ((∃ w, (m.run src halt).stop = some (.violation w)) ↔
        ∃ visit ∈ m.visits src halt, ¬AllFinite (visit.1.handedBy visit.2)) ∧
      (∀ l, src = .program l → ((∃ w, (m.run src halt).stop = some (.violation w)) ↔
        ∃ visit ∈ m.visits src halt, ¬AllFinite (visit.1.computedBy visit.2))) ∧
      ((∀ visit ∈ m.visits src halt, ∀ x ∈ visit.2.numeric, Number.isModerate x = true) →
        ∀ w, (m.run src halt).stop ≠ some (.violation w)) := by
  refine ⟨exists_start hp.named, fun m hm src halt => ?_⟩
  have haccounts : Accounts (fun _ => True) (m.visits src halt) (m.run src halt) :=
    run_accounts (hm.intact hp.coded trivial) trivial src halt fun _ _ _ _ => trivial
  refine ⟨run_commands m src halt, haccounts.intact, haccounts.found, haccounts.violates_iff, ?_,
    moderate_fulfils hp.coded hm src halt⟩
  rintro l rfl
  exact text_violates_iff hp.coded hm l halt

def inspect (p : Profile) (check : Machine → Bool) : Bool :=
  match start p ⟨"part", "part.cl", ⟨2024, 1, 1, 0, 0, 0⟩⟩ {} with
  | .ok m => check m
  | .error _ => false

theorem exists_of_inspect {check : Machine → Bool} (h : inspect p check = true) :
    ∃ m, Opens p m ∧ check m = true := by
  unfold inspect at h
  split at h
  case h_1 m hstart => exact ⟨m, ⟨_, _, m, m.strict, m.subject, m.log, false, hstart, rfl⟩, h⟩
  case h_2 => cases h

set_option maxRecDepth 100000 in
/-- A dwell in revolutions and an arc, all with moderate numbers. -/
theorem run_breaks_contract_iff_arc :
    ∃ m, Opens {} m ∧ (m.visits (.program (Lexer.ofText
        "SPINDL/RPM,500,CLW\nDELAY/REV,5\nGOTO/10,0,0\nCIRCLE/0,0,0,0,0,1\nGOTO/0,10,0\n"))
          .never).length = 5 ∧
      ∀ w, (m.run (.program (Lexer.ofText
        "SPINDL/RPM,500,CLW\nDELAY/REV,5\nGOTO/10,0,0\nCIRCLE/0,0,0,0,0,1\nGOTO/0,10,0\n"))
          .never).stop ≠ some (.violation w) := by
  let src : Source := .program (Lexer.ofText
    "SPINDL/RPM,500,CLW\nDELAY/REV,5\nGOTO/10,0,0\nCIRCLE/0,0,0,0,0,1\nGOTO/0,10,0\n")
  have hparse : (Profile.parse "\x7b\x7d" .json []).toOption = some {} := by decide +kernel
  have hcheck : inspect {} (fun m => (m.visits src .never).length = 5 &&
      (m.visits src .never).all fun visit => visit.2.numeric.all Number.isModerate) = true := by
    decide +kernel
  obtain ⟨m, hopens, hcheck⟩ := exists_of_inspect hcheck
  simp only [Bool.and_eq_true, decide_eq_true_eq, List.all_eq_true] at hcheck
  obtain ⟨-, hrun⟩ := run_breaks_contract_iff (Profile.accepted_of_parse hparse)
  obtain ⟨-, -, -, -, -, hmoderate⟩ := hrun m hopens src .never
  exact ⟨m, hopens, hcheck.1, hmoderate hcheck.2⟩

set_option maxRecDepth 100000 in
/-- Finite numbers of a text whose dwell, arc or drilling cycle is computed to be out of range. -/
theorem computed_numbers_out_of_range :
    (∃ m, Opens {} m ∧ (m.run (.program (Lexer.ofText "DELAY/REV,1e308\n")) .never).stop =
      some (.violation (.notFinite "X" (Number.infinity false)))) ∧
    (∃ m, Opens {} m ∧ (m.run (.program (Lexer.ofText
      "GOTO/1e308,0,0\nCIRCLE/-1e308,0,0,0,0,1\nGOTO/0,1,0\n")) .never).stop =
        some (.violation (.notFinite "I" (Number.infinity true)))) ∧
    ∃ m, Opens { cycleStyle := .code } m ∧ (m.run (.program (Lexer.ofText
      "CYCLE81/0,1e308,1e308,-5\n")) .never).stop =
        some (.violation (.notFinite "R" (Number.infinity false))) := by
  have hrun {p : Profile} {src : Source} {stop : Option Stop}
      (h : inspect p (fun m => (m.run src .never).stop = stop) = true) :
      ∃ m, Opens p m ∧ (m.run src .never).stop = stop := by
    obtain ⟨m, hopens, hstop⟩ := exists_of_inspect h
    exact ⟨m, hopens, of_decide_eq_true hstop⟩
  exact ⟨hrun (by decide +kernel), hrun (by decide +kernel), hrun (by decide +kernel)⟩

end Machine
end Toolpath
