import Toolpath.Proofs.Steps

/-!
# Commands that move

A command moves the machine when its verb does and it has coordinates; a
continuation does so only behind a motion. Every such command comes down to
`moveTo`, and a motion is made in four parts: the coordinates are taken over, the
code is queued, the block is written, and a repeated cycle is called.
-/

namespace Toolpath.Machine

variable {p : Profile} {m m' : Machine} {c : Command} {v : Verb}

def movesBy (m : Machine) (v : Verb) (c : Command) : Bool :=
  v.moves && !c.numeric.isEmpty &&
    (v != .continuation || m.last.major = "goto" || m.last.major = "rapid")

def moves (m : Machine) (c : Command) : Bool :=
  match m.verbs.resolve c with
  | some (v, c') => m.movesBy v c'
  | none => false

def announced (v : Verb) (vars : Memo) : Memo :=
  match v with
  | .rapid => vars.set Variable.motion (.text Motion.rapid)
  | .start => (vars.set Variable.restate (.flag true)).set Variable.motion (.text Motion.rapid)
  | _ => vars

theorem numeric_of_movesBy (h : m.movesBy v c = true) : c.numeric.isEmpty = false := by
  simp only [movesBy, Bool.and_eq_true, Bool.not_eq_true'] at h
  exact h.1.2

theorem perform_moving (h : m.movesBy v c = true) :
    (perform v c).run m = (moveTo c).run { m with vars := announced v m.vars } := by
  have hne := numeric_of_movesBy h
  cases v with
  | goto => rfl
  | rapid => rfl
  | start =>
    simp only [perform, moveToStart, hne]
    rfl
  | continuation =>
    have hlast : (m.last.major = "goto" || m.last.major = "rapid") = true := by
      simpa [movesBy, Verb.moves, hne] using h
    simp only [perform, continueMotion, EStateM.run_bind, EStateM.run_get, hlast, if_true]
    rfl
  | _ => simp [movesBy, Verb.moves] at h

theorem perform_still {u : Unit} (hv : v.moves = true) (hstill : m.movesBy v c = false)
    (h : (perform v c).run m = .ok u m') :
    ∃ vars log, m' = { m with vars, log } ∧
      (vars = m.vars ∨ vars = m.vars.set Variable.motion (.text Motion.rapid)) := by
  have hgoto {m : Machine} (hne : c.numeric.isEmpty = true) : (moveTo c).run m = .ok () m := by
    simp only [moveTo, hne, if_true]
    rfl
  cases v with
  | goto =>
    have hne : c.numeric.isEmpty = true := by simpa [movesBy, Verb.moves] using hstill
    cases (hgoto hne).symm.trans h
    exact ⟨m.vars, m.log, rfl, .inl rfl⟩
  | rapid =>
    have hne : c.numeric.isEmpty = true := by simpa [movesBy, Verb.moves] using hstill
    obtain ⟨_, _, h₁, h₂⟩ := run_bind_ok.mp h
    cases h₁
    cases (hgoto hne).symm.trans h₂
    exact ⟨_, m.log, rfl, .inr rfl⟩
  | start =>
    have hne : c.numeric.isEmpty = true := by simpa [movesBy, Verb.moves] using hstill
    simp only [perform, moveToStart, hne, if_true] at h
    cases h
    exact ⟨m.vars, m.log, rfl, .inl rfl⟩
  | continuation =>
    simp only [perform, continueMotion, EStateM.run_bind, EStateM.run_get] at h
    split at h
    case isTrue hlast =>
      have hne : c.numeric.isEmpty = true := by
        simp only [movesBy, Verb.moves] at hstill
        simp_all
      cases (hgoto hne).symm.trans h
      exact ⟨m.vars, m.log, rfl, .inl rfl⟩
    case isFalse =>
      cases h
      exact ⟨m.vars, _, rfl, .inl rfl⟩
  | _ => cases hv

theorem Step.still (h : Step c m m') (hstill : m.moves c = false) :
    (∃ vars stats last log, m' = { m with vars, stats, last, log } ∧
      (vars = m.vars ∨ vars = m.vars.set Variable.motion (.text Motion.rapid))) ∨
    ∃ v c', m.verbs.resolve c = some (v, c') ∧ v.moves = false ∧
      Course (Verb.May m.profile · v) m m' := by
  rcases h.cases with ⟨hv, stats, log, rfl⟩ | ⟨v, c', stats, log, m₁, hv, hp, rfl⟩
  · exact .inl ⟨m.vars, stats, m.last, log, rfl, .inl rfl⟩
  · have hby : m.movesBy v c' = false := by simpa [moves, hv] using hstill
    cases hmoves : v.moves with
    | true =>
      obtain ⟨vars, log, rfl, hvars⟩ := perform_still (m := { m with stats, log }) hmoves hby hp
      exact .inl ⟨vars, stats, _, log, rfl, hvars⟩
    | false =>
      have hbook : Does .book m { m with stats, log } := .book m m.tools stats m.cycles m.last log
      have hverb := keepsTo_perform (p := m.profile) v c' { m with stats, log } rfl () m₁ hp
      refine .inr ⟨v, c', hv, hmoves, (Course.one (.book v) hbook).trans (hverb.trans ?_)⟩
      exact Course.one (.book v) (.book m₁ m₁.tools m₁.stats m₁.cycles _ m₁.log)

theorem moveTo_ok {u : Unit} (hne : c.numeric.isEmpty = false) (h : (moveTo c).run m = .ok u m') :
    ∃ m₁ m₂ m₃, (setCoordinates c).run m = .ok () m₁ ∧ (setToolAxis c).run m₁ = .ok () m₂ ∧
      (queueMotion m.position).run m₂ = .ok () m₃ ∧
      (∀ t, (m₃.writer.assemble m₃.rack true).1 = some t → (m₃.outlet.writeLine t).1 = none) ∧
      callRepeated.run m₃.wroteBlock = .ok () m' := by
  simp only [moveTo, hne] at h
  obtain ⟨_, _, h₀, h⟩ := run_bind_ok.mp h
  cases h₀
  obtain ⟨_, m₁, h₁, h⟩ := run_bind_ok.mp h
  obtain ⟨_, m₂, h₂, h⟩ := run_bind_ok.mp h
  obtain ⟨_, m₃, h₃, h⟩ := run_bind_ok.mp h
  obtain ⟨_, _, h₄, h⟩ := run_bind_ok.mp h
  obtain ⟨taken, rfl⟩ := writeBlock_ok.mp h₄
  exact ⟨m₁, m₂, m₃, h₁, h₂, h₃, taken, h⟩

end Toolpath.Machine
