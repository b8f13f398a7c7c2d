import Toolpath.Proofs.ModalOutput

/-!
# Flags between commands

Each command that sets a tracked register other than the feed ends with a block, which clears the
flags of modal registers. So between commands a flag on such a register says only that it is not
modal. The feed can be set and wait.
-/

namespace Toolpath

namespace BlockWriter

variable {rack : Rack} {r : Text} {n : Numeric}

theorem settled_of_unflagged (h : n.changed = false) : n.settled = n := by
  unfold Numeric.settled
  split
  · rw [← h]
  · rfl

theorem tracked_settled {refs : List WordRef} (hi : rack.registers.Indexed)
    (hn : rack.registers.find? r = some n) (href : .register r ∈ refs) :
    (tokens .tracked trackedText rack refs).2.registers.find? r = some n.settled := by
  induction refs generalizing rack n with
  | nil => simp at href
  | cons ref refs ih =>
    have hfirst := Reads.tracked (r := r) hi ref
    have hrest := Reads.tokens (r := r) (fun _ hi ref => Reads.tracked hi ref) refs
      (hfirst.indexed hi)
    by_cases hr : ref = .register r
    · subst hr
      have hread : (trackedText rack (.register r)).2.registers.find? r = some n.settled := by
        cases hc : n.changed with
        | true =>
          rw [trackedText_flagged hn hc, Registers.find?_modify_same rfl, hn]
          rfl
        | false => rw [trackedText_unflagged hn hc, hn, settled_of_unflagged hc]
      rcases hrest.found _ hread with h | ⟨h, -⟩
      · exact h
      · rwa [n.settled_settled] at h
    · have href' : .register r ∈ refs := by
        rcases List.mem_cons.mp href with h | h
        · exact absurd h.symm hr
        · exact h
      rcases hfirst.found n hn with hn' | ⟨hn', -⟩
      · exact ih (hfirst.indexed hi) hn' href'
      · rw [← n.settled_settled]
        exact ih (hfirst.indexed hi) hn' href'

theorem spent_settled {w : BlockWriter} (hi : rack.registers.Indexed)
    (hn : rack.registers.find? r = some n) (href : .register r ∈ w.tracked) :
    (w.spent rack).registers.find? r = some n.settled := by
  have hq := Reads.tokens (r := r) (fun _ hi q => Reads.queued hi q) w.pending hi
  rcases hq.found n hn with hn' | ⟨hn', -⟩
  · exact tracked_settled (hq.indexed hi) hn' href
  · rw [← n.settled_settled]
    exact tracked_settled (hq.indexed hi) hn' href

end BlockWriter

namespace Machine

open Registers (normalName)

variable {S : Machine → Deed → Prop} {p : Profile} {m m' : Machine} {d : Deed} {r : Text}
  {v : Verb} {c : Command}

/-- The register is written only when it is flagged, and the flag is cleared then. -/
def isModal (m : Machine) (r : Text) : Bool :=
  ((m.rack.registers.find? r).map Numeric.modal).getD true

theorem isModal_congr {f : Numeric → Numeric} (hf : ∀ n, (f n).modal = n.modal)
    (h : m'.rack.registers.find? r = (m.rack.registers.find? r).map f) :
    m'.isModal r = m.isModal r := by
  simp only [isModal, h, Option.map_map]
  congr 2
  funext n
  exact hf n

theorem wroteBlock_isModal (hi : m.rack.registers.Indexed) :
    m.wroteBlock.isModal r = m.isModal r := by
  unfold isModal
  rw [wroteBlock_rack]
  cases hn : m.rack.registers.find? r with
  | none => rw [(BlockWriter.reads_due hi m.writer).missing hn]
  | some n =>
    rcases (BlockWriter.reads_due hi m.writer).found n hn with h | ⟨h, -⟩
    · rw [h]
    · rw [h]
      simp only [Option.map_some, Numeric.settled]
      split <;> rfl

theorem Does.isModal (h : Does d m m') (hi : m.rack.registers.Indexed) :
    m'.isModal r = m.isModal r := by
  have hmodify (a : Text) (f : Numeric → Numeric) (hf : ∀ n, (f n).modal = n.modal)
      (hreg : m'.rack.registers = m.rack.registers.modify a f) : m'.isModal r = m.isModal r := by
    by_cases ha : normalName r = normalName a
    · exact isModal_congr hf (by rw [hreg, Registers.find?_modify_same ha])
    · refine isModal_congr (f := id) (fun _ => rfl) ?_
      rw [hreg, Registers.find?_modify_other hi ha, Option.map_id]
      rfl
  cases h with
  | hold _ a x n found =>
    refine hmodify a (Numeric.hold · x) (fun _ => rfl) ?_
    rw [Rack.set_register]
    exact Registers.modify_const (f := (Numeric.hold · x)) found
  | flag _ b a =>
    refine hmodify a (fun n => { n with changed := b }) (fun _ => rfl) ?_
    rw [Rack.flag_register]
  | clearFlags =>
    exact isModal_congr (f := fun n => { n with changed := false }) (fun _ => rfl)
      (Registers.find?_clearFlags _ r)
  | block => exact wroteBlock_isModal hi
  | _ => rfl

theorem wroteBlock_flagged_eq (hi : m.rack.registers.Indexed)
    (ht : .register r ∈ m.writer.tracked) :
    m.wroteBlock.flagged r = (m.flagged r && !m.isModal r) := by
  unfold flagged isModal
  rw [wroteBlock_rack]
  cases hn : m.rack.registers.find? r with
  | none => simp [(BlockWriter.reads_due hi m.writer).missing hn]
  | some n =>
    rw [BlockWriter.spent_settled hi hn ht]
    simp only [Option.map_some, Option.getD_some, Numeric.settled]
    split <;> simp_all

theorem wroteBlock_heard_eq (hi : m.rack.registers.Indexed) (ht : .register r ∈ m.writer.tracked)
    (hq : ∀ q ∈ m.writer.pending, (Origin.queued q).isOf r = false) :
    m.wroteBlock.heard r = if m.flagged r then m.word r else m.heard r := by
  cases hf : m.flagged r with
  | true =>
    rw [heard_of_flagged hi ht hf, wroteBlock_word hi]
    rfl
  | false =>
    have hnone := BlockWriter.due_unflagged (r := r) hi hq
      fun n hn => by simpa [flagged, hn] using hf
    rcases wroteBlock_heard (r := r) hi with ⟨-, h⟩ | ⟨⟨t, ht, hof⟩, -⟩
    · exact h
    · simp [hnone t ht] at hof

/-- A flag that is left on the register is one that a block does not clear, and
the word of the register was written. -/
def AtRest (r : Text) (m : Machine) : Prop :=
  m.flagged r = true → m.isModal r = false ∧ m.heard r = m.word r

theorem wroteBlock_atRest (hi : m.rack.registers.Indexed) (ht : .register r ∈ m.writer.tracked) :
    AtRest r m.wroteBlock := by
  intro hf
  rw [wroteBlock_flagged_eq hi ht, Bool.and_eq_true, Bool.not_eq_true'] at hf
  refine ⟨?_, heard_of_flagged hi ht hf.1⟩
  rw [wroteBlock_isModal hi]
  exact hf.2

def PassesBy (r : Text) : Deed → Prop
  | .hold a _ => normalName a ≠ normalName r
  | .flag b a => b = false ∨ normalName a ≠ normalName r
  | _ => True

theorem AtRest.congr (hm : AtRest r m) (hreg : m'.rack.registers.find? r = m.rack.registers.find? r)
    (hw : m'.writer.written = m.writer.written) : AtRest r m' := by
  have hformat : m'.format r = m.format r := by simp [Machine.format, hreg]
  intro hf
  rw [flagged, hreg] at hf
  obtain ⟨hmodal, hheard⟩ := hm hf
  refine ⟨by rw [isModal, hreg]; exact hmodal, ?_⟩
  rw [heard, hw, hformat, word, Machine.value, hreg, hformat]
  exact hheard

theorem Does.atRest (h : Does d m m') (hd : PassesBy r d) (hi : m.rack.registers.Indexed)
    (ht : .register r ∈ m.writer.tracked) (hm : AtRest r m) : AtRest r m' := by
  cases h with
  | hold _ a x n found =>
    exact hm.congr (Registers.find?_modify_other hi (Ne.symm hd)) rfl
  | flag _ b a =>
    rw [Rack.flag_register]
    by_cases ha : normalName r = normalName a
    · rcases hd with rfl | hd
      · intro hf
        cases hn : m.rack.registers.find? r <;>
          simp [flagged, Registers.find?_modify_same ha, hn] at hf
      · exact absurd ha.symm hd
    · exact hm.congr (Registers.find?_modify_other hi ha) rfl
  | clearFlags =>
    intro hf
    cases hn : m.rack.registers.find? r <;> simp [flagged, Registers.find?_clearFlags, hn] at hf
  | select =>
    refine hm.congr rfl ?_
    simp only [selected]
    split <;> rfl
  | block => exact wroteBlock_atRest hi ht
  | _ => exact hm.congr rfl rfl

theorem Course.atRest (hS : ∀ m d, S m d → PassesBy r d) (h : Course S m m')
    (hi : m.rack.registers.Indexed) (ht : .register r ∈ m.writer.tracked) (hm : AtRest r m) :
    AtRest r m' := by
  refine (h.invariant (I := fun a => a.rack.registers.Indexed ∧
    .register r ∈ a.writer.tracked ∧ AtRest r a) (fun d a b hd hab => ?_) ⟨hi, ht, hm⟩).2.2
  rintro ⟨hi, ht, hm⟩
  exact ⟨hab.indexed hi, hab.alike.tracked ▸ ht, hab.atRest (hS a d hd) hi ht hm⟩

variable {α : Type}

def Settles (p : Profile) (r : Text) (a : Action Unit) : Prop :=
  ∀ m : Machine, m.profile = p → m.rack.registers.Indexed → .register r ∈ m.writer.tracked →
    ∀ u m', a.run m = .ok u m' → AtRest r m'

theorem settles_bind {a : Action α} {f : α → Action Unit} (ha : KeepsTo p S a)
    (hf : ∀ x, Settles p r (f x)) : Settles p r (a >>= f) := by
  intro m hm hi ht u m' h
  obtain ⟨x, m₁, h₁, h₂⟩ := run_bind_ok.mp h
  have hcourse := ha m hm x m₁ h₁
  have hi₁ : m₁.rack.registers.Indexed := hcourse.invariant (fun _ _ _ _ hab => hab.indexed) hi
  exact hf x m₁ (hcourse.profile.trans hm) hi₁ (hcourse.alike.tracked ▸ ht) u m' h₂

theorem settles_get {f : Machine → Action Unit} (hf : ∀ m, Settles p r (f m)) :
    Settles p r (get >>= f) :=
  fun m hm hi ht => hf m m hm hi ht

theorem settles_writeBlock : Settles p r writeBlock := by
  intro m _ hi ht u m' h
  obtain ⟨-, rfl⟩ := writeBlock_ok.mp h
  exact wroteBlock_atRest hi ht

theorem settles_runSpindle (c : Command) : Settles p r (runSpindle c) := by
  refine settles_bind (keepsTo_setSpeeds c) fun _ => settles_get fun m => ?_
  refine settles_bind (keepsTo_foldlM _ keepsTo_spindleWord _) fun state => ?_
  refine settles_bind (S := fun _ _ => True)
    (keepsTo_emitModal (fun _ => trivial) fun _ => trivial) fun _ => settles_get fun m => ?_
  refine settles_bind (S := fun _ _ => True)
    (keepsTo_onlyIf (keepsTo_setRegister (fun _ _ => trivial) _)) fun _ => ?_
  exact settles_writeBlock

theorem CallMay.passesBy (h : CallMay p m d) : PassesBy r d := by
  cases h <;> trivial

theorem settles_moveTo (hne : c.numeric.isEmpty = false) : Settles p r (moveTo c) := by
  have hcall : Settles p r (do writeBlock; callRepeated) := by
    intro m hm hi ht u m' h
    obtain ⟨_, m₁, h₁, h₂⟩ := run_bind_ok.mp h
    obtain ⟨taken, rfl⟩ := writeBlock_ok.mp h₁
    have hblock := Does.block m taken
    refine Course.atRest (fun _ _ h => CallMay.passesBy h)
      (keepsTo_callRepeated m.wroteBlock rfl u m' h₂) (hblock.indexed hi) ?_
        (wroteBlock_atRest hi ht)
    exact hblock.alike.tracked ▸ ht
  rw [moveTo, if_neg (by simp [hne])]
  refine settles_get fun m => settles_bind (keepsTo_setCoordinates c) fun _ => ?_
  refine settles_bind (keepsTo_setToolAxis c) fun _ => ?_
  exact settles_bind (keepsTo_queueMotion _) fun _ => hcall

theorem May.passesBy (hr : r ∈ trackedNames) (hfeed : r ≠ "F") (hstill : v.moves = false)
    (hspindle : v ≠ .spindle) (h : Verb.May p m v d) : PassesBy r d := by
  have hapart : ∀ r ∈ trackedNames, r ≠ "F" →
      normalName "F" ≠ normalName r ∧ normalName "T" ≠ normalName r := by decide
  cases h with
  | move hmoves => simp [hstill] at hmoves
  | start _ h =>
    cases h with
    | call h => exact h.passesBy
    | _ => trivial
  | cancel _ h => cases h <;> trivial
  | feed => exact (hapart r hr hfeed).1
  | speed => exact absurd rfl hspindle
  | spindleSetting => exact absurd rfl hspindle
  | toolNumber => exact (hapart r hr hfeed).2
  | wrapUp h => cases h <;> trivial
  | _ => trivial

theorem perform_atRest {u : Unit} (hr : r ∈ trackedNames) (hfeed : r ≠ "F")
    (hi : m.rack.registers.Indexed) (ht : .register r ∈ m.writer.tracked) (hm : AtRest r m)
    (h : (perform v c).run m = .ok u m') : AtRest r m' := by
  cases hmoves : v.moves with
  | true =>
    cases hby : m.movesBy v c with
    | true =>
      rw [perform_moving hby] at h
      exact settles_moveTo (numeric_of_movesBy hby) { m with vars := announced v m.vars } rfl
        hi ht u m' h
    | false =>
      obtain ⟨vars, log, rfl, -⟩ := perform_still hmoves hby h
      exact hm
  | false =>
    by_cases hspindle : v = .spindle
    · subst hspindle
      exact settles_runSpindle c m rfl hi ht u m' h
    · refine (keepsTo_perform v c m rfl u m' h).atRest (fun _ _ hd => ?_) hi ht hm
      exact May.passesBy hr hfeed hmoves hspindle hd

theorem Step.atRest (h : Step c m m') (hr : r ∈ trackedNames) (hfeed : r ≠ "F")
    (hi : m.rack.registers.Indexed) (ht : .register r ∈ m.writer.tracked) (hm : AtRest r m) :
    AtRest r m' := by
  rcases h.cases with ⟨-, stats, log, rfl⟩ | ⟨v, c', stats, log, m₁, -, hp, rfl⟩
  · exact hm
  · have hrest := perform_atRest (m := { m with stats, log }) hr hfeed hi ht hm hp
    exact hrest

theorem Course.isModal (h : Course S m m') (hi : m.rack.registers.Indexed) :
    m'.isModal r = m.isModal r :=
  (h.invariant (I := fun a => a.rack.registers.Indexed ∧ a.isModal r = m.isModal r)
    (fun _ _ _ _ hab ha => ⟨hab.indexed ha.1, (hab.isModal ha.1).trans ha.2⟩) ⟨hi, rfl⟩).2

end Machine
end Toolpath
