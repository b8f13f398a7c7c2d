import Toolpath.Proofs.Angles
import Toolpath.Proofs.Cycles

/-!
# Actions that check numbers

`Checks I xs a m` tells that the action `a`, done to `m`, breaks a contract exactly when one of
the numbers `xs` is not finite, and that the machine it leaves keeps to `I` in either case. A
machine is intact when every register that is needed is there, and every number that it holds or
has queued is finite; actions leave it intact.
-/

namespace Toolpath.Machine

open Registers (normalName)

variable {α β : Type} {I : Machine → Prop} {xs ys : List Float} {m m' : Machine} {x : Float}
  {w : Violation}

def AllFinite (xs : List Float) : Prop := ∀ x ∈ xs, Number.isFinite x = true

theorem allFinite_nil : AllFinite [] := by
  intro x hx
  cases hx

theorem allFinite_cons : AllFinite (x :: xs) ↔ Number.isFinite x = true ∧ AllFinite xs :=
  List.forall_mem_cons

theorem allFinite_append : AllFinite (xs ++ ys) ↔ AllFinite xs ∧ AllFinite ys :=
  List.forall_mem_append

def FoundIn (xs : List Float) (w : Violation) : Prop :=
  ∃ name, ∃ x ∈ xs, Number.isFinite x ≠ true ∧ w = .notFinite name x

/-- An end that is no violation when all these numbers are finite, and else the
violation that one of them is not; the machine keeps to `I`. -/
def Ends (I : Machine → Prop) (xs : List Float) : EStateM.Result Stop Machine α → Prop
  | .ok _ m => AllFinite xs ∧ I m
  | .error (.failure _) m => AllFinite xs ∧ I m
  | .error (.violation w) m => FoundIn xs w ∧ I m

def Checks (I : Machine → Prop) (xs : List Float) (a : Action α) (m : Machine) : Prop :=
  Ends I xs (a.run m)

def Safe (I : Machine → Prop) (a : Action α) : Prop := ∀ m, I m → Checks I [] a m

theorem FoundIn.not_allFinite (h : FoundIn xs w) : ¬AllFinite xs := by
  obtain ⟨name, x, hx, hnot, -⟩ := h
  exact fun hall => hnot (hall x hx)

theorem FoundIn.append_left (h : FoundIn ys w) (xs : List Float) : FoundIn (xs ++ ys) w := by
  obtain ⟨name, x, hx, hw⟩ := h
  exact ⟨name, x, List.mem_append_right xs hx, hw⟩

theorem FoundIn.append_right (h : FoundIn xs w) (ys : List Float) : FoundIn (xs ++ ys) w := by
  obtain ⟨name, x, hx, hw⟩ := h
  exact ⟨name, x, List.mem_append_left ys hx, hw⟩

def SameFaults (xs ys : List Float) : Prop := ∀ x, Number.isFinite x ≠ true → (x ∈ xs ↔ x ∈ ys)

theorem SameFaults.allFinite (h : SameFaults xs ys) : AllFinite xs ↔ AllFinite ys := by
  constructor
  · intro hall y hy
    by_contra hnot
    exact hnot (hall y ((h y hnot).mpr hy))
  · intro hall x hx
    by_contra hnot
    exact hnot (hall x ((h x hnot).mp hx))

theorem SameFaults.of_allFinite (hxs : AllFinite xs) (hys : AllFinite ys) : SameFaults xs ys :=
  fun x hx => ⟨fun h => absurd (hxs x h) hx, fun h => absurd (hys x h) hx⟩

theorem Checks.congr {a : Action α} (h : Checks I xs a m) (hxs : SameFaults xs ys) :
    Checks I ys a m := by
  unfold Checks at h ⊢
  cases hr : a.run m with
  | ok x m' =>
    rw [hr] at h
    exact ⟨hxs.allFinite.mp h.1, h.2⟩
  | error e m' =>
    rw [hr] at h
    cases e with
    | failure f => exact ⟨hxs.allFinite.mp h.1, h.2⟩
    | violation w =>
      obtain ⟨⟨name, x, hx, hnot, hw⟩, hm'⟩ := h
      exact ⟨⟨name, x, (hxs x hnot).mp hx, hnot, hw⟩, hm'⟩

theorem Checks.kept {a : Action α} {x : α} (h : Checks I xs a m) (hr : a.run m = .ok x m') :
    I m' := by
  unfold Checks at h
  rw [hr] at h
  exact h.2

theorem Safe.run_ne_violation {a : Action α} (ha : Safe I a) (hm : I m) (w : Violation) :
    a.run m ≠ .error (.violation w) m' := by
  intro hr
  have hchecks := ha m hm
  unfold Checks at hchecks
  rw [hr] at hchecks
  exact hchecks.1.not_allFinite allFinite_nil

theorem checks_pure (hm : I m) (x : α) : Checks I [] (pure x : Action α) m := ⟨allFinite_nil, hm⟩

theorem safe_pure (x : α) : Safe I (pure x : Action α) := fun _ hm => checks_pure hm x

theorem safe_fail (f : Failure) : Safe I (fail f : Action α) := fun _ hm => ⟨allFinite_nil, hm⟩

theorem checks_get {f : Machine → Action β} (h : Checks I xs (f m) m) :
    Checks I xs (get >>= f) m := h

theorem safe_get {f : Machine → Action β} (h : ∀ m, I m → Checks I [] (f m) m) :
    Safe I (get >>= f) := h

theorem safe_modify {f : Machine → Machine} (h : ∀ m, I m → I (f m)) :
    Safe I (modify f : Action PUnit) :=
  fun m hm => ⟨allFinite_nil, h m hm⟩

theorem checks_after {a : Action α} {f : α → Action β} {x : α} (ha : a.run m = .ok x m')
    (h : Checks I xs (f x) m') : Checks I xs (a >>= f) m := by
  unfold Checks
  rw [EStateM.run_bind, ha]
  exact h

theorem Checks.bind {a : Action α} {f : α → Action β} (ha : Checks I xs a m)
    (hf : ∀ x, Safe I (f x)) :
    Checks I xs (a >>= f) m := by
  unfold Checks at ha ⊢
  rw [EStateM.run_bind]
  cases hr : a.run m with
  | error e m' =>
    rw [hr] at ha
    cases e <;> exact ha
  | ok x m' =>
    rw [hr] at ha
    exact (hf x m' ha.2).congr (.of_allFinite allFinite_nil ha.1)

theorem safe_bind {a : Action α} {f : α → Action β} (ha : Safe I a) (hf : ∀ x, Safe I (f x)) :
    Safe I (a >>= f) :=
  fun m hm => (ha m hm).bind hf

theorem safe_ite {c : Prop} [Decidable c] {a b : Action α} (ha : Safe I a) (hb : Safe I b) :
    Safe I (if c then a else b) := by
  split
  · exact ha
  · exact hb

theorem safe_onlyIf {b : Bool} {a : Action Unit} (ha : Safe I a) : Safe I (onlyIf b a) :=
  safe_ite ha (safe_pure ())

theorem safe_forIn {f : β → PUnit → Action (ForInStep PUnit)} (hf : ∀ b, Safe I (f b PUnit.unit))
    (bs : List β) : Safe I (forIn bs PUnit.unit f) := by
  induction bs with
  | nil => exact safe_pure _
  | cons b bs ih =>
    rw [List.forIn_cons]
    refine safe_bind (hf b) fun r => ?_
    cases r with
    | done _ => exact safe_pure _
    | yield _ => exact ih

end Toolpath.Machine

/-! ## Intact machines -/

namespace Toolpath

open Registers (normalName)

/-- The registers that every machine has are there, each holds a finite number, and
those of the position hold numbers of the kind `N`. -/
structure Registers.Intact (N : Float → Prop) (rs : Registers) : Prop where
  indexed : rs.Indexed
  has : ∀ name ∈ Text.ofString "T" :: Machine.trackedNames, rs.Has name
  finite : ∀ {name : Text} {n : Numeric}, rs.find? name = some n → Number.isFinite n.value = true
  position : ∀ {a : Axis} {n : Numeric}, rs.find? a.register = some n → N n.value

structure BlockWriter.Intact (w : BlockWriter) : Prop where
  queued : ∀ n, Queued.once (.numeric n) ∈ w.pending → Number.isFinite n.value = true
  step : w.number.step ≠ 0

structure Memo.Intact (N : Float → Prop) (vars : Memo) : Prop where
  named : ∀ c, vars.cycle? Variable.cycle = some c → c.name ≠ []
  speed : N (vars.float Variable.spindleSpeed 0)

structure Circle.Intact (N : Float → Prop) (c : Circle) : Prop where
  center : ∀ a : Axis, N (c.center.along a)
  radius : N c.radius

structure Machine.Intact (N : Float → Prop) (m : Machine) : Prop where
  coded : m.profile.Coded
  registers : m.rack.registers.Intact N
  writer : m.writer.Intact
  vars : m.vars.Intact N
  circle : ∀ c, m.circle = some c → c.Intact N

variable {N : Float → Prop} {x : Float}

namespace Registers.Intact

variable {rs : Registers} {name : Text} {f : Numeric → Numeric}

theorem modify (h : rs.Intact N)
    (hf : ∀ n, rs.find? name = some n → Number.isFinite (f n).value = true ∧
      ∀ a : Axis, normalName a.register = normalName name → N (f n).value) :
    (rs.modify name f).Intact N := by
  have hfind : ∀ {b : Text} {n : Numeric}, (rs.modify name f).find? b = some n →
      normalName b ≠ normalName name ∧ rs.find? b = some n ∨
      normalName b = normalName name ∧ ∃ n₀, rs.find? name = some n₀ ∧ n = f n₀ := by
    intro b n hn
    by_cases hb : normalName b = normalName name
    · right
      have hsame : rs.find? b = rs.find? name := by rw [find?, find?, position?, position?, hb]
      rw [find?_modify_same hb, hsame] at hn
      obtain ⟨n₀, hn₀, rfl⟩ := Option.map_eq_some_iff.mp hn
      exact ⟨hb, n₀, hn₀, rfl⟩
    · left
      rw [find?_modify_other h.indexed hb] at hn
      exact ⟨hb, hn⟩
  refine ⟨h.indexed.modify name f, fun b hb => ?_, fun hn => ?_, fun hn => ?_⟩
  · obtain ⟨n, hn⟩ := h.has b hb
    by_cases hname : normalName b = normalName name
    · exact ⟨f n, by rw [find?_modify_same hname, hn]; rfl⟩
    · exact ⟨n, by rw [find?_modify_other h.indexed hname, hn]⟩
  · obtain ⟨-, hn⟩ | ⟨-, n₀, hn₀, rfl⟩ := hfind hn
    · exact h.finite hn
    · exact (hf n₀ hn₀).1
  · obtain ⟨-, hn⟩ | ⟨hb, n₀, hn₀, rfl⟩ := hfind hn
    · exact h.position hn
    · exact (hf n₀ hn₀).2 _ hb

theorem touch {rs' : Registers} (h : rs.Intact N) (hi : rs'.Indexed)
    (hsame : ∀ b, (rs'.find? b).map Numeric.value = (rs.find? b).map Numeric.value) :
    rs'.Intact N := by
  have hfind : ∀ {b : Text} {n : Numeric}, rs'.find? b = some n →
      ∃ n₀, rs.find? b = some n₀ ∧ n₀.value = n.value := by
    intro b n hn
    have hb := hsame b
    rw [hn] at hb
    exact Option.map_eq_some_iff.mp hb.symm
  refine ⟨hi, fun b hb => ?_, fun hn => ?_, fun hn => ?_⟩
  · obtain ⟨n, hn⟩ := h.has b hb
    have hb := hsame b
    rw [hn] at hb
    obtain ⟨n', hn', -⟩ := Option.map_eq_some_iff.mp hb
    exact ⟨n', hn'⟩
  · obtain ⟨n₀, hn₀, hvalue⟩ := hfind hn
    rw [← hvalue]
    exact h.finite hn₀
  · obtain ⟨n₀, hn₀, hvalue⟩ := hfind hn
    rw [← hvalue]
    exact h.position hn₀

theorem flag (h : rs.Intact N) (b : Bool) :
    (rs.modify name fun n => { n with changed := b }).Intact N := by
  refine h.touch (h.indexed.modify name _) fun a => ?_
  by_cases ha : normalName a = normalName name
  · rw [find?_modify_same ha, Option.map_map]
    rfl
  · rw [find?_modify_other h.indexed ha]

theorem clearFlags (h : rs.Intact N) : rs.clearFlags.Intact N := by
  refine h.touch h.indexed.clearFlags fun a => ?_
  rw [find?_clearFlags, Option.map_map]
  rfl

theorem spent {rack : Rack} (h : rack.registers.Intact N) (w : BlockWriter) :
    (w.spent rack).registers.Intact N := by
  refine h.touch ((BlockWriter.reads_due (r := []) h.indexed w).indexed h.indexed) fun a => ?_
  have hreads := BlockWriter.reads_due (r := a) h.indexed w
  cases ha : rack.registers.find? a with
  | none => rw [hreads.missing ha]
  | some n =>
    obtain hsame | ⟨hsettled, -⟩ := hreads.found n ha
    · rw [hsame]
    · rw [hsettled, Option.map_some, n.value_settled]
      rfl

end Registers.Intact

theorem BlockWriter.Intact.queue {w : BlockWriter} (h : w.Intact) {q : Queued}
    (hq : ∀ n, q = .once (.numeric n) → Number.isFinite n.value = true) : (w.queue q).Intact := by
  refine ⟨fun n hn => ?_, h.step⟩
  obtain hn | hn := List.mem_append.mp hn
  · exact h.queued n hn
  · exact hq n (List.mem_singleton.mp hn).symm

theorem BlockWriter.takeNumber_step (w : BlockWriter) :
    w.takeNumber.2.number.step = w.number.step := by
  cases h : (Word.counter w.number).shouldOutput with
  | true => simp [takeNumber, Word.token, h, Word.written, Counter.increment]
  | false => simp [takeNumber, Word.token, h]

theorem BlockWriter.assemble_step (w : BlockWriter) (rack : Rack) (b : Bool) :
    (w.assemble rack b).2.1.number.step = w.number.step := by
  simp only [assemble]
  split
  · rfl
  · split
    · exact takeNumber_step _
    · rfl

namespace Memo.Intact

variable {vars : Memo} {key : Text} {v : Value}

theorem congr {vars' : Memo} (h : vars.Intact N)
    (hcycle : vars'.get? Variable.cycle = vars.get? Variable.cycle)
    (hspeed : vars'.get? Variable.spindleSpeed = vars.get? Variable.spindleSpeed) :
    vars'.Intact N := by
  refine ⟨fun c hc => h.named c ?_, ?_⟩
  · rwa [cycle?, hcycle] at hc
  · rw [float, hspeed]
    exact h.speed

theorem set (h : vars.Intact N) (hcycle : key ≠ Variable.cycle)
    (hspeed : key ≠ Variable.spindleSpeed) :
    (vars.set key v).Intact N :=
  h.congr (by rw [get?_set, if_neg hcycle.symm]) (by rw [get?_set, if_neg hspeed.symm])

theorem remove (h : vars.Intact N) (hspeed : key ≠ Variable.spindleSpeed) :
    (vars.remove key).Intact N := by
  by_cases hcycle : key = Variable.cycle
  · subst hcycle
    refine ⟨fun c hc => ?_, ?_⟩
    · rw [cycle?, get?_remove, if_pos rfl] at hc
      cases hc
    · rw [float, get?_remove, if_neg hspeed.symm]
      exact h.speed
  · exact h.congr (by rw [get?_remove, if_neg (Ne.symm hcycle)])
      (by rw [get?_remove, if_neg hspeed.symm])

theorem setCycle (h : vars.Intact N) {c : DrillCycle} (hc : c.name ≠ []) :
    (vars.set Variable.cycle (.cycle c)).Intact N := by
  refine ⟨fun d hd => ?_, ?_⟩
  · rw [cycle?, get?_set, if_pos rfl] at hd
    cases hd
    exact hc
  · rw [float, get?_set, if_neg (by decide)]
    exact h.speed

theorem setSpeed (h : vars.Intact N) (hx : N x) :
    (vars.set Variable.spindleSpeed (.float x)).Intact N := by
  refine ⟨fun d hd => h.named d ?_, ?_⟩
  · rwa [cycle?, get?_set, if_neg (by decide)] at hd
  · rw [float, get?_set, if_pos rfl]
    exact hx

end Memo.Intact

namespace Machine

variable {α β : Type} {xs : List Float} {m : Machine}

theorem Intact.mono {N' : Float → Prop} (h : m.Intact N) (hN : ∀ x, N x → N' x) : m.Intact N' where
  coded := h.coded
  registers := { h.registers with position := fun hn => hN _ (h.registers.position hn) }
  writer := h.writer
  vars := { h.vars with speed := hN _ h.vars.speed }
  circle c hc := ⟨fun a => hN _ ((h.circle c hc).center a), hN _ (h.circle c hc).radius⟩

theorem safe_note (level : Level) (message : Text) (details : List (Text × Detail)) :
    Safe (Intact N) (note level message details) :=
  safe_modify fun _ h => { h with }

theorem safe_count (f : Stats → Stats) :
    Safe (Intact N) (count f) := safe_modify fun _ h => { h with }

theorem safe_forget (g : ModalGroup) :
    Safe (Intact N) (forget g) := safe_modify fun _ h => { h with }

theorem safe_setVariable {key : Text} {v : Value} (hcycle : key ≠ Variable.cycle)
    (hspeed : key ≠ Variable.spindleSpeed) : Safe (Intact N) (setVariable key v) :=
  safe_modify fun _ h => { h with vars := h.vars.set hcycle hspeed }

theorem safe_removeVariable {key : Text} (hspeed : key ≠ Variable.spindleSpeed) :
    Safe (Intact N) (removeVariable key) :=
  safe_modify fun _ h => { h with vars := h.vars.remove hspeed }

theorem safe_queue {q : Queued}
    (hq : ∀ n, q = .once (.numeric n) → Number.isFinite n.value = true) :
    Safe (Intact N) (queue q) :=
  safe_modify fun _ h => { h with writer := h.writer.queue hq }

theorem safe_queueRegister (name : Text) : Safe (Intact N) (queueRegister name) :=
  safe_queue fun _ h => by cases h

theorem safe_emit (f : Function) : Safe (Intact N) (emit f) := by
  intro m hm
  unfold Checks
  rw [emit_run]
  split
  · exact safe_note _ _ _ m hm
  · exact ⟨allFinite_nil, { hm with writer := hm.writer.queue fun _ h => by cases h }⟩

theorem Intact.selected (h : m.Intact N) (group function : Text) :
    (m.selected group function).Intact N := by
  refine { h with writer := ?_ }
  unfold Machine.selected
  dsimp only
  split
  · exact h.writer.queue fun _ h => by cases h
  · exact h.writer

theorem safe_emitModal (g : ModalGroup) (f : Function) : Safe (Intact N) (emitModal g f) := by
  intro m hm
  unfold Checks
  rw [emitModal_run]
  split
  · exact safe_note _ _ _ m hm
  · exact ⟨allFinite_nil, hm.selected _ _⟩

theorem Intact.flag (h : m.Intact N) (b : Bool) (name : Text) :
    Intact N { m with rack := m.rack.flag b (.register name) } := by
  rw [Rack.flag_register]
  exact { h with registers := h.registers.flag b }

theorem safe_flag (b : Bool) (names : List Text) : Safe (Intact N) (flag b names) := by
  apply safe_modify
  intro m hm
  induction names generalizing m with
  | nil => exact hm
  | cons name names ih => exact ih _ (hm.flag b name)

theorem safe_writeLine (t : Text) : Safe (Intact N) (writeLine t) := by
  intro m hm
  unfold Checks
  rw [writeLine_run]
  split <;> exact ⟨allFinite_nil, { hm with }⟩

theorem safe_comment (t : Text) : Safe (Intact N) (comment t) :=
  safe_get fun m hm => safe_writeLine _ m hm

theorem Intact.wroteBlock (h : m.Intact N) : m.wroteBlock.Intact N := by
  have hstep := m.writer.assemble_step m.rack true
  have hpending := wroteBlock_pending m
  have hnumber : m.wroteBlock.writer.number.step = m.writer.number.step := by
    rw [← hstep]
    unfold Machine.wroteBlock
    dsimp only
    split <;> rfl
  refine ⟨?_, ?_, ⟨fun n hn => ?_, ?_⟩, ?_, ?_⟩
  · rcases wroteBlock_cases m with ⟨-, hm⟩ | ⟨-, number, counter, -, hm⟩ <;> rw [hm] <;>
      exact h.coded
  · rw [wroteBlock_rack]
    exact h.registers.spent m.writer
  · rw [hpending] at hn
    cases hn
  · rw [hnumber]
    exact h.writer.step
  · rw [wroteBlock_vars]
    exact h.vars
  · rw [wroteBlock_circle]
    exact h.circle

theorem writeBlock_end (m : Machine) :
    writeBlock.run m = .ok () m.wroteBlock ∨
      ∃ f, writeBlock.run m = .error (.failure f) m.wroteBlock := by
  simp only [writeBlock, EStateM.run_bind, EStateM.run_get, EStateM.run_set, Machine.wroteBlock]
  cases (m.writer.assemble m.rack true).1 with
  | none => exact .inl rfl
  | some t =>
    simp only [writeLine_run]
    split
    · exact .inr ⟨_, rfl⟩
    · exact .inl rfl

theorem safe_writeBlock : Safe (Intact N) writeBlock := by
  intro m hm
  unfold Checks
  obtain h | ⟨f, h⟩ := writeBlock_end m
  · rw [h]
    exact ⟨allFinite_nil, hm.wroteBlock⟩
  · rw [h]
    exact ⟨allFinite_nil, hm.wroteBlock⟩

def holding (m : Machine) (name : Text) (x : Float) : Machine :=
  { m with rack := { m.rack with registers := m.rack.registers.modify name (Numeric.hold · x) } }

theorem Intact.holding (h : m.Intact N) {name : Text} (hx : Number.isFinite x = true)
    (hN : ∀ a : Axis, normalName a.register = normalName name → N x) :
    (m.holding name x).Intact N :=
  { h with registers := h.registers.modify fun _ _ => ⟨hx, hN⟩ }

/-- Done to `m`, the action gives `y` and leaves `m'` when all the numbers are
finite; else it breaks a contract, and the machine keeps to `I`. -/
structure Guards (I : Machine → Prop) (xs : List Float) (a : Action α) (m : Machine) (y : α)
    (m' : Machine) : Prop where
  done : AllFinite xs → a.run m = .ok y m'
  refused : ¬AllFinite xs → ∃ w m₁, a.run m = .error (.violation w) m₁ ∧ FoundIn xs w ∧ I m₁

namespace Guards

variable {I : Machine → Prop} {xs ys : List Float} {a : Action α} {y : α} {m' : Machine}

theorem of_run (h : a.run m = .ok y m') : Guards I [] a m y m' :=
  ⟨fun _ => h, fun hnot => absurd allFinite_nil hnot⟩

theorem single (hm : I m) (hdone : Number.isFinite x = true → a.run m = .ok y m')
    (hrefused : Number.isFinite x ≠ true → ∃ name,
      a.run m = .error (.violation (.notFinite name x)) m) :
    Guards I [x] a m y m' := by
  constructor
  · intro hx
    exact hdone (hx x List.mem_cons_self)
  · intro hx
    have hnot : Number.isFinite x ≠ true := fun h => hx (allFinite_cons.mpr ⟨h, allFinite_nil⟩)
    obtain ⟨name, hname⟩ := hrefused hnot
    exact ⟨_, m, hname, ⟨name, x, List.mem_cons_self, hnot, rfl⟩, hm⟩

theorem andThen {f : α → Action β} {z : β} {m'' : Machine} (ha : Guards I xs a m y m')
    (hf : AllFinite xs → Guards I ys (f y) m' z m'') : Guards I (xs ++ ys) (a >>= f) m z m'' := by
  by_cases hxs : AllFinite xs
  · have hrun := ha.done hxs
    constructor
    · intro h
      rw [EStateM.run_bind, hrun]
      exact (hf hxs).done (allFinite_append.mp h).2
    · intro h
      rw [EStateM.run_bind, hrun]
      obtain ⟨w, m₁, hw, hfound, hm₁⟩ :=
        (hf hxs).refused fun hys => h (allFinite_append.mpr ⟨hxs, hys⟩)
      exact ⟨w, m₁, hw, hfound.append_left xs, hm₁⟩
  · obtain ⟨w, m₁, hw, hfound, hm₁⟩ := ha.refused hxs
    constructor
    · intro h
      exact absurd (allFinite_append.mp h).1 hxs
    · intro _
      exact ⟨w, m₁, by rw [EStateM.run_bind, hw], hfound.append_right ys, hm₁⟩

theorem bind {f : α → Action β} (ha : Guards I xs a m y m')
    (hf : AllFinite xs → Checks I ys (f y) m') : Checks I (xs ++ ys) (a >>= f) m := by
  by_cases hxs : AllFinite xs
  · refine (checks_after (ha.done hxs) (hf hxs)).congr fun x hx => ?_
    rw [List.mem_append]
    exact ⟨.inr, fun h => h.resolve_left fun hmem => hx (hxs x hmem)⟩
  · obtain ⟨w, m₁, hw, hfound, hm₁⟩ := ha.refused hxs
    unfold Checks
    rw [EStateM.run_bind, hw]
    exact ⟨hfound.append_right ys, hm₁⟩

theorem checks (ha : Guards I xs a m y m') (hm' : AllFinite xs → I m') : Checks I xs a m := by
  have hpure := ha.bind (f := pure) fun hxs => checks_pure (hm' hxs) y
  rwa [bind_pure, List.append_nil] at hpure

end Guards

theorem guards_setRegister {I : Machine → Prop} (hm : I m) {name : Text}
    (h : m.rack.registers.Has name) (x : Float) :
    Guards I [x] (setRegister name x) m () (m.holding name x) := by
  obtain ⟨n, hn⟩ := h
  have hholding : m.holding name x =
      { m with rack := m.rack.set (.register name) (.numeric (n.hold x)) } := by
    rw [Rack.set_register, Registers.modify_const (f := (Numeric.hold · x)) hn]
    rfl
  apply Guards.single hm
  · intro hx
    rw [hholding, setRegister_run, hn]
    exact if_pos hx
  · intro hx
    rw [setRegister_run, hn]
    exact ⟨_, if_neg hx⟩

def queueing (m : Machine) (address : Text) (format : NumberFormat) (x : Float) : Machine :=
  { m with writer := m.writer.queue (.once (.numeric (Numeric.single address format x))) }

theorem Intact.queueing (h : m.Intact N) (hx : Number.isFinite x = true) (address : Text)
    (format : NumberFormat) : (m.queueing address format x).Intact N := by
  refine { h with writer := h.writer.queue fun n hn => ?_ }
  cases hn
  exact hx

theorem guards_demand {I : Machine → Prop} (hm : I m) (address : Text) (format : NumberFormat)
    (x : Float) :
    Guards I [x] (demand (Numeric.new address format x false)) m
      (Numeric.single address format x) m := by
  unfold Numeric.new requireFinite
  apply Guards.single hm
  · intro hx
    rw [if_pos hx]
    rfl
  · intro hx
    rw [if_neg hx]
    exact ⟨_, rfl⟩

theorem guards_queueNumber {I : Machine → Prop} (hm : I m) (address : Text) (format : NumberFormat)
    (x : Float) : Guards I [x] (queueNumber address format x) m () (m.queueing address format x) :=
  (guards_demand hm address format x).andThen fun _ => Guards.of_run rfl

theorem safe_openCycle {name : Text} (hname : name ≠ []) : Safe (Intact N) (openCycle name) := by
  refine safe_get fun m hm => ?_
  cases m.cycleMemo? name with
  | some c => exact checks_pure hm c
  | none =>
    have hnew : CycleMemo.new name = .ok { name } := by
      simp only [CycleMemo.new, Contract.require, List.isEmpty_eq_false_iff.mpr hname]
      rfl
    rw [hnew]
    exact checks_after (x := { name }) rfl
      (safe_bind (safe_modify fun _ h => { h with }) (fun _ => safe_pure _) m hm)

theorem safe_callCycle {name : Text} (hname : name ≠ []) (params : Parameters) :
    Safe (Intact N) (callCycle name params) := by
  refine safe_bind (safe_count _) fun _ => safe_bind (safe_openCycle hname) fun c => ?_
  refine safe_bind (safe_modify fun _ h => { h with }) fun _ => ?_
  refine safe_bind (safe_queue fun _ h => by cases h) fun _ => ?_
  exact safe_bind safe_writeBlock fun _ => safe_modify fun _ h => { h with }

theorem safe_callRepeated : Safe (Intact N) callRepeated := by
  refine safe_get fun m hm => ?_
  cases m.profile.cycleStyle with
  | code => exact checks_pure hm ()
  | call =>
    cases hc : m.vars.cycle? Variable.cycle with
    | none => exact checks_pure hm ()
    | some c => exact safe_callCycle (hm.vars.named c hc) c.parameters m hm

end Machine

end Toolpath
