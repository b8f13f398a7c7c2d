import Toolpath.Proofs.CheckAgreement
import Toolpath.Proofs.InterruptedReads
import Toolpath.Proofs.SelfDelimiting

/-!
# Cancelled runs

A run that is told to stop has written what the same run writes when it is not, as far as it
came, and behind it the cancel marker, whether it learns of it between two commands or its
source does while it reads one. Only the reason that it gives is not the same.
-/

namespace Toolpath

theorem StreamReader.readRecord_shorter {number : Nat} {data record rest : Text} {c : Command}
    (h : readRecord number data = .ok (c, record, rest)) : rest.length < data.length := by
  unfold readRecord at h
  cases hread : Cbor.Item.read data with
  | error e =>
    rw [hread] at h
    cases h
  | ok answer =>
    obtain ⟨x, behind⟩ := answer
    rw [hread] at h
    obtain ⟨s, rfl, hs⟩ := Cbor.selfDelimiting_item data x behind hread
    have htaken : s ≠ [] := by
      rintro rfl
      exact Cbor.readItem_nil _ _ _ (hs.whole [])
    have hbehind : rest = behind := by
      dsimp only at h
      split at h
      · cases h
      split at h
      · cases h
      · cases h
        rfl
    rw [hbehind, List.length_append]
    have := List.length_pos_iff.mpr htaken
    omega

theorem StreamReader.remaining_next (r : StreamReader) {c : Command}
    (h : Source.ofStream r.next.1 = .command c) : r.next.2.data.length < r.data.length := by
  by_cases hfinished : r.finished = true
  · rw [next, if_pos hfinished] at h
    cases h
  by_cases hdata : r.data = []
  · rw [next, if_neg hfinished, if_neg Bool.false_ne_true, if_pos hdata] at h
    cases h
  rw [next, if_neg hfinished, if_neg Bool.false_ne_true, if_neg hdata] at h ⊢
  cases hrecord : readRecord (r.count + 1) r.data with
  | error e =>
    rw [hrecord] at h
    cases h
  | ok answer => exact readRecord_shorter hrecord

namespace Lexer

def remaining (l : Lexer) : Nat := if l.finished then 0 else l.rest.length + 1

theorem remaining_le_bound (l : Lexer) : l.remaining ≤ l.bound := by
  unfold remaining
  split
  · exact Nat.zero_le _
  · exact le_rfl

theorem remaining_finish (l : Lexer) {c : Command}
    (h : (Source.ofLexer l.finish.1).1 = .command c) :
    l.finish.2.remaining = 0 := by
  unfold finish at h ⊢
  split at h
  · cases h
  · dsimp only
    split <;> rfl

theorem remaining_readUntil (i : Nat) (l : Lexer) (lines : List Text) {c : Command}
    (h : (Source.ofLexer (l.readUntil (fun _ => false) i lines).1).1 = .command c) :
    (l.readUntil (fun _ => false) i lines).2.remaining < lines.length + 1 := by
  induction lines generalizing i l with
  | nil => exact (remaining_finish _ h).trans_lt Nat.one_pos
  | cons raw rest ih =>
    rw [readUntil_cons] at h ⊢
    obtain ⟨t, ht⟩ := readLine_cases l raw rest
    rw [ht] at h ⊢
    rw [List.length_cons]
    cases hkind : Layout.kind (l.advance raw rest).1 with
    | blank =>
      rw [hkind] at h
      exact (ih _ _ h).trans (Nat.lt_succ_self _)
    | joined body =>
      rw [hkind] at h
      exact (ih _ _ h).trans (Nat.lt_succ_self _)
    | complete body => exact (remaining_le_bound _).trans_lt (Nat.lt_succ_self _)

theorem remaining_next (l : Lexer) {c : Command} (h : (Source.ofLexer l.next.1).1 = .command c) :
    l.next.2.remaining < l.remaining := by
  unfold next nextUnless at h ⊢
  cases hfinished : l.finished with
  | true =>
    rw [hfinished] at h
    cases h
  | false =>
    rw [hfinished] at h
    rw [remaining.eq_def l, hfinished]
    exact remaining_readUntil 0 l l.rest h

end Lexer

namespace Source

/-- The source once it was asked `k` times and no one told it to stop. -/
def asked (src : Source) : Nat → Source
  | 0 => src
  | k + 1 => (src.next fun _ => false).2.asked k

theorem asked_succ {src src' : Source} {reply : SourceReply × List Note}
    (h : src.next (fun _ => false) = (reply, src')) (k : Nat) :
    src.asked (k + 1) = src'.asked k := by
  rw [asked, h]

def remaining : Source → Nat
  | program l => l.remaining
  | stream r => r.data.length
  | listed commands _ => commands.length

theorem remaining_le_bound (src : Source) : src.remaining ≤ src.bound := by
  cases src with
  | program l => exact l.remaining_le_bound
  | stream r => exact le_rfl
  | listed commands ending => exact le_rfl

theorem remaining_next {src src' : Source} {c : Command} {notes : List Note}
    (h : src.next (fun _ => false) = ((.command c, notes), src')) :
    src'.remaining < src.remaining := by
  cases src with
  | program l =>
    obtain ⟨hreply, rfl⟩ := Prod.mk.inj h
    exact l.remaining_next (congrArg Prod.fst hreply)
  | stream r =>
    obtain ⟨hreply, rfl⟩ := Prod.mk.inj h
    exact r.remaining_next (congrArg Prod.fst hreply)
  | listed commands ending =>
    cases commands with
    | nil => cases ending <;> cases h
    | cons c' commands =>
      cases h
      exact Nat.lt_succ_self _

end Source

/-! ## Being told to stop -/

/-- Whether a run that asked its source `i` times learns that it is told to stop, by its own
look before it asks again or by a look of the source while that reads. -/
def Cancellation.Tells (halt : Cancellation) (src : Source) (i : Nat) : Prop :=
  halt.before i = true ∨ ((src.asked i).next (halt.reading i)).1.1 = .cancelled

/-- The run learns it after `k` requests, and not before. -/
structure Cancellation.FirstTells (halt : Cancellation) (src : Source) (k : Nat) : Prop where
  tells : halt.Tells src k
  silent : ∀ i < k, ¬ halt.Tells src i

instance (halt : Cancellation) (src : Source) (i : Nat) : Decidable (halt.Tells src i) :=
  inferInstanceAs (Decidable (_ ∨ _))

instance (halt : Cancellation) (src : Source) (k : Nat) : Decidable (halt.FirstTells src k) :=
  decidable_of_iff (halt.Tells src k ∧ ∀ i < k, ¬ halt.Tells src i)
    ⟨fun h => ⟨h.1, h.2⟩, fun h => ⟨h.1, h.2⟩⟩

/-- The reason that a run gives which learns after `k` requests that it is told to stop. -/
def Cancellation.causeAt (halt : Cancellation) (k : Nat) : Text :=
  if halt.before k then Failure.stopped else halt.cause

theorem Cancellation.causeAt_eq_stopped_iff (halt : Cancellation) (k : Nat) :
    halt.causeAt k = Failure.stopped ↔ halt.before k = true ∨ halt.cause = Failure.stopped := by
  unfold causeAt
  split
  case isTrue hbefore => simp [hbefore]
  case isFalse hbefore => simp [hbefore]

/-- Every request was answered with a command, and every command was carried out. -/
structure Transcript.Underway (t : Transcript) : Prop where
  unstopped : t.stop = none
  answered : ∀ turn ∈ t.turns, turn.command.isSome = true

instance (t : Transcript) : Decidable t.Underway :=
  decidable_of_iff (t.stop = none ∧ ∀ turn ∈ t.turns, turn.command.isSome = true)
    ⟨fun h => ⟨h.1, h.2⟩, fun h => ⟨h.1, h.2⟩⟩

namespace Outlet

variable {o : Outlet}

theorem writeLine_flushes (o : Outlet) (t : Text) : (o.writeLine t).2.flushes = o.flushes := by
  unfold writeLine
  cases o.record.writeLine t with
  | mk reason record =>
    cases reason with
    | some reason => rfl
    | none =>
      unfold pass
      cases o.onward <;> rfl

theorem flush_lines (o : Outlet) : o.flush.2.lines = o.lines := by
  unfold flush
  cases o.onward <;> rfl

theorem Reliable.flushed (h : o.Reliable) {s : LineSink} (hs : o.flush.2.onward = some s) :
    s.buffer = [] ∧ o.flush.2.flushes = o.flushes + 1 := by
  unfold Outlet.flush at hs ⊢
  cases honward : o.onward with
  | none =>
    rw [honward] at hs
    cases honward.symm.trans hs
  | some s' =>
    have hs' := h.passes s' honward
    rw [honward] at hs
    obtain rfl : s'.drain = s := Option.some.inj hs
    refine ⟨?_, rfl⟩
    unfold LineSink.drain
    rw [hs'.unbroken, Tape.write, hs'.takes]
    cases hbuffer : s'.buffer with
    | nil => exact hbuffer
    | cons b buffer => rfl

/-- The outlet behind the marker of a cancelled program, if it has one, and nothing held back. -/
def cutBy (o : Outlet) (marker : Text) : Outlet :=
  (if marker = [] then o else (o.writeLine marker).2).flush.2

theorem Reliable.cutBy_lines (h : o.Reliable) (marker : Text) :
    (o.cutBy marker).lines = o.lines ++ [marker].filter (· ≠ []) := by
  rw [cutBy, flush_lines]
  split
  case isTrue hempty => simp [hempty]
  case isFalse hmarker =>
    rw [Machine.lines_of_taken (h.writeLine marker).1]
    simp [hmarker]

theorem Reliable.cutBy_flushed (h : o.Reliable) (marker : Text) {s : LineSink}
    (hs : (o.cutBy marker).onward = some s) :
    s.buffer = [] ∧ (o.cutBy marker).flushes = o.flushes + 1 := by
  unfold cutBy at hs ⊢
  by_cases hmarker : marker = []
  · rw [if_pos hmarker] at hs ⊢
    exact h.flushed hs
  · rw [if_neg hmarker] at hs ⊢
    rw [← o.writeLine_flushes marker]
    exact (h.writeLine marker).2.flushed hs

end Outlet

namespace Machine

variable {S : Machine → Deed → Prop} {d : Deed} {c : Command} {m m' : Machine} {src : Source}
  {halt : Cancellation} {turns : List Turn} {i k : Nat}

theorem Does.reliable (h : Does d m m') (hm : m.outlet.Reliable) : m'.outlet.Reliable := by
  cases h with
  | line _ t _ => exact (hm.writeLine t).2
  | block =>
    obtain ⟨-, h⟩ | ⟨-, number, counter, -, h⟩ := wroteBlock_cases m
    · rw [h]
      exact hm
    · rw [h]
      exact (hm.writeLine _).2
  | _ => exact hm

theorem Course.reliable (h : Course S m m') : m.outlet.Reliable → m'.outlet.Reliable :=
  h.invariant fun _ _ _ _ hab => hab.reliable

theorem keepsTo_writeTemplate {p : Profile} (hS : ∀ m t, S m (.line t)) (lines : List Text) :
    KeepsTo p S (writeTemplate lines) := by
  refine keepsTo_get fun m _ => keepsTo_ite ?_ (keepsTo_pure _)
  refine keepsTo_bind (keepsTo_forIn lines fun line => ?_) fun _ => keepsTo_pure _
  exact keepsTo_bind (keepsTo_writeLine fun m => hS m _) fun _ => keepsTo_pure _

structure Carries (m m' : Machine) : Prop where
  reliable : m.outlet.Reliable → m'.outlet.Reliable
  profile : m'.profile = m.profile

theorem Course.carries (h : Course S m m') : Carries m m' := ⟨h.reliable, h.profile⟩

theorem Carries.trans {m'' : Machine} (h : Carries m m') (h' : Carries m' m'') : Carries m m'' :=
  ⟨h'.reliable ∘ h.reliable, h'.profile.trans h.profile⟩

theorem underway_succ (h : (runFrom .never i turns src m (k + 1)).Underway) :
    ∃ c notes src' m', src.next (fun _ => false) = ((.command c, notes), src') ∧
      (dispatch c).run (m.addNotes notes) = .ok () m' ∧
      runFrom .never i turns src m (k + 1) =
        runFrom .never (i + 1) (m.turn (some c) :: turns) src' m' k := by
  rw [runFrom_never] at h ⊢
  have hended {a : Action Unit} {m' : Machine} (h : (after (m.turn none :: turns) a m').Underway) :
      False := by
    have hlast := h.answered (m.turn none) (by rw [after_turns]; exact List.mem_cons_self)
    cases hlast
  generalize src.next (fun _ => false) = answer at h ⊢
  obtain ⟨⟨reply, notes⟩, src'⟩ := answer
  cases reply with
  | ended => exact (hended h).elim
  | cancelled => exact (hended h).elim
  | failed f => cases h.unstopped
  | command c =>
    dsimp only at h ⊢
    cases hr : (dispatch c).run (m.addNotes notes) with
    | error e m' =>
      rw [hr] at h
      cases h.unstopped
    | ok _ m' => exact ⟨c, notes, src', m', rfl, hr, rfl⟩

theorem underway_carries (h : (runFrom .never i turns src m k).Underway) :
    Carries m (runFrom .never i turns src m k).machine ∧
      (src.asked k).remaining + k ≤ src.remaining := by
  induction k generalizing i turns src m with
  | zero => exact ⟨⟨id, rfl⟩, le_rfl⟩
  | succ k ih =>
    obtain ⟨c, notes, src', m', hnext, hdispatch, hrun⟩ := underway_succ h
    rw [hrun] at h ⊢
    obtain ⟨hkept, hleft⟩ := ih h
    have hstep : Step c m m' := ⟨notes, hdispatch⟩
    have hless := Source.remaining_next hnext
    refine ⟨hstep.course.carries.trans hkept, ?_⟩
    rw [Source.asked_succ hnext]
    omega

theorem runFrom_command (fuel : Nat) {notes : List Note} {src' : Source}
    (hbefore : halt.before i = false)
    (hnext : src.next (halt.reading i) = ((.command c, notes), src'))
    (hdispatch : (dispatch c).run (m.addNotes notes) = .ok () m') :
    runFrom halt i turns src m (fuel + 1) =
      runFrom halt (i + 1) (m.turn (some c) :: turns) src' m' fuel := by
  rw [runFrom, hbefore, if_neg Bool.false_ne_true, hnext]
  dsimp only
  rw [hdispatch]

theorem runFrom_silent (fuel : Nat) (h : (runFrom .never i turns src m k).Underway)
    (hbefore : ∀ j < k, halt.before (i + j) = false)
    (hreading : ∀ j < k, ((src.asked j).next (halt.reading (i + j))).1.1 ≠ .cancelled) :
    runFrom halt i turns src m (k + fuel) =
      runFrom halt (i + k) (runFrom .never i turns src m k).turns (src.asked k)
        (runFrom .never i turns src m k).machine fuel := by
  induction k generalizing i turns src m with
  | zero =>
    rw [Nat.zero_add]
    rfl
  | succ k ih =>
    obtain ⟨c, notes, src', m', hnext, hdispatch, hrun⟩ := underway_succ h
    have hquiet : halt.before i = false := hbefore 0 (Nat.succ_pos k)
    have hsame : src.next (halt.reading i) = src.next fun _ => false :=
      Source.next_of_ne_cancelled (hreading 0 (Nat.succ_pos k))
    rw [hrun] at h ⊢
    rw [Nat.add_right_comm, runFrom_command _ hquiet (hsame.trans hnext) hdispatch,
      Source.asked_succ hnext, Nat.add_comm k 1, ← Nat.add_assoc]
    apply ih h
    · intro j hj
      rw [Nat.add_assoc, Nat.add_comm 1]
      exact hbefore (j + 1) (Nat.succ_lt_succ hj)
    · intro j hj
      rw [Nat.add_assoc, Nat.add_comm 1, ← Source.asked_succ hnext]
      exact hreading (j + 1) (Nat.succ_lt_succ hj)

theorem runFrom_told (fuel : Nat) (turns : List Turn) (m : Machine)
    (h : halt.before i = true ∨ (src.next (halt.reading i)).1.1 = .cancelled) :
    ∃ turns' notes, runFrom halt i turns src m (fuel + 1) =
      after turns' (cancel (halt.causeAt i)) (m.addNotes notes) := by
  rw [runFrom, Cancellation.causeAt]
  cases hbefore : halt.before i with
  | true => exact ⟨turns, [], rfl⟩
  | false =>
    rw [hbefore] at h
    have hreply := h.resolve_left Bool.false_ne_true
    generalize src.next (halt.reading i) = answer at hreply ⊢
    obtain ⟨⟨reply, notes⟩, src'⟩ := answer
    obtain rfl : reply = .cancelled := hreply
    exact ⟨m.turn none :: turns, notes, rfl⟩

theorem flush_run (hm : m.outlet.Reliable) :
    flush.run m = .ok () { m with outlet := m.outlet.flush.2 } := by
  have htaken := hm.flush.1
  rw [flush, EStateM.run_bind, EStateM.run_get]
  dsimp only
  rw [htaken]
  rfl

theorem cancel_run (hm : m.outlet.Reliable) (cause : Text) :
    ∃ log, (cancel cause).run m = .error (.failure (.runCancelled cause))
      { m with outlet := m.outlet.cutBy m.profile.cancelMarker, log } := by
  let ending : Action Unit := do
    flush
    fail (.runCancelled cause)
  have hending {m : Machine} (hm : m.outlet.Reliable) : ending.run m =
      .error (.failure (.runCancelled cause)) { m with outlet := m.outlet.flush.2 } := by
    rw [EStateM.run_bind, flush_run hm]
    rfl
  let details : List (Text × Detail) :=
    [("commands", .integer m.stats.commands), ("cause", .text cause)]
  let noted : Machine :=
    { m with log := ⟨.warning, "processing cancelled", m.subject ++ details⟩ :: m.log }
  have hnoted : (cancel cause).run m = (if !m.profile.cancelMarker.isEmpty then
      (do writeLine m.profile.cancelMarker; ending) else ending : Action Unit).run noted := rfl
  refine ⟨noted.log, ?_⟩
  rw [hnoted, Outlet.cutBy]
  by_cases hmarker : m.profile.cancelMarker = []
  · rw [hmarker, if_pos rfl]
    exact hending hm
  · obtain ⟨htaken, hwritten⟩ := hm.writeLine m.profile.cancelMarker
    rw [if_neg hmarker, if_pos (by simpa using hmarker), EStateM.run_bind, writeLine_run, htaken]
    exact hending hwritten

/-- What a run has come to when its source was asked `k` times; `run` asks it as long as it
has commands. -/
def runFor (m : Machine) (src : Source) (halt : Cancellation) (k : Nat) : Transcript :=
  match (writeTemplate m.profile.templates.header).run m with
  | .error e m => ⟨[], some e, m⟩
  | .ok _ m => runFrom halt 0 [] src m k

theorem run_eq_runFor (m : Machine) (src : Source) (halt : Cancellation) :
    m.run src halt = m.runFor src halt (src.bound + 1) := rfl

theorem underway_runFor (h : (m.runFor src .never k).Underway) :
    ∃ m', Carries m m' ∧ (∀ halt n, m.runFor src halt n = runFrom halt 0 [] src m' n) := by
  unfold runFor at h ⊢
  cases hheader : (writeTemplate m.profile.templates.header).run m with
  | error e m' =>
    rw [hheader] at h
    cases h.unstopped
  | ok u m' =>
    have hcourse := keepsTo_writeTemplate (S := fun _ _ => True) (fun _ _ => trivial)
      m.profile.templates.header m rfl u m' hheader
    exact ⟨m', hcourse.carries, fun _ _ => rfl⟩

theorem runFor_carries (h : (m.runFor src .never k).Underway) :
    Carries m (m.runFor src .never k).machine ∧ k ≤ src.bound := by
  obtain ⟨m', hheader, hrun⟩ := underway_runFor h
  rw [hrun] at h ⊢
  obtain ⟨hkept, hleft⟩ := underway_carries h
  have hbound := src.remaining_le_bound
  exact ⟨hheader.trans hkept, by omega⟩

theorem run_silent (h : (m.runFor src .never k).Underway) (hsilent : ∀ i < k, ¬ halt.Tells src i) :
    m.run src halt = runFrom halt k (m.runFor src .never k).turns (src.asked k)
      (m.runFor src .never k).machine (src.bound + 1 - k) := by
  have hbound := (runFor_carries h).2
  have hfuel : src.bound + 1 = k + (src.bound + 1 - k) := by omega
  obtain ⟨m', -, hrun⟩ := underway_runFor h
  rw [hrun] at h ⊢
  rw [run_eq_runFor, hrun]
  nth_rewrite 1 [hfuel]
  rw [runFrom_silent _ h, Nat.zero_add]
  · intro i hi
    rw [Nat.zero_add]
    exact Bool.eq_false_iff.mpr fun hbefore => hsilent i hi (.inl hbefore)
  · intro i hi hreading
    rw [Nat.zero_add] at hreading
    exact hsilent i hi (.inr hreading)

theorem never_tells (src : Source) (i : Nat) : ¬ Cancellation.never.Tells src i := by
  rintro (h | h)
  · cases h
  · exact (src.asked i).next_ne_cancelled h

/-- A run that carried out `k` commands and then learns that it is told to stop, and whose outlet
takes every line, has the lines that the run has written by then when no one tells it to stop, and
the cancel marker behind them, if that is not empty. It says that it was cancelled, and with the
reason that it was stopped just when it has learnt so itself or no other reason was given. -/
theorem cancelled_run_cut (hm : m.outlet.Reliable) (hcarried : (m.runFor src .never k).Underway)
    (htold : halt.FirstTells src k) :
    let whole := m.runFor src .never k
    let cut := m.run src halt
    m.run src .never = runFrom .never k whole.turns (src.asked k) whole.machine
      (src.bound + 1 - k) ∧ cut.machine.outlet.lines =
        whole.machine.outlet.lines ++ [m.profile.cancelMarker].filter (· ≠ []) ∧
      (∀ s, cut.machine.outlet.onward = some s →
        s.buffer = [] ∧ cut.machine.outlet.flushes = whole.machine.outlet.flushes + 1) ∧
      ∃ cause, cut.stop = some (.failure (.runCancelled cause)) ∧
        (cause = Failure.stopped ↔ halt.before k = true ∨ halt.cause = Failure.stopped) := by
  intro whole cut
  obtain ⟨hkept, hbound⟩ := runFor_carries hcarried
  have hreliable : whole.machine.outlet.Reliable := hkept.reliable hm
  have hgoes : cut = runFrom halt k whole.turns (src.asked k) whole.machine
      (src.bound - k + 1) := by
    rw [← Nat.sub_add_comm hbound]
    exact run_silent hcarried htold.silent
  obtain ⟨turns, notes, hended⟩ :=
    runFrom_told (src.bound - k) whole.turns whole.machine htold.tells
  have hstart : (whole.machine.addNotes notes).outlet.Reliable := hreliable
  obtain ⟨log, hcancel⟩ := cancel_run hstart (halt.causeAt k)
  have hmachine : cut.machine.outlet = whole.machine.outlet.cutBy m.profile.cancelMarker := by
    rw [hgoes, hended, after, hcancel, ← hkept.profile]
    rfl
  have hstop : cut.stop = some (.failure (.runCancelled (halt.causeAt k))) := by
    rw [hgoes, hended, after, hcancel]
  refine ⟨run_silent hcarried fun i _ => never_tells src i, ?_, fun s hs => ?_,
    halt.causeAt k, hstop, halt.causeAt_eq_stopped_iff k⟩
  · rw [hmachine]
    exact hreliable.cutBy_lines _
  · rw [hmachine] at hs ⊢
    exact hreliable.cutBy_flushed _ hs

set_option maxRecDepth 100000 in
/-- The source learns of it between the two lines of the second statement. -/
theorem cancelled_run_cut_inside_statement :
    let src : Source := .program (Lexer.ofText "GOTO/1,2,3\nGOTO/4,$\n5,6\nFINI\n")
    let halt : Cancellation := { reading := fun i j => i = 1 && j = 1 }
    ∃ m, Opens { templates := { header := ["%"] } } m ∧ m.outlet.Reliable ∧
      (m.runFor src .never 1).Underway ∧ halt.FirstTells src 1 ∧
      (m.run src halt).machine.outlet.lines =
        (["%", "N10 G1 X0001.0 Y0002.0 Z0003.0", "(PROCESSING CANCELLED BY USER)"] : List Text) ∧
      (m.run src halt).stop = some (.failure (.runCancelled Failure.stopped)) := by
  intro src halt
  obtain ⟨m, hopens, hreliable, -, hcheck⟩ :=
    exists_opens_of_inspect (p := { templates := { header := ["%"] } }) false
      (fun m => decide ((m.runFor src .never 1).Underway ∧
        (m.runFor src .never 1).machine.outlet.lines =
          (["%", "N10 G1 X0001.0 Y0002.0 Z0003.0"] : List Text))) (by decide +kernel)
  obtain ⟨hunderway, hwritten⟩ := of_decide_eq_true hcheck
  have htold : halt.FirstTells src 1 := by decide +kernel
  obtain ⟨-, hlines, -, cause, hstop, hcause⟩ := cancelled_run_cut hreliable hunderway htold
  have hmarker : m.profile.cancelMarker = "(PROCESSING CANCELLED BY USER)" := by
    rw [hopens.fresh.profile]
  refine ⟨m, hopens, hreliable, hunderway, htold, ?_, ?_⟩
  · rw [hlines, hwritten, hmarker]
    rfl
  · rw [hstop, hcause.mpr (.inr rfl)]

set_option maxRecDepth 100000 in
/-- A run that is given a reason for the stop does not say that it was stopped, but the
reason, when its source is the one to learn of it. -/
theorem cancelled_read_gives_cause :
    let src : Source := .program (Lexer.ofText "GOTO/1,2,3\nGOTO/4,5,6\n")
    let halt : Cancellation := { reading := fun i _ => i = 1, cause := "operator stop" }
    ∃ m, Opens {} m ∧ m.outlet.Reliable ∧ (m.runFor src .never 1).Underway ∧ halt.FirstTells src 1 ∧
      (m.run src halt).stop = some (.failure (.runCancelled "operator stop")) ∧
      (m.run src halt).stop ≠ some (.failure (.runCancelled Failure.stopped)) := by
  intro src halt
  obtain ⟨m, hopens, hreliable, -, hcheck⟩ := exists_opens_of_inspect (p := {}) false
    (fun m => decide ((m.runFor src .never 1).Underway ∧
      (m.run src halt).stop = some (.failure (.runCancelled "operator stop")))) (by decide +kernel)
  obtain ⟨hunderway, hstop⟩ := of_decide_eq_true hcheck
  refine ⟨m, hopens, hreliable, hunderway, by decide +kernel, hstop, ?_⟩
  rw [hstop]
  decide

end Machine
end Toolpath
