import Toolpath.Proofs.ReliableOutlets

/-!
# Nothing is lost between the lines and the tape

The tape has taken a beginning of what was written, and the buffer holds what comes next. Every
step of a sink keeps this. A sink that broke takes and counts nothing more, so what it has
counted stays a beginning of what was written.
-/

namespace Toolpath

namespace Tape

variable (p : Tape) (t : Text)

theorem write_taken (h : p.refuses p.writes = false) :
    p.write t = (true, { p with writes := p.writes + 1, taken := t :: p.taken }) := by
  rw [write, h]
  rfl

theorem write_refused (h : p.refuses p.writes = true) :
    p.write t = (false, { p with writes := p.writes + 1 }) := by
  rw [write, if_pos h]

end Tape

namespace LineSink

variable {s s' s'' : LineSink} {t u : Text}

def collected (s : LineSink) : Text := s.tape.contents ++ s.buffer

structure SameUse (s s' : LineSink) : Prop where
  ending : s'.ending = s.ending
  lines : s'.lines = s.lines
  digested : s'.digested = s.digested

theorem SameUse.trans (h : SameUse s s') (h' : SameUse s' s'') : SameUse s s'' where
  ending := h'.ending.trans h.ending
  lines := h'.lines.trans h.lines
  digested := h'.digested.trans h.digested

/-- The sink counted the octets of a text that it got, and put them behind those it had. Only
a sink that is broken then may have got fewer than all of them. -/
structure Took (s : LineSink) (t : Text) (s' : LineSink) : Prop where
  counted : ∃ k ≤ t.length, s'.bytes = s.bytes + k ∧ s'.collected = s.collected ++ t.take k ∧
    (s'.broken = none → k = t.length)
  bounded : s'.buffer.length ≤ capacity
  same : SameUse s s'

namespace Took

theorem whole (hbytes : s'.bytes = s.bytes + t.length)
    (hcollected : s'.collected = s.collected ++ t)
    (hbounded : s'.buffer.length ≤ capacity) (hsame : SameUse s s') : Took s t s' where
  counted := ⟨t.length, Nat.le_refl _, hbytes, by rw [hcollected, List.take_length], fun _ => rfl⟩
  bounded := hbounded
  same := hsame

theorem nothing (hbroken : s'.broken ≠ none) (hbytes : s'.bytes = s.bytes)
    (hcollected : s'.collected = s.collected) (hbounded : s'.buffer.length ≤ capacity)
    (hsame : SameUse s s') : Took s t s' where
  counted := ⟨0, Nat.zero_le _, hbytes, by simp [hcollected], fun h => absurd h hbroken⟩
  bounded := hbounded
  same := hsame

theorem append (h : Took s t s') (hs : s'.broken = none) (h' : Took s' u s'') :
    Took s (t ++ u) s'' where
  counted := by
    obtain ⟨k, -, hbytes, hcollected, hall⟩ := h.counted
    obtain ⟨j, hj, hbytes', hcollected', hall'⟩ := h'.counted
    obtain rfl := hall hs
    refine ⟨t.length + j, ?_, ?_, ?_, ?_⟩
    · rw [List.length_append]
      omega
    · rw [hbytes', hbytes, Nat.add_assoc]
    · rw [hcollected', hcollected, List.take_length, List.append_assoc, List.take_length_add_append]
    · intro hbroken
      rw [hall' hbroken, List.length_append]
  bounded := h'.bounded
  same := h.same.trans h'.same

theorem append_broken (h : Took s t s') (hs : s'.broken ≠ none) : Took s (t ++ u) s' where
  counted := by
    obtain ⟨k, hk, hbytes, hcollected, -⟩ := h.counted
    refine ⟨k, ?_, hbytes, ?_, fun hbroken => absurd hbroken hs⟩
    · rw [List.length_append]
      omega
    · rw [hcollected, List.take_append_of_le_length hk]
  bounded := h.bounded
  same := h.same

end Took

theorem drain_broken (h : s.broken ≠ none) : s.drain = s := by
  rw [drain, Option.isSome_iff_ne_none.mpr h]
  rfl

theorem took_drain (h : s.buffer.length ≤ capacity) : Took s [] s.drain := by
  unfold drain
  split
  · exact .whole rfl (by simp) h ⟨rfl, rfl, rfl⟩
  · cases hrefuses : s.tape.refuses s.tape.writes with
    | false =>
      rw [Tape.write_taken _ _ hrefuses]
      refine .whole rfl ?_ (Nat.zero_le _) ⟨rfl, rfl, rfl⟩
      simp [collected, Tape.contents]
    | true =>
      rw [Tape.write_refused _ _ hrefuses]
      exact .nothing (by simp) rfl rfl h ⟨rfl, rfl, rfl⟩

theorem buffer_drain (h : s.drain.broken = none) : s.drain.buffer = [] := by
  unfold drain at h ⊢
  split at h
  next hs =>
    rw [if_pos hs]
    simpa [h] using hs
  next hs =>
    rw [if_neg hs]
    cases hrefuses : s.tape.refuses s.tape.writes with
    | false => rw [Tape.write_taken _ _ hrefuses]
    | true => simp [Tape.write_refused _ _ hrefuses] at h

theorem took_forward (hempty : s.buffer = []) (t : Text) : Took s t (s.forward t) := by
  have hbounded : s.buffer.length ≤ capacity := by simp [hempty]
  unfold forward
  cases hrefuses : s.tape.refuses s.tape.writes with
  | false =>
    rw [Tape.write_taken _ _ hrefuses]
    refine .whole rfl ?_ hbounded ⟨rfl, rfl, rfl⟩
    simp [collected, Tape.contents, hempty]
  | true =>
    rw [Tape.write_refused _ _ hrefuses]
    exact .nothing (by simp) rfl rfl hbounded ⟨rfl, rfl, rfl⟩

theorem took_buffer (h : s.buffer.length + t.length ≤ capacity) :
    Took s t { s with buffer := s.buffer ++ t, bytes := s.bytes + t.length } := by
  refine .whole rfl ?_ ?_ ⟨rfl, rfl, rfl⟩
  · simp [collected]
  · rwa [List.length_append]

theorem copy_broken (h : s.broken ≠ none) (t : Text) (fuel : Nat) : s.copy t fuel = s := by
  cases fuel with
  | zero => rfl
  | succ fuel => simp [copy, Option.isSome_iff_ne_none.mpr h]

theorem took_copy {fuel : Nat} (hs : s.broken = none) (hbounded : s.buffer.length ≤ capacity)
    (hpos : 0 < fuel) (hfuel : t.length + (if s.buffer = [] then 0 else 1) ≤ fuel) :
    Took s t (s.copy t fuel) := by
  -- a round copies nothing only into a full buffer, which is empty in the next one
  induction fuel generalizing s t with
  | zero => omega
  | succ fuel ih =>
    unfold copy
    dsimp only
    rw [if_neg (by simp [hs])]
    by_cases hfits : t.length ≤ capacity - s.buffer.length
    · rw [if_pos hfits]
      exact took_buffer (by omega)
    rw [if_neg hfits]
    by_cases hdirect : (s.buffer.isEmpty && s.tape.takesTexts) = true
    · rw [if_pos hdirect]
      exact took_forward (by simpa using (Bool.and_eq_true_iff.mp hdirect).1) t
    rw [if_neg hdirect]
    generalize hfree : capacity - s.buffer.length = free at hfits ⊢
    have htake : (t.take free).length = free := by
      rw [List.length_take]
      omega
    have hfilled := took_buffer (s := s) (t := t.take free) (by omega)
    rw [htake] at hfilled
    have hdrained := hfilled.append hs (took_drain hfilled.bounded)
    have hempty :=
      buffer_drain (s := { s with buffer := s.buffer ++ t.take free, bytes := s.bytes + free })
    rw [List.append_nil] at hdrained
    have hwhole : t.take free ++ t.drop free = t := List.take_append_drop free t
    generalize drain _ = drained at hdrained hempty ⊢
    by_cases hb : drained.broken = none
    · have hrest : (t.drop free).length = t.length - free := List.length_drop
      have hcapacity : 0 < capacity := by decide
      have hround : 0 < fuel ∧ t.length - free ≤ fuel := by
        split at hfuel
        next hs => simp only [hs, List.length_nil] at hfree; omega
        next => omega
      have := hdrained.append hb
        (ih (t := t.drop free) hb hdrained.bounded hround.1 (by rw [if_pos (hempty hb)]; omega))
      rwa [hwhole] at this
    · rw [copy_broken hb]
      have := hdrained.append_broken (u := t.drop free) hb
      rwa [hwhole] at this

/-! ## Calls -/

inductive Call
  | line (t : Text)
  | flush

namespace Call

def octets (ending : Text) : Call → Text
  | line t => t ++ ending
  | flush => []

def isLine : Call → Bool
  | line _ => true
  | flush => false

end Call

def perform (s : LineSink) : Call → Option SinkError × LineSink
  | .line t => s.writeLine t
  | .flush => s.flush

/-- Calls made one after another: each with its answer, and the sink behind them. -/
def performAll (s : LineSink) : List Call → List (Call × Option SinkError) × LineSink
  | [] => ([], s)
  | c :: cs =>
    ((c, (s.perform c).1) :: ((s.perform c).2.performAll cs).1, ((s.perform c).2.performAll cs).2)

def passed (ending : Text) (log : List (Call × Option SinkError)) : Text :=
  (log.filter (·.2.isNone)).flatMap fun c => c.1.octets ending

theorem error?_eq_none_iff : s.error? = none ↔ s.broken = none := by
  rw [error?, Option.map_eq_none_iff]

def copied (s : LineSink) (t : Text) : LineSink :=
  copy { s with lines := s.lines + 1 } (t ++ s.ending) ((t ++ s.ending).length + 1)

theorem writeLine_eq (s : LineSink) (t : Text) :
    s.writeLine t = ((s.copied t).error?, if (s.copied t).broken = none
      then { s.copied t with digested := (t ++ s.ending) :: (s.copied t).digested }
      else s.copied t) := by
  unfold writeLine
  dsimp only
  rw [← copied]
  cases h : (s.copied t).error? with
  | none => rw [if_pos (error?_eq_none_iff.mp h)]
  | some e => rw [if_neg fun hs => by simp [error?_eq_none_iff.mpr hs] at h]

theorem took_copied (hs : s.broken = none) (hbounded : s.buffer.length ≤ capacity) (t : Text) :
    Took { s with lines := s.lines + 1 } (t ++ s.ending) (s.copied t) := by
  refine took_copy hs hbounded (Nat.succ_pos _) ?_
  split <;> omega

theorem copied_broken (hs : s.broken ≠ none) (t : Text) :
    s.copied t = { s with lines := s.lines + 1 } :=
  copy_broken (s := { s with lines := s.lines + 1 }) hs _ _

/-- The sink has counted a beginning of a text, and has just that; a sink that is not broken
has all of the text. -/
structure Faithful (w : Text) (s : LineSink) : Prop where
  counted : s.bytes ≤ w.length
  collected : s.collected = w.take s.bytes
  complete : s.broken = none → s.bytes = w.length
  bounded : s.buffer.length ≤ capacity

namespace Faithful

variable {w : Text}

theorem took (h : Faithful w s) (hs : s.broken = none) (ht : Took s t s') :
    Faithful (w ++ t) s' := by
  obtain ⟨k, hk, hbytes, hcollected, hall⟩ := ht.counted
  have hw := h.complete hs
  refine ⟨?_, ?_, ?_, ht.bounded⟩
  · rw [hbytes, List.length_append]
    omega
  · rw [hcollected, h.collected, hbytes, hw, List.take_length, List.take_length_add_append]
  · intro hbroken
    rw [hbytes, hw, hall hbroken, List.length_append]

theorem of_broken (h : Faithful w s) (hs : s.broken ≠ none) : Faithful (w ++ t) s := by
  refine ⟨?_, ?_, fun hbroken => absurd hbroken hs, h.bounded⟩
  · rw [List.length_append]
    exact Nat.le_add_right_of_le h.counted
  · rw [h.collected, List.take_append_of_le_length h.counted]

theorem copied (h : Faithful w s) (t : Text) : Faithful (w ++ (t ++ s.ending)) (s.copied t) := by
  have hcounted : Faithful w { s with lines := s.lines + 1 } :=
    ⟨h.counted, h.collected, h.complete, h.bounded⟩
  by_cases hs : s.broken = none
  · exact hcounted.took hs (took_copied hs h.bounded t)
  · rw [copied_broken hs]
    exact hcounted.of_broken hs

theorem drain (h : Faithful w s) : Faithful w s.drain := by
  by_cases hs : s.broken = none
  · simpa using h.took hs (took_drain h.bounded)
  · rwa [drain_broken hs]

theorem perform (h : Faithful w s) (c : Call) :
    Faithful (w ++ c.octets s.ending) (s.perform c).2 := by
  cases c with
  | line t =>
    have hcopied := h.copied t
    rw [LineSink.perform, writeLine_eq]
    dsimp only
    split
    · exact ⟨hcopied.counted, hcopied.collected, hcopied.complete, hcopied.bounded⟩
    · exact hcopied
  | flush => simpa [LineSink.perform, flush, Call.octets] using h.drain

end Faithful

structure Performed (s : LineSink) (c : Call) (answer : Option SinkError) (s' : LineSink) :
    Prop where
  bounded : s'.buffer.length ≤ capacity
  lines : s'.lines = s.lines + if c.isLine then 1 else 0
  digested : s'.digested.reverse.flatten =
    s.digested.reverse.flatten ++ if answer.isNone then c.octets s.ending else []
  ending : s'.ending = s.ending
  answered : answer = none ↔ s'.broken = none
  stays : s.broken ≠ none → s'.broken ≠ none

theorem sameUse_copied (hbounded : s.buffer.length ≤ capacity) (t : Text) :
    SameUse { s with lines := s.lines + 1 } (s.copied t) ∧
    (s.copied t).buffer.length ≤ capacity := by
  by_cases hs : s.broken = none
  · exact ⟨(took_copied hs hbounded t).same, (took_copied hs hbounded t).bounded⟩
  · rw [copied_broken hs]
    exact ⟨⟨rfl, rfl, rfl⟩, hbounded⟩

theorem performed (hbounded : s.buffer.length ≤ capacity) (c : Call) :
    Performed s c (s.perform c).1 (s.perform c).2 := by
  cases c with
  | line t =>
    obtain ⟨hsame, hcopied⟩ := sameUse_copied hbounded t
    rw [perform, writeLine_eq]
    dsimp only
    by_cases hbroken : (s.copied t).broken = none
    · rw [if_pos hbroken, error?_eq_none_iff.mpr hbroken]
      refine ⟨hcopied, hsame.lines, ?_, hsame.ending, by simp [hbroken], fun hs => ?_⟩
      · simp [hsame.digested, Call.octets]
      · rw [copied_broken hs] at hbroken
        exact absurd hbroken hs
    · rw [if_neg hbroken]
      have herror : (s.copied t).error?.isNone = false := by
        rw [Option.isNone_eq_false_iff, Option.isSome_iff_ne_none]
        exact fun h => hbroken (error?_eq_none_iff.mp h)
      refine ⟨hcopied, hsame.lines, ?_, hsame.ending, error?_eq_none_iff, fun _ => hbroken⟩
      simp [herror, hsame.digested]
  | flush =>
    obtain ⟨-, hdrained, hsame⟩ := took_drain hbounded
    refine ⟨hdrained, hsame.lines, ?_, hsame.ending, error?_eq_none_iff, fun hs => ?_⟩
    · simp [perform, flush, hsame.digested, Call.octets]
    · rwa [perform, flush, drain_broken hs]

theorem Faithful.performAll {w : Text} (h : Faithful w s) (calls : List Call) :
    Faithful (w ++ calls.flatMap (·.octets s.ending)) (s.performAll calls).2 := by
  induction calls generalizing s w with
  | nil => simpa [LineSink.performAll] using h
  | cons c cs ih =>
    have hstep := ih (h.perform c)
    rw [(performed h.bounded c).ending, List.append_assoc] at hstep
    rw [List.flatMap_cons]
    exact hstep

theorem lines_performAll (hbounded : s.buffer.length ≤ capacity) (calls : List Call) :
    (s.performAll calls).2.lines = s.lines + calls.countP Call.isLine := by
  induction calls generalizing s with
  | nil => simp [performAll]
  | cons c cs ih =>
    have hstep := performed hbounded c
    rw [performAll, ih hstep.bounded, hstep.lines, List.countP_cons]
    omega

theorem digested_performAll (hbounded : s.buffer.length ≤ capacity) (calls : List Call) :
    (s.performAll calls).2.digested.reverse.flatten =
      s.digested.reverse.flatten ++ passed s.ending (s.performAll calls).1 := by
  induction calls generalizing s with
  | nil => simp [performAll, passed]
  | cons c cs ih =>
    have hstep := performed hbounded c
    rw [performAll, ih hstep.bounded, hstep.digested, hstep.ending, List.append_assoc]
    cases (s.perform c).1 <;> simp [passed]

theorem answers_of_broken (hbounded : s.buffer.length ≤ capacity) (hs : s.broken ≠ none)
    (calls : List Call) : ∀ c ∈ (s.performAll calls).1, c.2 ≠ none := by
  induction calls generalizing s with
  | nil => simp [performAll]
  | cons c cs ih =>
    have hstep := performed hbounded c
    have hbroken := hstep.stays hs
    rw [performAll, List.forall_mem_cons]
    exact ⟨fun h => hbroken (hstep.answered.mp h), ih hstep.bounded hbroken⟩

theorem answers_pairwise (hbounded : s.buffer.length ≤ capacity) (calls : List Call) :
    (s.performAll calls).1.Pairwise fun earlier later => earlier.2 ≠ none → later.2 ≠ none := by
  induction calls generalizing s with
  | nil => simp [performAll]
  | cons c cs ih =>
    have hstep := performed hbounded c
    rw [performAll, List.pairwise_cons]
    refine ⟨fun later hlater hfailed => ?_, ih hstep.bounded⟩
    have hbroken : (s.perform c).2.broken ≠ none := fun h => hfailed (hstep.answered.mpr h)
    exact answers_of_broken hstep.bounded hbroken cs later hlater

theorem Reliable.performAll (h : s.Reliable) (calls : List Call) :
    (∀ c ∈ (s.performAll calls).1, c.2 = none) ∧ (s.performAll calls).2.Reliable := by
  induction calls generalizing s with
  | nil => exact ⟨by simp [LineSink.performAll], h⟩
  | cons c cs ih =>
    have hstep : (s.perform c).1 = none ∧ (s.perform c).2.Reliable := by
      cases c with
      | line t => exact h.writeLine t
      | flush => exact ⟨h.drain.error?, h.drain⟩
    rw [LineSink.performAll, List.forall_mem_cons]
    exact ⟨⟨hstep.1, (ih hstep.2).1⟩, (ih hstep.2).2⟩

theorem contents_flush {w : Text} (h : Faithful w s) (hflush : s.flush.1 = none) :
    s.flush.2.tape.contents = w := by
  have hbroken : s.drain.broken = none := error?_eq_none_iff.mp hflush
  have hdrained := h.drain
  have hcollected := hdrained.collected
  rw [hdrained.complete hbroken, List.take_length, LineSink.collected, buffer_drain hbroken,
    List.append_nil] at hcollected
  exact hcollected

def opened (refuses : Nat → Bool) (reason : Text) (takesTexts : Bool) (ending : Text) :
    LineSink :=
  { tape := { refuses, reason, takesTexts }, ending }

theorem faithful_opened (refuses : Nat → Bool) (reason : Text) (takesTexts : Bool)
    (ending : Text) : Faithful [] (opened refuses reason takesTexts ending) where
  counted := Nat.zero_le _
  collected := rfl
  complete := fun _ => rfl
  bounded := Nat.zero_le _

/-- Whatever is asked of a sink, and whichever writes its tape refuses: the tape and the buffer
together hold the octets that were counted, a beginning of all the lines with their endings; every
line is counted, the digest is that of the lines that were written without an error, a failure is
followed by failures only, and a flush that succeeds brings all lines to the tape. -/
theorem nothing_lost_or_reordered (refuses : Nat → Bool) (reason : Text) (takesTexts : Bool)
    (ending : Text) (calls : List Call) :
    let log := ((opened refuses reason takesTexts ending).performAll calls).1
    let sink := ((opened refuses reason takesTexts ending).performAll calls).2
    let whole := calls.flatMap (·.octets ending)
    sink.tape.contents ++ sink.buffer = whole.take sink.bytes ∧ sink.bytes ≤ whole.length ∧
      sink.lines = calls.countP Call.isLine ∧
      sink.digest = Digest.blake2b (passed ending log) ∧
      (log.Pairwise fun earlier later => earlier.2 ≠ none → later.2 ≠ none) ∧
      (sink.flush.1 = none → sink.flush.2.tape.contents = whole) ∧
      ((∀ i, refuses i = false) → (∀ c ∈ log, c.2 = none) ∧ sink.flush.1 = none) := by
  have hopened := faithful_opened refuses reason takesTexts ending
  have hrun := hopened.performAll calls
  rw [List.nil_append] at hrun
  refine ⟨hrun.collected, hrun.counted, ?_, ?_, ?_, contents_flush hrun, fun htakes => ?_⟩
  · rw [lines_performAll hopened.bounded]
    exact Nat.zero_add _
  · rw [digest, digested_performAll hopened.bounded]
    rfl
  · exact answers_pairwise hopened.bounded calls
  · have hreliable : (opened refuses reason takesTexts ending).Reliable := ⟨rfl, htakes⟩
    obtain ⟨hanswers, hsink⟩ := hreliable.performAll calls
    exact ⟨hanswers, hsink.drain.error?⟩

example :
    let run := (opened (fun i => 1 ≤ i) "disk full" false .lf).performAll
      [.line "G0", .flush, .line "M30", .flush, .line "%"]
    run.1.map (·.2.isNone) = [true, true, true, false, false] ∧
      run.2.tape.contents = "G0\n" ∧ run.2.buffer = "M30\n" ∧
      run.2.lines = 3 ∧ run.2.bytes = 7 := by
  decide

end LineSink
end Toolpath
