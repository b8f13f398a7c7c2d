import Mathlib.Data.List.Nodup
import Toolpath.Proofs.SharedWords

/-!
# Sessions with a block writer

A writer is used together with words that change between its blocks. After any history of
operations the next block is told by the words as they are then, and the numbered lines of the
history carry the numbers of the counter one after another, whatever lines stand between them.
-/

namespace Toolpath

open BlockWriter (pushedTokens flaggedTokens)

namespace Numbering

def stride (n : Numbering) : Int64 := if n.step = 0 then 10 else n.step

def value (n : Numbering) (k : Nat) : Int64 := .ofInt (n.start.toInt + k * n.stride.toInt)

def label (n : Numbering) (k : Nat) : Text := n.address ++ Text.ofInt (n.value k).toInt

def counter (n : Numbering) (k : Nat) : Counter :=
  { address := n.address, value := n.value k, start := n.start, step := n.stride }

theorem value_zero (n : Numbering) : n.value 0 = n.start := by simp [value]

theorem value_succ (n : Numbering) (k : Nat) : n.value (k + 1) = n.value k + n.stride := by
  rw [value, value, ← Int64.ofInt_toInt n.stride, ← Int64.ofInt_add, Int64.ofInt_toInt]
  rw [Int.natCast_add, Int.natCast_one, Int.add_mul, Int.one_mul, Int.add_assoc]

theorem render_counter (n : Numbering) (k : Nat) : (n.counter k).render = n.label k :=
  List.append_nil _

theorem increment_counter (n : Numbering) (k : Nat) :
    (n.counter k).increment = n.counter (k + 1) := by
  rw [counter, Counter.increment, counter, value_succ]

end Numbering

namespace BlockWriter

variable {w : BlockWriter} {rack : Rack} {n : Numbering} {k : Nat}

theorem number_new (n : Numbering) (separator : Text) (comments : CommentStyle) :
    (new n separator comments).number = n.counter 0 := by
  rw [Numbering.counter, Numbering.value_zero]
  rfl

theorem takeNumber_counter (h : w.number = n.counter k) :
    w.takeNumber = (n.label k, { w with number := n.counter (k + 1) }) := by
  have htoken : (Word.counter w.number).token = (n.label k, .counter (n.counter (k + 1))) := by
    rw [h, ← n.render_counter, ← n.increment_counter]
    rfl
  rw [takeNumber, htoken]

theorem numberLine_counter (hnumbered : w.numbered = true) (h : w.number = n.counter k) :
    w.numberLine = (some (n.label k), { w with
      number := n.counter (k + 1), written := { number := some (n.label k) } :: w.written }) := by
  simp [numberLine, hnumbered, takeNumber_counter h]

theorem assemble_plain {b : Bool} (hdue : w.due rack ≠ []) (h : (b && w.numbered) = false) :
    w.assemble rack b = (some (Block.line w.separator ⟨none, w.due rack⟩),
      { w with pending := [], written := ⟨none, w.due rack⟩ :: w.written }, w.spent rack) := by
  simp only [due] at hdue ⊢
  simp only [assemble, List.isEmpty_iff, hdue, if_false, h, spent, Bool.false_eq_true]

theorem assemble_counter {b : Bool} (hdue : w.due rack ≠ []) (h : (b && w.numbered) = true)
    (hnumber : w.number = n.counter k) :
    w.assemble rack b = (some (Block.line w.separator ⟨some (n.label k), w.due rack⟩),
      { w with pending := [], number := n.counter (k + 1),
               written := ⟨some (n.label k), w.due rack⟩ :: w.written }, w.spent rack) := by
  have htake := takeNumber_counter (w := { w with pending := [] }) hnumber
  simp only [due] at hdue ⊢
  simp only [assemble, List.isEmpty_iff, hdue, if_false, h, spent, htake, if_true]

end BlockWriter

/-! ## Sessions -/

/-- What a writer and the words around it are asked to do. Words are changed by flagging them, by
replacing them with what an update makes of them, and by adding new ones. -/
inductive Operation
  | track (ref : WordRef)
  | untrack (refs : List WordRef)
  | push (ref : WordRef)
  | flag (changed : Bool) (refs : List WordRef)
  | resetAll
  | block (withNumber : Bool)
  | numberOnly
  | line (text : Text)
  | comment (text : Text)
  | update (ref : WordRef) (w : Word)
  | add (w : Word)
  | register (name : Text) (initial : Float) (modal : Bool) (format : NumberFormat)

def Operation.isNumbered : Operation → Bool
  | block withNumber => withNumber
  | numberOnly => true
  | _ => false

/-- A writer, the words it is used with, and a sink that takes every line. -/
structure WriterSession where
  writer : BlockWriter
  rack : Rack := {}
  sink : MemorySink := {}

namespace WriterSession

def opened (n : Numbering) (separator : Text) (comments : CommentStyle) : WriterSession :=
  { writer := .new n separator comments }

def word? (s : WriterSession) (ref : WordRef) : Option WordRef :=
  if ref.IsNormal ∧ (s.rack.get? ref).isSome then some ref else none

def send (s : WriterSession) : Option Text → Option Text × WriterSession
  | some line => (some line, { s with sink := (s.sink.writeLine line).2 })
  | none => (none, s)

/-- The session that a change of the writer leads to; what is refused changes nothing. -/
def withWriter (s : WriterSession) : Except Violation BlockWriter → WriterSession
  | .ok writer => { s with writer }
  | .error _ => s

def perform (s : WriterSession) : Operation → Option Text × WriterSession
  | .track ref => (none, s.withWriter (s.writer.track (s.word? ref)))
  | .untrack refs => (none, { s with writer := s.writer.untrack refs })
  | .push ref => (none, s.withWriter (s.writer.push (s.word? ref)))
  | .flag changed refs =>
    (none, { s with rack := refs.foldl (fun rack ref => rack.flag changed ref) s.rack })
  | .resetAll =>
    let (writer, rack) := s.writer.resetAll s.rack
    (none, { s with writer, rack })
  | .block withNumber =>
    let (line, writer, rack) := s.writer.assemble s.rack withNumber
    send { s with writer, rack } line
  | .numberOnly =>
    let (line, writer) := s.writer.numberLine
    send { s with writer } line
  | .line text => s.send (some text)
  | .comment text => s.send (some (s.writer.comment text))
  | .update ref w => (none, { s with rack := s.rack.set ref w })
  | .add w => (none, { s with rack := { s.rack with loose := s.rack.loose ++ [w] } })
  | .register name initial modal format =>
    match s.rack.registers.getOrAdd name initial modal format with
    | .ok registers => (none, { s with rack := { s.rack with registers } })
    | .error _ => (none, s)

def performAll (s : WriterSession) : List Operation → List (Operation × Option Text) × WriterSession
  | [] => ([], s)
  | op :: ops =>
    ((op, (s.perform op).1) :: ((s.perform op).2.performAll ops).1,
      ((s.perform op).2.performAll ops).2)

def tokens (s : WriterSession) : List Token :=
  (pushedTokens s.rack s.writer.pending ++
    flaggedTokens s.rack s.writer.pending s.writer.tracked).filter (!·.text.isEmpty)

def carriesNumber (entry : Operation × Option Text) : Bool := entry.1.isNumbered && entry.2.isSome

variable {n : Numbering} {separator : Text} {comments : CommentStyle} {k : Nat} {s : WriterSession}

/-- The session goes on with the writer it was opened with, `k` numbered lines later. -/
structure Kept (n : Numbering) (separator : Text) (comments : CommentStyle) (k : Nat)
    (s : WriterSession) : Prop where
  indexed : s.rack.registers.Indexed
  orderly : s.writer.Orderly
  number : n.enabled = true → s.writer.number = n.counter k
  numbered : s.writer.numbered = n.enabled
  separator : s.writer.separator = separator
  comments : s.writer.comments = comments
  takes : ∀ i, s.sink.refuses i = false

theorem kept_opened (n : Numbering) (separator : Text) (comments : CommentStyle) :
    Kept n separator comments 0 (opened n separator comments) where
  indexed := .empty
  orderly :=
    ⟨fun _ h => absurd h List.not_mem_nil, fun _ h => absurd h List.not_mem_nil, List.nodup_nil⟩
  number := fun _ => BlockWriter.number_new n separator comments
  numbered := rfl
  separator := rfl
  comments := rfl
  takes := fun _ => rfl

@[simp] theorem send_fst (s : WriterSession) (line : Option Text) : (s.send line).1 = line := by
  cases line <;> rfl

@[simp] theorem writer_send (s : WriterSession) (line : Option Text) :
    (s.send line).2.writer = s.writer := by
  cases line <;> rfl

@[simp] theorem rack_send (s : WriterSession) (line : Option Text) :
    (s.send line).2.rack = s.rack := by
  cases line <;> rfl

theorem lines_send (h : ∀ i, s.sink.refuses i = false) (line : Option Text) :
    (s.send line).2.sink.lines = s.sink.lines ++ line.toList := by
  cases line with
  | none => simp [send]
  | some t => simp [send, MemorySink.writeLine, h, MemorySink.lines]

theorem Kept.send (h : Kept n separator comments k s) (line : Option Text) :
    Kept n separator comments k (s.send line).2 := by
  cases line with
  | none => exact h
  | some t =>
    refine ⟨h.indexed, h.orderly, h.number, h.numbered, h.separator, h.comments, fun i => ?_⟩
    simp [WriterSession.send, MemorySink.writeLine, h.takes]

theorem Kept.withRack (h : Kept n separator comments k s) {rack : Rack}
    (hi : rack.registers.Indexed) : Kept n separator comments k { s with rack } :=
  ⟨hi, h.orderly, h.number, h.numbered, h.separator, h.comments, h.takes⟩

theorem Kept.due_eq_tokens (h : Kept n separator comments k s) : s.writer.due s.rack = s.tokens :=
  BlockWriter.due_eq h.indexed h.orderly

def blockLine (n : Numbering) (separator : Text) (k : Nat) (withNumber : Bool)
    (tokens : List Token) :
    Option Text :=
  if tokens = [] then none
  else some (Text.join separator
    ((if withNumber && n.enabled then [n.label k] else []) ++ tokens.map Token.text))

theorem perform_block (h : Kept n separator comments k s) (withNumber : Bool) :
    ∃ number written, s.perform (.block withNumber) =
        send { s with
          writer := { s.writer with pending := [], number, written }
          rack := s.writer.spent s.rack } (blockLine n separator k withNumber s.tokens) ∧
      (n.enabled = true → number = n.counter
        (k + if withNumber && (blockLine n separator k withNumber s.tokens).isSome then 1 else 0)) ∧
      (s.tokens = [] → number = s.writer.number) := by
  have hdue := h.due_eq_tokens
  have hperform : s.perform (.block withNumber) =
      send { s with writer := (s.writer.assemble s.rack withNumber).2.1
                    rack := (s.writer.assemble s.rack withNumber).2.2 }
        (s.writer.assemble s.rack withNumber).1 := rfl
  unfold blockLine
  by_cases htokens : s.tokens = []
  · rw [hperform, BlockWriter.assemble_none (hdue.trans htokens)]
    refine ⟨s.writer.number, s.writer.written, by simp [htokens], fun henabled => ?_, fun _ => rfl⟩
    simpa [htokens] using h.number henabled
  · have hne : s.writer.due s.rack ≠ [] := hdue ▸ htokens
    cases hnumber : withNumber && n.enabled with
    | false =>
      rw [hperform, BlockWriter.assemble_plain hne (h.numbered ▸ hnumber), hdue]
      refine ⟨s.writer.number, ⟨none, s.tokens⟩ :: s.writer.written, ?_, fun henabled => ?_,
        fun hnone => absurd hnone htokens⟩
      · simp [htokens, Block.line, h.separator]
      · have hplain : withNumber = false := by simpa [henabled] using hnumber
        simpa [hplain] using h.number henabled
    | true =>
      have henabled : n.enabled = true := (Bool.and_eq_true_iff.mp hnumber).2
      rw [hperform, BlockWriter.assemble_counter hne (h.numbered ▸ hnumber) (h.number henabled),
        hdue]
      refine ⟨n.counter (k + 1), ⟨some (n.label k), s.tokens⟩ :: s.writer.written, ?_, fun _ => ?_,
        fun hnone => absurd hnone htokens⟩
      · simp [htokens, Block.line, h.separator]
      · simp [htokens, (Bool.and_eq_true_iff.mp hnumber).1]

theorem perform_numberOnly (h : Kept n separator comments k s) :
    ∃ number written, s.perform .numberOnly =
        send { s with writer := { s.writer with number, written } }
          (if n.enabled then some (n.label k) else none) ∧
      (n.enabled = true → number = n.counter
        (k + if (if n.enabled then some (n.label k) else none).isSome then 1 else 0)) := by
  have hperform : s.perform .numberOnly =
      send { s with writer := s.writer.numberLine.2 } s.writer.numberLine.1 := rfl
  cases henabled : n.enabled with
  | false =>
    have hline : s.writer.numberLine = (none, s.writer) := by
      simp [BlockWriter.numberLine, h.numbered, henabled]
    rw [hperform, hline]
    exact ⟨s.writer.number, s.writer.written, rfl, fun h => by cases h⟩
  | true =>
    rw [hperform, BlockWriter.numberLine_counter (h.numbered.trans henabled) (h.number henabled)]
    exact ⟨n.counter (k + 1), _, rfl, fun _ => rfl⟩

theorem indexed_flagAll (b : Bool) (refs : List WordRef) {rack : Rack}
    (hi : rack.registers.Indexed) :
    (refs.foldl (fun rack ref => rack.flag b ref) rack).registers.Indexed := by
  induction refs generalizing rack with
  | nil => exact hi
  | cons ref refs ih => exact ih (Rack.indexed_change hi (Word.flagged b) ref)

theorem word?_isNormal {ref r : WordRef} (h : s.word? ref = some r) : r.IsNormal := by
  unfold word? at h
  rw [Option.ite_none_right_eq_some] at h
  obtain ⟨⟨hnormal, -⟩, hr⟩ := h
  exact Option.some.inj hr ▸ hnormal

theorem Kept.withLists (h : Kept n separator comments k s) {w : BlockWriter} (hw : w.Orderly)
    (hsame : w = { s.writer with tracked := w.tracked, pending := w.pending }) :
    Kept n separator comments k { s with writer := w } := by
  refine ⟨h.indexed, hw, ?_, ?_, ?_, ?_, h.takes⟩ <;> dsimp only <;> rw [hsame]
  · exact h.number
  · exact h.numbered
  · exact h.separator
  · exact h.comments

theorem Kept.track (h : Kept n separator comments k s) (ref : WordRef) :
    Kept n separator comments k (s.withWriter (s.writer.track (s.word? ref))) := by
  cases hword : s.word? ref with
  | none => exact h
  | some r =>
    by_cases hmem : r ∈ s.writer.tracked
    · have htrack : s.writer.track (some r) = .ok s.writer := by
        simp [BlockWriter.track, requirePresent, hmem, bind, Except.bind, pure, Except.pure]
      rw [htrack]
      exact h
    · have htrack : s.writer.track (some r) =
          .ok { s.writer with tracked := s.writer.tracked ++ [r] } := by
        simp [BlockWriter.track, requirePresent, hmem, bind, Except.bind, pure, Except.pure]
      rw [htrack]
      refine h.withLists ⟨h.orderly.pending, ?_, ?_⟩ rfl
      · intro r' hr'
        obtain hr' | hr' := List.mem_append.mp hr'
        · exact h.orderly.tracked r' hr'
        · obtain rfl := List.mem_singleton.mp hr'
          exact word?_isNormal hword
      · exact h.orderly.nodup.append (List.nodup_singleton r) (by simpa using hmem)

theorem Kept.push (h : Kept n separator comments k s) (ref : WordRef) :
    Kept n separator comments k (s.withWriter (s.writer.push (s.word? ref))) := by
  cases hword : s.word? ref with
  | none => exact h
  | some r =>
    refine h.withLists (w := s.writer.queue (.shared r)) ⟨?_, h.orderly.tracked,
      h.orderly.nodup⟩ rfl
    intro r' hr'
    obtain hr' | hr' := List.mem_append.mp hr'
    · exact h.orderly.pending r' hr'
    · cases List.mem_singleton.mp hr'
      exact word?_isNormal hword

theorem Kept.perform (h : Kept n separator comments k s) (op : Operation) :
    Kept n separator comments (k + if carriesNumber (op, (s.perform op).1) then 1 else 0)
      (s.perform op).2 := by
  cases op with
  | track ref => exact h.track ref
  | push ref => exact h.push ref
  | untrack refs =>
    exact h.withLists ⟨h.orderly.pending, fun r hr => h.orderly.tracked r (List.mem_filter.mp hr).1,
      h.orderly.nodup.filter _⟩ rfl
  | flag b refs => exact h.withRack (indexed_flagAll b refs h.indexed)
  | resetAll =>
    have hreset := h.withRack (indexed_flagAll false s.writer.tracked h.indexed)
    exact hreset.withLists ⟨by simp [BlockWriter.NormalQueue], h.orderly.tracked,
      h.orderly.nodup⟩ rfl
  | block withNumber =>
    obtain ⟨number, written, hperform, hnumber, -⟩ := perform_block h withNumber
    rw [hperform, send_fst]
    refine Kept.send ?_ _
    exact ⟨(BlockWriter.get?_spent h.indexed h.orderly).1,
      ⟨by simp [BlockWriter.NormalQueue], h.orderly.tracked, h.orderly.nodup⟩, hnumber, h.numbered,
      h.separator, h.comments, h.takes⟩
  | numberOnly =>
    obtain ⟨number, written, hperform, hnumber⟩ := perform_numberOnly h
    rw [hperform, send_fst]
    refine Kept.send ?_ _
    exact ⟨h.indexed, ⟨h.orderly.pending, h.orderly.tracked, h.orderly.nodup⟩, hnumber, h.numbered,
      h.separator, h.comments, h.takes⟩
  | line text => exact h.send _
  | comment text => exact h.send _
  | update ref w => exact h.withRack (Rack.Indexed.set h.indexed ref w)
  | add w => exact h.withRack h.indexed
  | register name initial modal format =>
    rw [WriterSession.perform]
    split
    next registers hregisters => exact h.withRack (Registers.getOrAdd_indexed h.indexed hregisters)
    next => exact h

@[simp] theorem sink_withWriter (s : WriterSession) (w : Except Violation BlockWriter) :
    (s.withWriter w).sink = s.sink := by
  cases w <;> rfl

theorem lines_perform (h : Kept n separator comments k s) (op : Operation) :
    (s.perform op).2.sink.lines = s.sink.lines ++ (s.perform op).1.toList := by
  cases op with
  | block withNumber =>
    obtain ⟨number, written, hperform, -⟩ := perform_block h withNumber
    rw [hperform, send_fst, lines_send]
    exact h.takes
  | numberOnly =>
    obtain ⟨number, written, hperform, -⟩ := perform_numberOnly h
    rw [hperform, send_fst, lines_send]
    exact h.takes
  | line text => exact lines_send h.takes (some text)
  | comment text => exact lines_send h.takes (some (s.writer.comment text))
  | register name initial modal format =>
    rw [perform]
    split <;> simp
  | _ => simp [perform]

theorem number_perform (h : Kept n separator comments k s) (henabled : n.enabled = true)
    {op : Operation} (hcarries : carriesNumber (op, (s.perform op).1) = true) :
    ∃ texts, (s.perform op).1 = some (Text.join separator (n.label k :: texts)) := by
  cases op with
  | block withNumber =>
    obtain ⟨number, written, hperform, -⟩ := perform_block h withNumber
    rw [hperform, send_fst, carriesNumber, Bool.and_eq_true] at hcarries
    obtain ⟨rfl, hsome⟩ := hcarries
    rw [hperform, send_fst]
    unfold blockLine at hsome ⊢
    split at hsome
    · cases hsome
    · rw [if_neg ‹_›, henabled]
      exact ⟨s.tokens.map Token.text, rfl⟩
  | numberOnly =>
    obtain ⟨number, written, hperform, -⟩ := perform_numberOnly h
    rw [hperform, send_fst, henabled]
    exact ⟨[], congrArg some (List.append_nil _).symm⟩
  | _ => cases hcarries

theorem Kept.performAll (h : Kept n separator comments k s) (ops : List Operation) :
    Kept n separator comments (k + (s.performAll ops).1.countP carriesNumber)
      (s.performAll ops).2 := by
  induction ops generalizing k s with
  | nil => exact h
  | cons op ops ih =>
    have hrest := ih (h.perform op)
    rw [WriterSession.performAll, List.countP_cons]
    convert hrest using 1
    omega

theorem lines_performAll (h : Kept n separator comments k s) (ops : List Operation) :
    (s.performAll ops).2.sink.lines =
      s.sink.lines ++ (s.performAll ops).1.filterMap Prod.snd := by
  induction ops generalizing k s with
  | nil => exact (List.append_nil _).symm
  | cons op ops ih =>
    rw [WriterSession.performAll, ih (h.perform op), lines_perform h, List.append_assoc]
    congr 1
    cases (s.perform op).1 <;> rfl

theorem numbers_performAll (h : Kept n separator comments k s) (henabled : n.enabled = true)
    (ops : List Operation) {i : Nat} {entry : Operation × Option Text}
    (hentry : ((s.performAll ops).1.filter carriesNumber)[i]? = some entry) :
    ∃ texts, entry.2 = some (Text.join separator (n.label (k + i) :: texts)) := by
  induction ops generalizing k s i with
  | nil => cases hentry
  | cons op ops ih =>
    have hrest := h.perform op
    rw [WriterSession.performAll, List.filter_cons] at hentry
    cases hcarries : carriesNumber (op, (s.perform op).1) with
    | false =>
      -- a line without a number leaves the counter where it is
      simp only [hcarries, Bool.false_eq_true, if_false, Nat.add_zero] at hentry hrest
      exact ih hrest hentry
    | true =>
      simp only [hcarries, if_true] at hentry hrest
      cases i with
      | zero =>
        obtain rfl := Option.some.inj hentry
        exact number_perform h henabled hcarries
      | succ i =>
        obtain ⟨texts, htexts⟩ := ih hrest hentry
        exact ⟨texts, by rw [htexts, Nat.add_right_comm, Nat.add_assoc]⟩

/-- What holds after a history of operations: the lines are those of the history, the numbered ones
in the order of their numbers; and the next block is that of the words as they are. -/
structure Lawful (n : Numbering) (separator : Text) (comments : CommentStyle)
    (log : List (Operation × Option Text)) (s : WriterSession) : Prop where
  lines : s.sink.lines = log.filterMap Prod.snd
  numbers : n.enabled = true → ∀ k entry, (log.filter carriesNumber)[k]? = some entry →
    ∃ texts, entry.2 = some (Text.join separator (n.label k :: texts))
  block : ∀ withNumber, (s.perform (.block withNumber)).1 =
    blockLine n separator (log.countP carriesNumber) withNumber s.tokens
  numberOnly : (s.perform .numberOnly).1 =
    if n.enabled then some (n.label (log.countP carriesNumber)) else none
  line : ∀ text, (s.perform (.line text)).1 = some text
  comment : ∀ text, (s.perform (.comment text)).1 = some (comments.render text)
  nothing : s.tokens = [] → ∀ withNumber,
    (s.perform (.block withNumber)).2.sink.lines = s.sink.lines ∧
      (s.perform (.block withNumber)).2.writer.number = s.writer.number
  once : ∀ ref m, s.rack.get? ref = some (.numeric m) → m.modal = true → m.changed = true →
    s.writer.pending.count (.shared ref) = 1 →
    (s.tokens.filter (Token.isFrom ref)).map Token.text = [m.render]
  emptied : ∀ withNumber, (s.perform (.block withNumber)).2.writer.pending = []
  unflagged : ∀ withNumber, ∀ ref ∈ (s.perform (.block withNumber)).2.writer.tracked, ∀ m,
    (s.perform (.block withNumber)).2.rack.get? ref = some (.numeric m) → m.modal = true →
    m.changed = false

theorem blocks_assembled_and_numbered (n : Numbering) (separator : Text) (comments : CommentStyle)
    (history : List Operation) :
    Lawful n separator comments ((opened n separator comments).performAll history).1
      ((opened n separator comments).performAll history).2 := by
  have hopened := kept_opened n separator comments
  have h := hopened.performAll history
  rw [Nat.zero_add] at h
  set s := ((opened n separator comments).performAll history).2
  set log := ((opened n separator comments).performAll history).1
  refine ⟨lines_performAll hopened history, fun henabled k entry hentry => ?_, fun withNumber => ?_,
    ?_, fun text => rfl, fun text => ?_, fun hnone withNumber => ?_,
    fun ref m hm hmodal _ hcount => ?_, fun withNumber => ?_, fun withNumber ref href m hm => ?_⟩
  · simpa using numbers_performAll hopened henabled history hentry
  · obtain ⟨number, written, hperform, -⟩ := perform_block h withNumber
    rw [hperform, send_fst]
  · obtain ⟨number, written, hperform, -⟩ := perform_numberOnly h
    rw [hperform, send_fst]
  · rw [← h.comments]
    rfl
  · obtain ⟨number, written, hperform, -, hnumber⟩ := perform_block h withNumber
    rw [lines_perform h, hperform, send_fst, writer_send, hnumber hnone]
    simp [blockLine, hnone]
  · rw [← h.due_eq_tokens]
    exact BlockWriter.due_once h.indexed h.orderly hm hmodal hcount
  · obtain ⟨number, written, hperform, -⟩ := perform_block h withNumber
    rw [hperform, writer_send]
  · obtain ⟨number, written, hperform, -⟩ := perform_block h withNumber
    rw [hperform, writer_send] at href
    rw [hperform, rack_send] at hm
    exact BlockWriter.unflagged_spent h.indexed h.orderly href hm

/-- A counter is flagged again by being written, so the tracked one follows those that were queued.
-/
example : ((opened {} " " {}).performAll
    [.add (.counter { address := "P", value := 1, start := 1, step := 1 }), .track (.loose 0),
      .push (.loose 0), .push (.loose 0), .line "%", .block true]).2.sink.lines =
      ["%", "N10 P1 P2 P3"] := by
  decide

/-- A step of zero is not taken as it is: the second number is ten behind the first. -/
theorem zero_step_stands_for_ten :
    ((opened { start := 5, step := 0 } " " {}).performAll [.numberOnly,
      .numberOnly]).1.map Prod.snd = [some (Text.ofString "N5"), some (Text.ofString "N15")] := by
  decide

end WriterSession
end Toolpath
