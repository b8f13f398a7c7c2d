import Toolpath.Proofs.FramedRecords
import Toolpath.Proofs.Lexing

/-!
# Streams are read back

Commands that are written to a stream are read back as they were written, in the same order, and
then the stream ends, with the count and the digest of the writer. The commands of a program in
well formed UTF-8 are such commands.
-/

namespace Toolpath

def Stream.records (cs : List Command) : List Text := cs.map Stream.record

namespace StreamWriter

def writeAll (w : StreamWriter) : List Command → Option StreamWriteError × StreamWriter
  | [] => (none, w)
  | c :: cs =>
    match w.write c with
    | (none, w) => writeAll w cs
    | (some e, w) => (some e, w)

/-- The writer counts and digests just these commands and has them on its tape, behind the preamble
unless the tape refused that. -/
structure Holds (w : StreamWriter) (cs : List Command) : Prop where
  count : w.count = cs.length
  digested : w.digested = (Stream.records cs).reverse
  taken : w.tape.taken.reverse =
    (if w.started && !w.tape.refuses 0 then [Stream.preamble] else []) ++ Stream.records cs
  unstarted : w.started = false → cs = [] ∧ w.tape.writes = 0

variable {w : StreamWriter} {cs : List Command}

theorem holds_nil (refuses : Nat → Bool) (reason : Text) :
    ({ tape := { refuses, reason } } : StreamWriter).Holds [] :=
  ⟨rfl, rfl, rfl, fun _ => ⟨rfl, rfl⟩⟩

theorem Holds.writePreamble (h : w.Holds cs) :
    ∃ w' : StreamWriter, w.writePreamble =
        (if !w.started && w.tape.refuses 0 then some (.preamble w.tape.reason) else none, w') ∧
      w'.Holds cs ∧ w'.started = true ∧ w'.tape.refuses = w.tape.refuses := by
  unfold StreamWriter.writePreamble
  cases hs : w.started with
  | true => exact ⟨w, rfl, h, hs, rfl⟩
  | false =>
    obtain ⟨rfl, hwrites⟩ := h.unstarted hs
    have htaken : w.tape.taken = [] := by simpa [hs, Stream.records] using h.taken
    rw [Tape.write, hwrites]
    cases hrefuses : w.tape.refuses 0 with
    | true =>
      refine ⟨_, rfl, ⟨h.count, h.digested, ?_, by simp⟩, rfl, rfl⟩
      simp [htaken, hrefuses, Stream.records]
    | false =>
      refine ⟨_, rfl, ⟨h.count, h.digested, ?_, by simp⟩, rfl, rfl⟩
      simp [htaken, hrefuses, Stream.records]

theorem Holds.write (h : w.Holds cs) (c : Command) :
    ∃ (e : Option StreamWriteError) (w' : StreamWriter), w.write c = (e, w') ∧
      w'.Holds (if e.isSome then cs else cs ++ [c]) ∧
      w'.tape.refuses = w.tape.refuses ∧ ((∀ i, w.tape.refuses i = false) → e = none) := by
  obtain ⟨w₁, hpreamble, h₁, hs, hrefuses⟩ := h.writePreamble
  unfold StreamWriter.write
  rw [hpreamble]
  split
  next e w₂ heq =>
    obtain ⟨he, rfl⟩ := Prod.mk.inj heq
    exact ⟨_, _, rfl, h₁, hrefuses, fun htakes => by simp [htakes] at he⟩
  next w₂ heq =>
    obtain ⟨-, rfl⟩ := Prod.mk.inj heq
    dsimp only
    rw [Tape.write]
    split
    next tape htape =>
      split at htape
      · cases htape
      · cases htape
        refine ⟨_, _, rfl, ⟨?_, ?_, ?_, ?_⟩, hrefuses, fun _ => rfl⟩
        · simp [h₁.count]
        · simp [h₁.digested, Stream.records]
        · simp [h₁.taken, Stream.records]
        · simp [hs]
    next tape htape =>
      split at htape
      next hrefused =>
        cases htape
        refine ⟨_, _, rfl, ⟨h₁.count, h₁.digested, h₁.taken, by simp [hs]⟩, hrefuses, ?_⟩
        intro htakes
        rw [hrefuses, htakes] at hrefused
        cases hrefused
      · cases htape

theorem Holds.writeAll (h : w.Holds cs) (htakes : ∀ i, w.tape.refuses i = false)
    (ds : List Command) : ∃ w', w.writeAll ds = (none, w') ∧ w'.Holds (cs ++ ds) ∧
      w'.tape.refuses = w.tape.refuses := by
  induction ds generalizing w cs with
  | nil => exact ⟨w, rfl, by simpa using h, rfl⟩
  | cons d ds ih =>
    obtain ⟨e, w₁, hwrite, h₁, hrefuses, hnone⟩ := h.write d
    obtain rfl := hnone htakes
    obtain ⟨w', hrest, h', hrefuses'⟩ := ih h₁ (hrefuses ▸ htakes)
    refine ⟨w', ?_, by simpa using h', hrefuses'.trans hrefuses⟩
    rw [StreamWriter.writeAll, hwrite]
    exact hrest

theorem Holds.close (h : w.Holds cs) :
    ∃ w' : StreamWriter, w.close = (if !w.started && w.tape.refuses 0
        then .error (.preamble w.tape.reason) else .ok w'.digest, w') ∧
      w'.count = cs.length ∧ w'.digest = Digest.blake2b (Stream.records cs).flatten ∧
      w'.tape.contents =
        (if w.tape.refuses 0 then [] else Stream.preamble) ++ (Stream.records cs).flatten := by
  obtain ⟨w', hpreamble, h', hs, hrefuses⟩ := h.writePreamble
  refine ⟨w', ?_, h'.count, ?_, ?_⟩
  · rw [StreamWriter.close, hpreamble]
    cases !w.started && w.tape.refuses 0 <;> rfl
  · rw [StreamWriter.digest, h'.digested, List.reverse_reverse]
  · rw [Tape.contents, h'.taken, hs, hrefuses, List.flatten_append]
    cases w.tape.refuses 0 <;> rfl

theorem written (cs : List Command) : ∃ w w', StreamWriter.writeAll {} cs = (none, w) ∧
    w.close = (.ok w'.digest, w') ∧ w'.count = cs.length ∧
    w'.digest = Digest.blake2b (Stream.records cs).flatten ∧
    w'.tape.contents = Stream.preamble ++ (Stream.records cs).flatten := by
  obtain ⟨w, hwrite, h, hrefuses⟩ :=
    (holds_nil (fun _ => false) "disk full").writeAll (fun _ => rfl) cs
  obtain ⟨w', hclose, hcount, hdigest, hcontents⟩ := h.close
  rw [hrefuses, Bool.and_false] at hclose
  rw [hrefuses] at hcontents
  exact ⟨w, w', hwrite, hclose, hcount, hdigest, hcontents⟩

end StreamWriter

namespace StreamReader

def replies (r : StreamReader) : Nat → List StreamReply × StreamReader
  | 0 => ([], r)
  | n + 1 =>
    let (reply, r) := r.next
    let (rest, r) := r.replies n
    (reply :: rest, r)

theorem replies_succ (r : StreamReader) (n : Nat) : r.replies (n + 1) =
    (r.next.1 :: (r.next.2.replies n).1, (r.next.2.replies n).2) := rfl

structure Reads (r : StreamReader) (past ahead : List Command) : Prop where
  data : r.data = (Stream.records ahead).flatten
  count : r.count = past.length
  digested : r.digested = (Stream.records past).reverse

variable {r : StreamReader}

theorem Reads.next {c : Command} {past cs : List Command}
    (h : r.Reads past (c :: cs)) (hr : r.finished = false) (hc : Recorded c) :
    ∃ r', r.next = (.command c, r') ∧ r'.Reads (past ++ [c]) cs ∧ r'.finished = false := by
  have hdata : r.data = Stream.record c ++ (Stream.records cs).flatten := h.data
  refine ⟨_, Framed.next hc hr hdata, ⟨rfl, ?_, ?_⟩, hr⟩
  · simp [h.count]
  · simp [h.digested, Stream.records]

theorem replies_ended (hr : r.finished = true) (k : Nat) :
    r.replies k = (List.replicate k .ended, r) := by
  induction k with
  | zero => rfl
  | succ k ih =>
    rw [replies, next_ended hr]
    simp only [ih]
    rfl

theorem Reads.replies {past cs : List Command} (h : r.Reads past cs)
    (hr : r.finished = false) (hcs : ∀ c ∈ cs, Recorded c) (k : Nat) :
    ∃ r', r.replies (cs.length + k) = (cs.map .command ++ List.replicate k .ended, r') ∧
      r'.Reads (past ++ cs) [] := by
  induction cs generalizing r past with
  | nil =>
    cases k with
    | zero => exact ⟨r, rfl, by simpa using h⟩
    | succ k =>
      refine ⟨{ r with finished := true }, ?_, h.data, by simpa using h.count,
        by simpa using h.digested⟩
      rw [List.length_nil, Nat.zero_add, StreamReader.replies, next_at_end hr h.data]
      simp only [replies_ended]
      rfl
  | cons c cs ih =>
    obtain ⟨r₁, hnext, h₁, hr₁⟩ := h.next hr (hcs c (List.mem_cons_self ..))
    obtain ⟨r', hrest, h'⟩ := ih h₁ hr₁ fun d hd => hcs d (List.mem_cons_of_mem _ hd)
    refine ⟨r', ?_, by simpa using h'⟩
    have hlength : (c :: cs).length + k = cs.length + k + 1 := by
      rw [List.length_cons]
      omega
    rw [hlength, StreamReader.replies, hnext]
    simp only [hrest]
    rfl

/-- The stream is read as just these commands, and the reader then has this count and digest. -/
def ReadsBack (t : Text) (cs : List Command) (count : Nat) (digest : Text) : Prop :=
  ∃ r, ofText t = .ok r ∧ ∀ k, ∃ r',
    r.replies (cs.length + k) = (cs.map .command ++ List.replicate k .ended, r') ∧
      r'.count = count ∧ r'.digest = digest

theorem readsBack {cs : List Command} (h : ∀ c ∈ cs, Recorded c) :
    ReadsBack (Stream.preamble ++ (Stream.records cs).flatten) cs cs.length
      (Digest.blake2b (Stream.records cs).flatten) := by
  refine ⟨_, ofText_preamble _, fun k => ?_⟩
  have hreads : Reads { data := (Stream.records cs).flatten } [] cs := ⟨rfl, rfl, rfl⟩
  obtain ⟨r', hreplies, hr'⟩ := hreads.replies rfl h k
  refine ⟨r', hreplies, hr'.count, ?_⟩
  rw [StreamReader.digest, hr'.digested, List.nil_append, List.reverse_reverse]

end StreamReader

/-- The commands can all be written, and the closed stream is read back: each
request is answered with the next command, and every request after them with
the end. The reader then agrees with the writer on the count and the digest. -/
def RoundTrips (cs : List Command) : Prop :=
  ∃ w w' r, StreamWriter.writeAll {} cs = (none, w) ∧ w.close = (.ok w'.digest, w') ∧
    w'.count = cs.length ∧ StreamReader.ofText w'.tape.contents = .ok r ∧
    ∀ k, ∃ r', r.replies (cs.length + k) = (cs.map .command ++ List.replicate k .ended, r') ∧
      r'.count = w'.count ∧ r'.digest = w'.digest

theorem roundTrips {cs : List Command} (hw : ∀ c ∈ cs, c.WellFormed) (hb : ∀ c ∈ cs, c.Bounded) :
    RoundTrips cs := by
  obtain ⟨w, w', hwrite, hclose, hcount, hdigest, hcontents⟩ := StreamWriter.written cs
  obtain ⟨r, hr, hreplies⟩ :=
    StreamReader.readsBack fun c hc => StreamReader.recorded (hw c hc) (hb c hc)
  refine ⟨w, w', r, hwrite, hclose, hcount, by rwa [hcontents], ?_⟩
  rwa [hcount, hdigest]

/-- Commands with a major word, well formed texts and lists within the limit
make the round trip; equality of commands is equality of their numbers bit by
bit. The commands of a program in well formed UTF-8 are such commands. -/
theorem stream_round_trip :
    (∀ cs : List Command, (∀ c ∈ cs, c.WellFormed) → (∀ c ∈ cs, c.Bounded) → RoundTrips cs) ∧
      ∀ (source : Text) (first : Int64), source.isUtf8 = true →
        (∀ c ∈ (Command.parseAll source first).1, c.WellFormed) ∧
        ((∀ c ∈ (Command.parseAll source first).1, c.Bounded) →
          RoundTrips (Command.parseAll source first).1) := by
  refine ⟨fun cs hw hb => roundTrips hw hb, fun source first h => ?_⟩
  have hw := Command.parseAll_wellFormed first h
  exact ⟨hw, roundTrips hw⟩

set_option maxRecDepth 100000 in
/-- NaN, the negative zero and numbers of each width on the least line, and a
program with a continued line. -/
theorem stream_round_trip_nan :
    RoundTrips [{
      major := "pprint", minor := ["größe"]
      numeric := [Number.nan, Float.ofBits 0x8000000000000000, 0.1, 1.5, 65537]
      strings := ["", "µ"], line := Int64.minValue }] ∧
    RoundTrips (Command.parseAll (Text.ofString "GOTO/1,$\n 'é'\nFINI") 1).1 ∧
    (Command.parseAll (Text.ofString "GOTO/1,$\n 'é'\nFINI") 1).1.length = 2 := by
  refine ⟨stream_round_trip.1 _ ?_ ?_, (stream_round_trip.2 _ 1 ?_).2 ?_, ?_⟩
  · decide +kernel
  · decide +kernel
  · decide +kernel
  · decide +kernel
  · decide +kernel

end Toolpath
