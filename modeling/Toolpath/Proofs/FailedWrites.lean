import Toolpath.Proofs.TruncatedStreams

/-!
# Streams on a tape that may refuse

What a writer counts, digests and has on the tape are the same commands, whichever writes were
refused. But the preamble is offered once only: when it is refused, the stream is closed without
an error although no reader accepts it.
-/

namespace Toolpath

theorem Stream.record_append_ne (c : Command) (u v : Text) : record c ++ u ≠ preamble ++ v := by
  intro h
  obtain ⟨items, hrecord, hlength⟩ := record_eq c
  obtain ⟨form, -, hread⟩ := Cbor.read_head 5 (by decide) hlength (Cbor.encodeAll items ++ u)
  have hkind : Cbor.Head.read (record c ++ u) =
      .ok (⟨2, 1, 1⟩, Text.ofString "PCL" ++ [1, 0, 0, 0] ++ v) := by
    rw [h]
    rfl
  rw [hrecord, List.append_assoc, hread] at hkind
  cases hkind

theorem StreamReader.ofText_records (cs : List Command) :
    ∃ e, ofText (Stream.records cs).flatten = .error e := by
  cases h : ofText (Stream.records cs).flatten with
  | error e => exact ⟨e, rfl⟩
  | ok r =>
    obtain ⟨data, hdata, -⟩ := ofText_ok h
    cases cs with
    | nil => cases hdata
    | cons c cs => exact absurd hdata (Stream.record_append_ne c _ data)

namespace StreamWriter

/-- Offers commands in turn, also behind one that could not be written. With
the writer come the commands that could. -/
def offer (w : StreamWriter) : List Command → List Command × StreamWriter
  | [] => ([], w)
  | c :: cs =>
    match w.write c with
    | (none, w) =>
      let (ds, w) := w.offer cs
      (c :: ds, w)
    | (some _, w) => w.offer cs

variable {w w' : StreamWriter} {ds : List Command}

theorem Holds.offer (h : w.Holds ds) (cs : List Command) :
    ∃ taken w', w.offer cs = (taken, w') ∧ w'.Holds (ds ++ taken) ∧
      w'.tape.refuses = w.tape.refuses := by
  induction cs generalizing w ds with
  | nil => exact ⟨[], w, rfl, by simpa using h, rfl⟩
  | cons c cs ih =>
    obtain ⟨e, w₁, hwrite, h₁, hrefuses, -⟩ := h.write c
    obtain ⟨taken, w', hoffer, h', hrefuses'⟩ := ih h₁
    rw [StreamWriter.offer, hwrite]
    cases e with
    | some e => exact ⟨taken, w', hoffer, h', hrefuses'.trans hrefuses⟩
    | none =>
      refine ⟨c :: taken, w', ?_, by simpa using h', hrefuses'.trans hrefuses⟩
      simp only [hoffer]

/-- A stream that is closed without an error counts the commands that were taken. It is read back as
these commands just when the first write, that of the preamble, was not refused; if it was, some
command was offered, and the stream is the records alone, which no reader accepts. -/
theorem closed_reads_back_iff (refuses : Nat → Bool) (reason : Text) (cs : List Command)
    {d : Text} (hoffer : offer { tape := { refuses, reason } } cs = (ds, w))
    (hclose : w.close = (.ok d, w')) (htrip : ∀ c ∈ ds, RoundTrips [c]) :
    w'.count = ds.length ∧
      (StreamReader.ReadsBack w'.tape.contents ds w'.count d ↔ refuses 0 = false) ∧
      (refuses 0 = true → cs ≠ [] ∧ w'.tape.contents = (Stream.records ds).flatten ∧
        ∃ e, StreamReader.ofText w'.tape.contents = .error e) := by
  obtain ⟨taken, w₁, hoffered, h, hrefuses⟩ := (holds_nil refuses reason).offer cs
  obtain ⟨rfl, rfl⟩ := Prod.mk.inj (hoffered.symm.trans hoffer)
  obtain ⟨w₂, hclosed, hcount, hdigest, hcontents⟩ := h.close
  obtain ⟨hend, rfl⟩ := Prod.mk.inj (hclosed.symm.trans hclose)
  rw [List.nil_append] at hcount hdigest hcontents
  rw [show w₁.tape.refuses = refuses from hrefuses] at hend hcontents
  have hbare : refuses 0 = true → w₂.tape.contents = (Stream.records taken).flatten := by
    intro hlost
    rw [hcontents, hlost]
    rfl
  have hoffers : refuses 0 = true → cs ≠ [] := by
    rintro hlost rfl
    obtain ⟨-, rfl⟩ := Prod.mk.inj hoffered
    simp [hlost] at hend
  have hd : refuses 0 = false → w₂.digest = d := fun hkept => by simpa [hkept] using hend
  refine ⟨hcount, ⟨fun hreads => ?_, fun hkept => ?_⟩,
    fun hlost => ⟨hoffers hlost, hbare hlost, hbare hlost ▸ StreamReader.ofText_records taken⟩⟩
  · refine Bool.eq_false_iff.mpr fun hlost => ?_
    obtain ⟨r, hr, -⟩ := hreads
    obtain ⟨e, he⟩ := StreamReader.ofText_records taken
    rw [hbare hlost, he] at hr
    cases hr
  · rw [hcontents, hkept, hcount, ← hd hkept, hdigest]
    exact StreamReader.readsBack fun c hc => StreamReader.recorded_of_roundTrips (htrip c hc)

/-- The third of four writes is refused, and the command behind it is still taken. -/
theorem closed_reads_back_gap :
    let cs : List Command :=
      [{ major := "goto", numeric := [0.1] }, { major := "stop" }, { major := "fini" }]
    let taken : List Command := [{ major := "goto", numeric := [0.1] }, { major := "fini" }]
    ∃ w w', offer { tape := { refuses := fun i => i = 2 } } cs = (taken, w) ∧
      w.close = (.ok w'.digest, w') ∧
      StreamReader.ReadsBack w'.tape.contents taken w'.count w'.digest := by
  intro cs taken
  have hgood : ∀ c ∈ taken, c.WellFormed ∧ c.Bounded := by decide +kernel
  have htrip : ∀ c ∈ taken, RoundTrips [c] := fun c hc =>
    roundTrips (by simpa using (hgood c hc).1) (by simpa using (hgood c hc).2)
  exact ⟨_, _, rfl, rfl,
    (closed_reads_back_iff (fun i => i = 2) "disk full" cs rfl rfl htrip).2.1.mpr rfl⟩

/-- A tape that refuses everything: the command fails, and the stream is closed all the same. -/
theorem closed_without_preamble :
    ∃ w w', offer { tape := Tape.limited 0 } [{ major := "a" }] = ([], w) ∧
      w.close = (.ok w'.digest, w') ∧ StreamReader.ofText w'.tape.contents = .error .missing :=
  ⟨_, _, rfl, rfl, rfl⟩

end StreamWriter
end Toolpath
