import Toolpath.Proofs.RoundTrip

/-!
# Streams that are cut off

A record ends itself, so a stream that is cut off between two records is read as a shorter
stream, and one that is cut off inside a record is read up to that record, which is reported as
cut off. No command comes out that was not written.
-/

namespace Toolpath

open Cbor (CutOff)

namespace Stream

def span (cs : List Command) (k : Nat) : Nat := (records (cs.take k)).flatten.length

@[simp] theorem span_zero (cs : List Command) : span cs 0 = 0 := rfl

@[simp] theorem span_cons_succ (c : Command) (cs : List Command) (k : Nat) :
    span (c :: cs) (k + 1) = (record c).length + span cs k := by
  simp [span, records]

/-- Where the first `k` records end, in octets from the beginning of the stream. -/
def extent (cs : List Command) (k : Nat) : Nat := preambleLength + span cs k

end Stream

def StreamReply.cutOff (number : Nat) : StreamReply :=
  .refused (.record number (.unreadable .truncated))

namespace StreamReader

theorem recorded_of_roundTrips {c : Command} (h : RoundTrips [c]) : Recorded c := by
  obtain ⟨w, w', r, hwrite, hclose, -, hread, hreplies⟩ := h
  obtain ⟨w₁, w₂, hwrite₁, hclose₂, -, -, hcontents⟩ := StreamWriter.written [c]
  obtain rfl : w₁ = w := (Prod.mk.inj (hwrite₁.symm.trans hwrite)).2
  obtain rfl : w₂ = w' := (Prod.mk.inj (hclose₂.symm.trans hclose)).2
  have hdata : (Stream.records [c]).flatten = Stream.record c := by simp [Stream.records]
  rw [hcontents, hdata, ofText_preamble] at hread
  obtain rfl := Except.ok.inj hread
  obtain ⟨r', hr'⟩ := hreplies 1
  have hcommands : (replies { data := Stream.record c } 2).1 = [.command c, .ended] :=
    congrArg Prod.fst hr'.1
  rw [replies_succ, replies_succ] at hcommands
  obtain ⟨hfirst, hrest⟩ := List.cons.inj hcommands
  have hsecond := (List.cons.inj hrest).1
  obtain ⟨last, hnext, hlast⟩ | ⟨s, d, octets, rest, hs, hframed, hnext⟩ :=
    next_cases (r := { data := Stream.record c }) rfl
  · rw [hnext] at hfirst
    rcases hlast with ⟨rfl, -⟩ | ⟨e, rfl, -⟩ <;> cases hfirst
  · rw [hnext] at hfirst hsecond
    obtain rfl := StreamReply.command.inj hfirst
    -- the end follows, so the record has taken all octets
    obtain ⟨last, hnext', ⟨-, hnil⟩ | ⟨e, rfl, -⟩⟩ | ⟨s', d', octets', rest', -, -, hnext'⟩ :=
      next_cases (r := { data := rest, count := 1, digested := [octets] }) rfl
    · obtain rfl : Stream.record d = s := by simpa [show rest = [] from hnil] using hs
      exact hframed.recorded
    · rw [hnext'] at hsecond
      cases hsecond
    · rw [hnext'] at hsecond
      cases hsecond

/-- The replies to the first requests, when a reader with `count` commands behind it has a beginning
of these records before it. -/
theorem replies_cutOff {cs : List Command} (hframed : ∀ c ∈ cs, Recorded c) {r : StreamReader}
    (hr : r.finished = false) (hcut : CutOff r.data (Stream.records cs).flatten) :
    ∃ k < cs.length, Stream.span cs k ≤ r.data.length ∧ r.data.length < Stream.span cs (k + 1) ∧
      ∀ n, (r.replies (k + 1 + n)).1 = (cs.take k).map .command ++
        (if r.data.length = Stream.span cs k then .ended else .cutOff (r.count + k + 1)) ::
          List.replicate n .ended := by
  induction cs generalizing r with
  | nil => exact absurd hcut (Cbor.not_cutOff_nil _)
  | cons c cs ih =>
    have hc := hframed c (List.mem_cons_self ..)
    have hflat : (Stream.records (c :: cs)).flatten =
        Stream.record c ++ (Stream.records cs).flatten := rfl
    rw [hflat] at hcut
    obtain hcut | ⟨p, hdata, hp⟩ := hcut.append
    · -- not even the first record is whole
      refine ⟨0, by simp, by simp, ?_, fun n => ?_⟩
      · have hle := hcut.1.length_le
        have hne : r.data.length ≠ (Stream.record c).length :=
          fun heq => hcut.2 (hcut.1.eq_of_length heq)
        rw [Stream.span_cons_succ, Stream.span_zero]
        omega
      · rw [Nat.zero_add, Nat.add_comm, Stream.span_zero]
        by_cases hdata : r.data = []
        · rw [replies_succ, next_at_end hr hdata, replies_ended rfl, hdata]
          rfl
        · rw [replies_succ, next_refused hr hdata (Framed.readRecord_cutOff hc _ hcut),
            replies_ended rfl, if_neg (by simpa using hdata)]
          rfl
    · -- the first record is read, and the others are cut off
      have hnext := Framed.next hc hr hdata
      set r' : StreamReader := { r with
        data := p, count := r.count + 1, digested := Stream.record c :: r.digested }
      obtain ⟨k, hk, hlow, hhigh, hreplies⟩ :=
        ih (fun d hd => hframed d (List.mem_cons_of_mem _ hd)) (r := r') hr hp
      have hlength : r.data.length = (Stream.record c).length + p.length := by
        rw [hdata, List.length_append]
      refine ⟨k + 1, by simpa using hk, ?_, ?_, fun n => ?_⟩
      · rw [Stream.span_cons_succ, hlength]
        exact Nat.add_le_add_left hlow _
      · rw [Stream.span_cons_succ, hlength]
        exact Nat.add_lt_add_left hhigh _
      · have hcount : k + 1 + 1 + n = k + 1 + n + 1 := by omega
        have hnumber : r'.count + k + 1 = r.count + (k + 1) + 1 := by
          change r.count + 1 + k + 1 = _
          omega
        rw [hcount, replies_succ, hnext, hreplies, Stream.span_cons_succ, hlength, hnumber]
        simp only [Nat.add_right_inj]
        rfl

end StreamReader

theorem StreamReader.ofText_short {p : Text} (h : p.length < Stream.preambleLength) :
    StreamReader.ofText p = .error (if p = [] then .missing else .short) := by
  unfold StreamReader.ofText
  split
  · rfl
  · simp only [List.length_cons, Stream.preambleLength] at h
    omega
  · next hnil _ => rw [if_neg hnil]

/-- The commands can all be written. Of the closed stream, a beginning shorter than the preamble is
refused as missing or short. Any longer beginning that is not the whole stream is read as the
commands whose records lie wholly inside it, and then as the end when it ends between two records,
and as cut off when it ends inside of one; every request after that is answered with the end. -/
def DetectsTruncation (cs : List Command) : Prop :=
  ∃ w w', StreamWriter.writeAll {} cs = (none, w) ∧ w.close = (.ok w'.digest, w') ∧
    ∀ p, p <+: w'.tape.contents → p ≠ w'.tape.contents →
      (p.length < Stream.preambleLength →
        StreamReader.ofText p = .error (if p = [] then .missing else .short)) ∧
      (Stream.preambleLength ≤ p.length → ∃ r k, StreamReader.ofText p = .ok r ∧
        k < cs.length ∧ Stream.extent cs k ≤ p.length ∧ p.length < Stream.extent cs (k + 1) ∧
        ∀ n, (r.replies (k + 1 + n)).1 = (cs.take k).map .command ++
          (if p.length = Stream.extent cs k then .ended else .cutOff (k + 1)) ::
            List.replicate n .ended)

/-- Every truncation of a stream of commands that each make the round trip is detected. -/
theorem truncation_detected (cs : List Command) (h : ∀ c ∈ cs, RoundTrips [c]) :
    DetectsTruncation cs := by
  obtain ⟨w, w', hwrite, hclose, -, -, hcontents⟩ := StreamWriter.written cs
  refine ⟨w, w', hwrite, hclose, fun p hp hne => ⟨StreamReader.ofText_short, fun hlong => ?_⟩⟩
  rw [hcontents] at hp hne
  obtain hp | ⟨data, rfl, hdata⟩ := CutOff.append ⟨hp, hne⟩
  · -- a beginning of the preamble is not as long as it
    have hle := hp.1.length_le
    exact absurd (hp.1.eq_of_length (Nat.le_antisymm hle hlong)) hp.2
  · have hframed := fun c hc => StreamReader.recorded_of_roundTrips (h c hc)
    obtain ⟨k, hk, hlow, hhigh, hreplies⟩ :=
      StreamReader.replies_cutOff hframed (r := { data }) rfl hdata
    have hlength : (Stream.preamble ++ data).length = Stream.preambleLength + data.length :=
      List.length_append
    refine ⟨{ data }, k, StreamReader.ofText_preamble data, hk, ?_, ?_, fun n => ?_⟩
    · rw [hlength]
      exact Nat.add_le_add_left hlow _
    · rw [hlength]
      exact Nat.add_lt_add_left hhigh _
    · rw [hreplies n, hlength, Stream.extent, Nat.zero_add]
      simp only [Nat.add_right_inj]

def textAndMove : List Command :=
  [{ major := "pprint", strings := ["größe"] },
    { major := "goto", numeric := [Number.nan, 0.1, 65537], line := 2 }]

theorem truncation_detected_text :
    (∀ c ∈ textAndMove, RoundTrips [c]) ∧ DetectsTruncation textAndMove := by
  have hgood : ∀ c ∈ textAndMove, c.WellFormed ∧ c.Bounded := by decide +kernel
  have h : ∀ c ∈ textAndMove, RoundTrips [c] := fun c hc =>
    roundTrips (by simpa using (hgood c hc).1) (by simpa using (hgood c hc).2)
  exact ⟨h, truncation_detected _ h⟩

end Toolpath
