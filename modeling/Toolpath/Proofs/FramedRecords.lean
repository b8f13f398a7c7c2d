import Toolpath.Proofs.ReadItems
import Toolpath.Proofs.Records

/-!
# Records in a stream

A record ends itself: the command is read off it whatever follows, and not
before it is whole. This holds of whatever octets a reader takes for a record,
and so of the record that a command is written as.
-/

namespace Toolpath

theorem Stream.record_eq (c : Command) : ∃ items,
    record c = Cbor.head 5 (items.length / 2) ++ Cbor.encodeAll items ∧
      items.length / 2 < 2 ^ 64 := by
  refine ⟨_, rfl, ?_⟩
  simp only [List.length_append, length_entry]
  grind

namespace StreamReader

open Cbor (CutOff Delimits Item)

variable {s octets rest : Text} {c : Command} {number : Nat} {r : StreamReader}

/-- The text is a record of the command, of which these octets count for the digest. -/
def Framed (s : Text) (c : Command) (octets : Text) : Prop :=
  ∃ x, Delimits Item.read s x ∧ Stream.readCommand x = .ok c ∧ c.major ≠ [] ∧
    dropHeads (marks x) s = octets

theorem Framed.readRecord (h : Framed s c octets) (number : Nat) (rest : Text) :
    readRecord number (s ++ rest) = .ok (c, octets, rest) := by
  obtain ⟨x, hx, hcommand, hmajor, rfl⟩ := h
  unfold StreamReader.readRecord
  simp [hx.whole, hcommand, hmajor]

theorem Framed.readRecord_cutOff (h : Framed s c octets) (number : Nat) {p : Text}
    (hp : CutOff p s) :
    StreamReader.readRecord number p = .error (.record number (.unreadable .truncated)) := by
  obtain ⟨x, hx, -⟩ := h
  unfold StreamReader.readRecord
  simp only [hx.part p hp]

theorem Framed.ne_nil (h : Framed s c octets) : s ≠ [] := by
  rintro rfl
  obtain ⟨x, hx, -⟩ := h
  exact Cbor.readItem_nil _ _ _ (hx.whole [])

theorem framed_of_readRecord {t : Text} (h : readRecord number t = .ok (c, octets, rest)) :
    ∃ s, t = s ++ rest ∧ Framed s c octets := by
  unfold StreamReader.readRecord at h
  split at h
  · cases h
  next x rest' hitem =>
    split at h
    · cases h
    next d hcommand =>
      split at h
      · cases h
      next hmajor =>
        obtain ⟨rfl, rfl, rfl⟩ : d = c ∧ _ ∧ rest' = rest := by simpa using h
        obtain ⟨s, rfl, hdelimits⟩ := Cbor.selfDelimiting_item _ _ _ hitem
        exact ⟨s, rfl, x, hdelimits, hcommand, hmajor, by simp⟩

def Recorded (c : Command) : Prop := Framed (Stream.record c) c (Stream.record c)

theorem recorded (hw : c.WellFormed) (hb : c.Bounded) : Recorded c := by
  obtain ⟨s, hs, hframed⟩ := framed_of_readRecord (readRecord_record hw hb 1 [])
  obtain rfl : Stream.record c = s := by simpa using hs
  exact hframed

theorem builds_unmarked : Cbor.Builds (fun _ => True) (fun x => marks x = 0) where
  atom x hx := by cases x <;> simp_all [Item.parts, marks]
  array _ _ _ := rfl
  map _ _ := rfl

theorem Framed.recorded (h : Framed (Stream.record c) c octets) : Recorded c := by
  obtain ⟨x, hx, hcommand, hmajor, -⟩ := h
  refine ⟨x, hx, hcommand, hmajor, ?_⟩
  obtain ⟨items, hrecord, hlength⟩ := Stream.record_eq c
  obtain ⟨form, -, hhead⟩ :=
    Cbor.readItem_head 5 4 4 (by decide) hlength (Cbor.encodeAll items)
  have hread : Item.read (Stream.record c) = .ok (x, []) := by simpa using hx.whole []
  rw [hrecord] at hread
  rw [Cbor.yields_readContent builds_unmarked (fun _ _ _ _ _ => trivial) _ _ _ _ _
    (hhead.symm.trans hread)]
  rfl

theorem ofText_preamble (data : Text) : ofText (Stream.preamble ++ data) = .ok { data } := rfl

theorem ofText_ok {t : Text} (h : ofText t = .ok r) :
    ∃ data, t = Stream.preamble ++ data ∧ r = { data } := by
  unfold ofText at h
  split at h
  · cases h
  next a b c d v v' f f' data =>
    split at h
    · cases h
    split at h
    · cases h
    split at h
    · cases h
    next hmagic hversion hflags =>
      cases h
      simp only [littleEndian, Stream.version, ne_eq, Decidable.not_not] at hmagic hversion hflags
      obtain rfl : v = 1 := UInt8.toNat_inj.mp (by simp; omega)
      obtain rfl : v' = 0 := UInt8.toNat_inj.mp (by simp; omega)
      obtain rfl : f = 0 := UInt8.toNat_inj.mp (by simp; omega)
      obtain rfl : f' = 0 := UInt8.toNat_inj.mp (by simp; omega)
      refine ⟨data, ?_, rfl⟩
      rw [Stream.preamble, ← hmagic]
      rfl
  · cases h

theorem next_refused {e : StreamError} (hr : r.finished = false) (hdata : r.data ≠ [])
    (h : readRecord (r.count + 1) r.data = .error e) :
    r.next = (.refused e, { r with finished := true }) := by
  simp [StreamReader.next, hr, hdata, h]

theorem next_command (hr : r.finished = false) (hdata : r.data ≠ [])
    (h : readRecord (r.count + 1) r.data = .ok (c, octets, rest)) :
    r.next = (.command c,
      { r with data := rest, count := r.count + 1, digested := octets :: r.digested }) := by
  simp [StreamReader.next, hr, hdata, h]

theorem next_at_end (hr : r.finished = false) (hdata : r.data = []) :
    r.next = (.ended, { r with finished := true }) := by
  simp [StreamReader.next, hr, hdata]

theorem Framed.next (h : Framed s c octets) (hr : r.finished = false) (hdata : r.data = s ++ rest) :
    r.next = (.command c,
      { r with data := rest, count := r.count + 1, digested := octets :: r.digested }) :=
  next_command hr (by simp [hdata, h.ne_nil]) (hdata ▸ h.readRecord ..)

theorem next_ended (hr : r.finished = true) : r.next = (.ended, r) := by
  simp [StreamReader.next, hr]

theorem next_cases (hr : r.finished = false) :
    (∃ last, r.next = (last, { r with finished := true }) ∧
      (last = .ended ∧ r.data = [] ∨
        ∃ e, last = .refused e ∧ readRecord (r.count + 1) r.data = .error e)) ∨
      ∃ s c octets rest, r.data = s ++ rest ∧ Framed s c octets ∧ r.next = (.command c,
        { r with data := rest, count := r.count + 1, digested := octets :: r.digested }) := by
  by_cases hdata : r.data = []
  · exact .inl ⟨_, next_at_end hr hdata, .inl ⟨rfl, hdata⟩⟩
  cases hrecord : readRecord (r.count + 1) r.data with
  | error e => exact .inl ⟨_, next_refused hr hdata hrecord, .inr ⟨e, rfl, rfl⟩⟩
  | ok answer =>
    obtain ⟨c, octets, rest⟩ := answer
    obtain ⟨s, hs, hframed⟩ := framed_of_readRecord hrecord
    exact .inr ⟨s, c, octets, rest, hs, hframed, next_command hr hdata hrecord⟩

end StreamReader
end Toolpath
