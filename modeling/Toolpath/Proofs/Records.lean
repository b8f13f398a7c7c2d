import Toolpath.Proofs.Items
import Toolpath.Stream.Reader

/-!
# Records of commands

The record of a command reads back as the command, whatever follows it, if
its texts are well formed and keep to the limits of a reader. What is empty
has no entry in the record and is empty again in the command that is read.
-/

namespace Toolpath

namespace Command

def texts (c : Command) : List Text := c.major :: (c.minor ++ c.strings)

structure WellFormed (c : Command) : Prop where
  major : c.major ≠ []
  utf8 : ∀ t ∈ c.texts, t.isUtf8 = true

/-- Lengths are 64 bit integers, and no list is longer than a reader allows. -/
structure Bounded (c : Command) : Prop where
  lengths : ∀ t ∈ c.texts, t.length < 2 ^ 63
  minor : c.minor.length ≤ Cbor.itemLimit
  numeric : c.numeric.length ≤ Cbor.itemLimit
  strings : c.strings.length ≤ Cbor.itemLimit

instance (c : Command) : Decidable c.WellFormed :=
  decidable_of_iff (c.major ≠ [] ∧ ∀ t ∈ c.texts, t.isUtf8 = true)
    ⟨fun h => ⟨h.1, h.2⟩, fun h => ⟨h.major, h.utf8⟩⟩

instance (c : Command) : Decidable c.Bounded :=
  decidable_of_iff ((∀ t ∈ c.texts, t.length < 2 ^ 63) ∧ c.minor.length ≤ Cbor.itemLimit ∧
      c.numeric.length ≤ Cbor.itemLimit ∧ c.strings.length ≤ Cbor.itemLimit)
    ⟨fun h => ⟨h.1, h.2.1, h.2.2.1, h.2.2.2⟩, fun h => ⟨h.lengths, h.minor, h.numeric, h.strings⟩⟩

end Command

namespace Stream

open Cbor (Item)

variable {c : Command} {l key : Nat}

theorem textItem_legible {t : Text} (h : t.length < 2 ^ 63) :
    (textItem t).Legible l := .text h

theorem texts_legible {ts : List Text} (hn : ts.length ≤ Cbor.itemLimit)
    (h : ∀ t ∈ ts, t.length < 2 ^ 63) : (Item.array (ts.map textItem)).Legible (l + 1) := by
  refine .array (by simpa using hn) fun x hx => ?_
  obtain ⟨t, ht, rfl⟩ := List.mem_map.mp hx
  exact textItem_legible (h t ht)

theorem numbers_legible {xs : List Float} (hn : xs.length ≤ Cbor.itemLimit) :
    (Item.array (xs.map .float)).Legible (l + 1) := by
  refine .array (by simpa using hn) fun x hx => ?_
  obtain ⟨y, -, rfl⟩ := List.mem_map.mp hx
  exact .float y

theorem lineItem_legible (i : Int64) : (lineItem i).Legible l := by
  have hlow := i.le_toInt
  have hhigh := i.toInt_lt
  unfold lineItem
  split
  · exact .unsigned (by omega)
  · exact .negative (by omega)

theorem length_entry (key : Nat) (empty : Bool) (value : Item) :
    (entry key empty value).length = if empty then 0 else 2 := by
  cases empty <;> rfl

theorem entry_legible {empty : Bool} {value : Item} (hk : key < 2 ^ 64)
    (hv : value.Legible l) : ∀ x ∈ entry key empty value, x.Legible l := by
  intro x hx
  unfold entry at hx
  split at hx
  · cases hx
  · simp only [List.mem_cons, List.not_mem_nil, or_false] at hx
    rcases hx with rfl | rfl
    · exact .unsigned hk
    · exact hv

theorem item_legible (h : c.Bounded) : (item c).Legible Cbor.depthLimit := by
  have hmajor : c.major.length < 2 ^ 63 := h.lengths _ (List.mem_cons_self ..)
  have hminor : ∀ t ∈ c.minor, t.length < 2 ^ 63 := fun t ht =>
    h.lengths t (List.mem_cons_of_mem _ (List.mem_append_left _ ht))
  have hstrings : ∀ t ∈ c.strings, t.length < 2 ^ 63 := fun t ht =>
    h.lengths t (List.mem_cons_of_mem _ (List.mem_append_right _ ht))
  have hlimit : Cbor.pairLimit = 131072 := rfl
  refine .map (l := 3) ?_ ?_ fun x hx => ?_
  · simp only [List.length_append, length_entry]
    grind
  · simp only [List.length_append, length_entry]
    grind
  · simp only [List.mem_append] at hx
    rcases hx with (((hx | hx) | hx) | hx) | hx
    · exact entry_legible (by decide) (textItem_legible hmajor) x hx
    · exact entry_legible (by decide) (texts_legible h.minor hminor) x hx
    · exact entry_legible (by decide) (numbers_legible h.numeric) x hx
    · exact entry_legible (by decide) (texts_legible h.strings hstrings) x hx
    · exact entry_legible (by decide) (lineItem_legible c.line) x hx

theorem readText_textItem {t : Text} (h : t.isUtf8 = true) : readText (textItem t) = .ok t := by
  simp [readText, textItem, untagged, chunksText, h]

theorem readNumber_float (x : Float) : readNumber (.float x) = .ok x := rfl

theorem readLine_lineItem (i : Int64) : readLine (lineItem i) = .ok i := by
  have hlow := i.le_toInt
  have hhigh := i.toInt_lt
  have hsign : 0 ≤ i ↔ 0 ≤ i.toInt := Int64.le_iff_toInt_le
  unfold lineItem
  by_cases h : 0 ≤ i
  · have hn : i.toInt.toNat < Nat.pow 2 63 := by
      change i.toInt.toNat < 2 ^ 63
      omega
    have hi : (i.toInt.toNat : Int) = i.toInt := Int.toNat_of_nonneg (hsign.mp h)
    rw [if_pos h]
    simp only [readLine, untagged, if_pos hn, hi, Int64.ofInt_toInt]
  · have hneg : i.toInt < 0 := Int.not_le.mp (mt hsign.mpr h)
    have hn : (-1 - i.toInt).toNat < Nat.pow 2 63 := by
      change (-1 - i.toInt).toNat < 2 ^ 63
      omega
    have hi : -1 - ((-1 - i.toInt).toNat : Int) = i.toInt := by omega
    rw [if_neg h]
    simp only [readLine, untagged, if_pos hn, hi, Int64.ofInt_toInt]

theorem readEach_map {α : Type} {f : Item → Except Fault α} {g : α → Item} {xs : List α}
    (h : ∀ a ∈ xs, f (g a) = .ok a) (acc : List α) :
    readEach f acc (xs.map g) = .ok (acc.reverse ++ xs) := by
  induction xs generalizing acc with
  | nil => simp [readEach]
  | cons a xs ih =>
    rw [List.map_cons, readEach, h a (List.mem_cons_self ..)]
    simp only
    rw [ih fun b hb => h b (List.mem_cons_of_mem _ hb)]
    simp

theorem readList_array {α : Type} {f : Item → Except Fault α} {g : α → Item} {xs : List α}
    (h : ∀ a ∈ xs, f (g a) = .ok a) : readList f (.array (xs.map g)) = .ok xs :=
  readEach_map h []

/-- A draft without a fault in which only fields before `key` were seen. -/
structure Draft.Before (p : Draft) (key : Nat) : Prop where
  fault : p.fault = none
  seen : ∀ i ∈ p.seen, i < key

theorem readEntries_nil {p : Draft} (hp : p.Before key) : readEntries p [] = .ok p.command := by
  simp [readEntries, hp.fault]

theorem readEntries_entry {p : Draft} {empty : Bool} {value : Item}
    {rest : List Item} {r : Except Fault Command} (c' : Command) (hp : p.Before key)
    (hkey : 1 ≤ key ∧ key ≤ 5) (hempty : empty = true → p.command = c')
    (hvalue : empty = false → readField key value p.command = .ok c')
    (hrest : ∀ q : Draft, q.Before (key + 1) → q.command = c' → readEntries q rest = r) :
    readEntries p (entry key empty value ++ rest) = r := by
  cases empty with
  | true =>
    exact hrest p ⟨hp.fault, fun i hi => Nat.lt_succ_of_lt (hp.seen i hi)⟩ (hempty rfl)
  | false =>
    have hnew : ¬ p.seen.contains key = true := by
      simpa using fun hi => Nat.lt_irrefl _ (hp.seen key hi)
    have hfield : keyOf (.unsigned key) = .field key := by
      simp [keyOf, fieldNamed, hkey]
    have hassign : p.assign key value = { p with seen := key :: p.seen, command := c' } := by
      simp only [Draft.assign, hvalue rfl]
    change readEntries p (.unsigned key :: value :: rest) = r
    rw [readEntries, hfield]
    simp only
    rw [if_neg hnew, hassign]
    refine hrest _ ⟨hp.fault, fun i hi => ?_⟩ rfl
    rcases List.mem_cons.mp hi with rfl | hi
    · exact Nat.lt_succ_self _
    · exact Nat.lt_succ_of_lt (hp.seen i hi)

theorem readCommand_item (h : c.WellFormed) : readCommand (item c) = .ok c := by
  have hmajor : readText (textItem c.major) = .ok c.major :=
    readText_textItem (h.utf8 _ (List.mem_cons_self ..))
  have hminor : readList readText (.array (c.minor.map textItem)) = .ok c.minor :=
    readList_array fun t ht => readText_textItem
      (h.utf8 t (List.mem_cons_of_mem _ (List.mem_append_left _ ht)))
  have hnumeric : readList readNumber (.array (c.numeric.map .float)) = .ok c.numeric :=
    readList_array fun x _ => readNumber_float x
  have hstrings : readList readText (.array (c.strings.map textItem)) = .ok c.strings :=
    readList_array fun t ht => readText_textItem
      (h.utf8 t (List.mem_cons_of_mem _ (List.mem_append_right _ ht)))
  change readEntries {} _ = _
  simp only [List.append_assoc]
  rw [← List.append_nil (entry 5 _ _)]
  refine readEntries_entry { major := c.major } ⟨rfl, by simp⟩ (by omega) (by simp)
    (fun _ => congrArg (Except.map _) hmajor) fun p₁ hp₁ h₁ => ?_
  refine readEntries_entry { major := c.major, minor := c.minor } hp₁ (by omega) ?_
    (fun _ => by rw [h₁]; exact congrArg (Except.map _) hminor) fun p₂ hp₂ h₂ => ?_
  · intro he
    rw [h₁, List.isEmpty_iff.mp he]
  refine readEntries_entry { major := c.major, minor := c.minor, numeric := c.numeric } hp₂
    (by omega) ?_ (fun _ => by rw [h₂]; exact congrArg (Except.map _) hnumeric) fun p₃ hp₃ h₃ => ?_
  · intro he
    rw [h₂, List.isEmpty_iff.mp he]
  refine readEntries_entry { c with line := 0 } hp₃ (by omega) ?_
    (fun _ => by rw [h₃]; exact congrArg (Except.map _) hstrings) fun p₄ hp₄ h₄ => ?_
  · intro he
    rw [h₃, List.isEmpty_iff.mp he]
  refine readEntries_entry c hp₄ (by omega) ?_
    (fun _ => by rw [h₄]; exact congrArg (Except.map _) (readLine_lineItem c.line))
      fun p₅ hp₅ h₅ => ?_
  · intro he
    rw [h₄, ← of_decide_eq_true he]
  rw [readEntries_nil hp₅, h₅]

end Stream

theorem StreamReader.readRecord_record {c : Command} (hw : c.WellFormed) (hb : c.Bounded)
    (number : Nat) (rest : Text) :
    readRecord number (Stream.record c ++ rest) = .ok (c, Stream.record c, rest) := by
  have hread : Cbor.Item.read (Stream.record c ++ rest) = .ok (Stream.item c, rest) :=
    Cbor.read_encode (Stream.item_legible hb) rest
  have htaken : (Stream.record c ++ rest).take
      ((Stream.record c ++ rest).length - rest.length) = Stream.record c := by simp
  rw [readRecord, hread]
  simp only [Stream.readCommand_item hw, if_neg hw.major, htaken]
  rfl

end Toolpath
