import Toolpath.Proofs.DocumentKeys
import Toolpath.Proofs.RoundTrip

/-!
# Streams of arbitrary octets

Whatever follows a preamble, a reader answers finitely many commands, then the end or one error
about the next record, and from then on nothing but the end. Every command that comes out has a
major word, well formed texts and lists within the limit.
-/

namespace Toolpath

variable {x : Cbor.Item} {c : Command}

namespace Stream

open Cbor (Item)

theorem chunksText_utf8 {chunks : List Text} {t : Text} (h : chunksText chunks = .ok t) :
    t.isUtf8 = true := by
  unfold chunksText at h
  split at h
  next hall =>
    cases h
    rw [← List.flatMap_id, Text.isUtf8_iff]
    exact Text.Utf8.flatMap fun s hs => Text.isUtf8_iff.mp (List.all_eq_true.mp hall s hs)
  · cases h

theorem readText_utf8 {t : Text} (h : readText x = .ok t) : t.isUtf8 = true := by
  unfold readText at h
  split at h
  · cases h
  · exact chunksText_utf8 h
  · split at h
    · cases h
      rfl
    · cases h
  · cases h

theorem untagged_limited {x y : Item} (hx : x.Limited) (h : untagged x = .ok y) : y.Limited := by
  fun_induction untagged x with
  | case1 | case2 =>
    cases h
    exact Cbor.builds_limited.atom _ rfl
  | case3 tag content _ _ _ ih => exact ih (hx.parts content (by simp [Item.parts])) h
  | case4 => cases h
  | case5 =>
    cases h
    exact hx

theorem readEach_ok {α : Type} {f : Item → Except Fault α} {P : α → Prop}
    (hf : ∀ x a, f x = .ok a → P a) {items : List Item} {acc l : List α} (hacc : ∀ a ∈ acc, P a)
    (h : readEach f acc items = .ok l) :
    l.length = acc.length + items.length ∧ ∀ a ∈ l, P a := by
  induction items generalizing acc with
  | nil =>
    cases h
    simpa using hacc
  | cons x items ih =>
    rw [readEach] at h
    split at h
    · cases h
    next a ha =>
      obtain ⟨hlength, hl⟩ := ih (List.forall_mem_cons.mpr ⟨hf x a ha, hacc⟩) h
      refine ⟨?_, hl⟩
      rw [hlength, List.length_cons, List.length_cons]
      omega

theorem readList_ok {α : Type} {f : Item → Except Fault α} {P : α → Prop}
    (hf : ∀ x a, f x = .ok a → P a) (hx : x.Limited) {l : List α}
    (h : readList f x = .ok l) : l.length ≤ Cbor.itemLimit ∧ ∀ a ∈ l, P a := by
  unfold readList at h
  split at h
  · cases h
  next items hitems =>
    obtain ⟨hlength, hl⟩ := readEach_ok hf (by simp) h
    exact ⟨by simpa [hlength] using (untagged_limited hx hitems).limit, hl⟩
  · split at h
    · cases h
      simp
    · cases h
  · cases h

structure Moderate (c : Command) : Prop where
  major : c.major.isUtf8 = true
  minor : c.minor.length ≤ Cbor.itemLimit ∧ ∀ t ∈ c.minor, t.isUtf8 = true
  numeric : c.numeric.length ≤ Cbor.itemLimit
  strings : c.strings.length ≤ Cbor.itemLimit ∧ ∀ t ∈ c.strings, t.isUtf8 = true

theorem moderate_empty : Moderate { major := [] } := by
  refine ⟨rfl, ?_, ?_, ?_⟩ <;> simp

theorem readField_moderate {i : Nat} {c d : Command} (hc : Moderate c) (hx : x.Limited)
    (h : readField i x c = .ok d) : Moderate d := by
  unfold readField at h
  split at h
  · obtain ⟨t, ht, rfl⟩ := map_ok.mp h
    exact ⟨readText_utf8 ht, hc.minor, hc.numeric, hc.strings⟩
  · obtain ⟨l, hl, rfl⟩ := map_ok.mp h
    exact ⟨hc.major, readList_ok (fun _ _ => readText_utf8) hx hl, hc.numeric, hc.strings⟩
  · obtain ⟨l, hl, rfl⟩ := map_ok.mp h
    have hlimit := (readList_ok (P := fun _ => True) (fun _ _ _ => trivial) hx hl).1
    exact ⟨hc.major, hc.minor, hlimit, hc.strings⟩
  · obtain ⟨l, hl, rfl⟩ := map_ok.mp h
    exact ⟨hc.major, hc.minor, hc.numeric, readList_ok (fun _ _ => readText_utf8) hx hl⟩
  · obtain ⟨l, -, rfl⟩ := map_ok.mp h
    exact ⟨hc.major, hc.minor, hc.numeric, hc.strings⟩

theorem assign_moderate {p : Draft} {i : Nat} (hp : Moderate p.command)
    (hx : x.Limited) : Moderate (p.assign i x).command := by
  unfold Draft.assign
  dsimp only
  split
  next c hc => exact readField_moderate hp hx hc
  · exact hp

theorem readEntries_moderate {p : Draft} {items : List Item}
    (hp : Moderate p.command) (hitems : ∀ x ∈ items, x.Limited)
    (h : readEntries p items = .ok c) : Moderate c := by
  fun_induction readEntries p items with
  | case1 | case3 | case6 => cases h
  | case2 p key value rest i _ _ ih =>
    simp only [List.forall_mem_cons] at hitems
    exact ih (assign_moderate hp hitems.2.1) hitems.2.2 h
  | case4 p key value rest _ ih | case5 p key value rest _ ih =>
    simp only [List.forall_mem_cons] at hitems
    exact ih hp hitems.2.2 h
  | case7 =>
    cases h
    exact hp

theorem readCommand_moderate (hx : x.Limited) (h : readCommand x = .ok c) : Moderate c := by
  unfold readCommand at h
  split at h
  · cases h
  next items hitems =>
    exact readEntries_moderate moderate_empty (untagged_limited hx hitems).parts h
  · split at h
    · cases h
      exact moderate_empty
    · cases h
  · cases h

end Stream

namespace StreamReader

theorem Framed.moderate {s octets : Text} (h : Framed s c octets) :
    c.major ≠ [] ∧ Stream.Moderate c := by
  obtain ⟨x, hx, hcommand, hmajor, -⟩ := h
  have hlimited : x.Limited := Cbor.readItem_limited _ _ _ _ _ (hx.whole [])
  exact ⟨hmajor, Stream.readCommand_moderate hlimited hcommand⟩

/-- The reply is the end, or an error whose message names the record with this number. -/
def Closes (number : Nat) (last : StreamReply) : Prop :=
  last = .ended ∨ ∃ e, last = .refused e ∧
    Text.ofString "invalid command stream: record " ++ Text.ofNat number <+: e.message

theorem closes_of_readRecord {number : Nat} {data : Text} {e : StreamError}
    (h : readRecord number data = .error e) : Closes number (.refused e) := by
  have hplace : Text.ofString "invalid command stream: record " ++ Text.ofNat number =
      "invalid command stream: " ++
        (Text.ofString "record " ++ Text.ofNat number) := by
    rw [← List.append_assoc]
    rfl
  refine .inr ⟨e, rfl, hplace ▸ ?_⟩
  unfold StreamReader.readRecord at h
  split at h
  · cases h
    exact List.prefix_append_of_prefix (List.prefix_append ..)
  · split at h
    · cases h
      exact List.prefix_append_of_prefix (List.prefix_append ..)
    · split at h
      · cases h
        exact (List.prefix_append_right_inj _).mpr (List.prefix_append ..)
      · cases h

def commands (replies : List StreamReply) : List Command :=
  replies.filterMap fun
    | .command c => some c
    | _ => none

theorem count_replies (r : StreamReader) (n : Nat) :
    (r.replies n).2.count = r.count + (commands (r.replies n).1).length := by
  induction n generalizing r with
  | zero => rfl
  | succ n ih =>
    rw [replies_succ]
    cases hr : r.finished with
    | true =>
      rw [next_ended hr]
      exact ih r
    | false =>
      obtain ⟨last, hnext, hlast⟩ | ⟨s, c, octets, rest, -, -, hnext⟩ := next_cases hr
      · rw [hnext]
        rcases hlast with ⟨rfl, -⟩ | ⟨e, rfl, -⟩ <;> exact ih { r with finished := true }
      · rw [hnext]
        simp only [ih, commands, List.filterMap_cons, List.length_cons]
        omega

/-- A record takes octets off the data, so the induction is on the length of the data. -/
theorem replies_close {r : StreamReader} (hr : r.finished = false) :
    ∃ (cs : List Command) (last : StreamReply),
      cs.length ≤ r.bound ∧ Closes (r.count + cs.length + 1) last ∧
      (∀ c ∈ cs, c.major ≠ [] ∧ Stream.Moderate c) ∧
      ∀ n, (r.replies (cs.length + 1 + n)).1 =
        cs.map .command ++ last :: List.replicate n .ended := by
  induction hlength : r.data.length using Nat.strongRecOn generalizing r with
  | ind length ih =>
    obtain ⟨last, hnext, hlast⟩ | ⟨s, c, octets, rest, hdata, hframed, hnext⟩ := next_cases hr
    · refine ⟨[], last, Nat.zero_le _, ?_, by simp, fun n => ?_⟩
      · rcases hlast with ⟨rfl, -⟩ | ⟨e, rfl, he⟩
        · exact .inl rfl
        · exact closes_of_readRecord he
      · rw [List.length_nil, Nat.zero_add, Nat.add_comm, replies_succ, hnext, replies_ended rfl]
        rfl
    · have hshort : rest.length < r.data.length := by
        simp [hdata, List.length_pos_iff.mpr hframed.ne_nil]
      obtain ⟨cs, last, hbound, hlast, hcs, hreplies⟩ := ih rest.length (hlength ▸ hshort)
        (r := { r with data := rest, count := r.count + 1, digested := octets :: r.digested })
        hr rfl
      refine ⟨c :: cs, last, ?_, ?_, List.forall_mem_cons.mpr ⟨hframed.moderate, hcs⟩, fun n => ?_⟩
      · exact Nat.le_trans (Nat.succ_le_succ hbound) hshort
      · rwa [List.length_cons, Nat.add_comm cs.length, ← Nat.add_assoc]
      · have hmore : (c :: cs).length + 1 + n = cs.length + 1 + n + 1 := by
          rw [List.length_cons]
          omega
        rw [hmore, replies_succ, hnext]
        simp only [hreplies]
        rfl

/-- The reader answers commands, no more than there are octets, then the end or one error about the
next record, and after that the end. Its count is at any time the number of commands answered. -/
def Survives (r : StreamReader) : Prop :=
  ∃ (cs : List Command) (last : StreamReply),
    cs.length ≤ r.bound ∧ Closes (cs.length + 1) last ∧
    (∀ c ∈ cs, c.major ≠ [] ∧ Stream.Moderate c) ∧
    (∀ n, (r.replies (cs.length + 1 + n)).1 =
      cs.map .command ++ last :: List.replicate n .ended) ∧
    ∀ n, (r.replies n).2.count = (commands (r.replies n).1).length

theorem survives_any_stream (t : Text) (r : StreamReader) (h : ofText t = .ok r) : r.Survives := by
  obtain ⟨data, -, rfl⟩ := ofText_ok h
  obtain ⟨cs, last, hbound, hlast, hcs, hreplies⟩ := replies_close (r := { data }) rfl
  refine ⟨cs, last, hbound, by simpa using hlast, hcs, hreplies, fun n => ?_⟩
  simpa using count_replies { data } n

/-- A record of open length whose text comes in chunks, and then an array of `2 ^ 64 - 1` items. -/
def hugeArray : Text :=
  [0xBF, 0x01, 0x7F, 0x61, 0x61, 0x61, 0x62, 0xFF, 0xFF,
    0x9B, 0xFF, 0xFF, 0xFF, 0xFF, 0xFF, 0xFF, 0xFF, 0xFF]

theorem survives_huge_array :
    let r : StreamReader := { data := hugeArray }
    ofText (Stream.preamble ++ hugeArray) = .ok r ∧ r.Survives ∧ (r.replies 3).1 =
      [.command { major := "ab" }, .refused (.record 2 (.unreadable .tooLong)), .ended] :=
  ⟨rfl, survives_any_stream (Stream.preamble ++ hugeArray) _ rfl, by decide +kernel⟩

end StreamReader
end Toolpath
