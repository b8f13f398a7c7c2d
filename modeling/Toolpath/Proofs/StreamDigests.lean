import Toolpath.Proofs.RoundTrip

/-!
# Digests of streams

A reader digests the records as they stand in the stream, but for the marks in
front of them, and a writer digests the records that it writes. A command has
more than one record, so the digest of a stream tells not only its commands
but also how they were written.
-/

namespace Toolpath.StreamReader

def fed (r : StreamReader) : Text := r.digested.reverse.flatten

/-- A stream that is read as these commands, and then ends, is made of records of these commands.
Each is a pair: the record itself, and what counts of it. -/
theorem exists_records {cs : List Command} {r r' : StreamReader} (hr : r.finished = false)
    (h : r.replies (cs.length + 1) = (cs.map .command ++ [.ended], r')) :
    ∃ ss : List (Text × Text), r.data = (ss.map Prod.fst).flatten ∧
      List.Forall₂ (fun s c => Framed s.1 c s.2) ss cs ∧
      r'.digested = (ss.map Prod.snd).reverse ++ r.digested := by
  induction cs generalizing r with
  | nil =>
    rw [List.length_nil, replies_succ] at h
    obtain ⟨hended, hrest⟩ := Prod.mk.inj h
    obtain ⟨last, hnext, ⟨-, hdata⟩ | ⟨e, rfl, -⟩⟩ | ⟨s, c, octets, rest, -, -, hnext⟩ :=
      next_cases hr
    · refine ⟨[], hdata, .nil, ?_⟩
      rw [← hrest, hnext]
      rfl
    all_goals
      rw [hnext] at hended
      cases hended
  | cons c cs ih =>
    rw [List.length_cons, replies_succ] at h
    obtain ⟨hreplies, hrest⟩ := Prod.mk.inj h
    obtain ⟨hfirst, hothers⟩ := List.cons.inj hreplies
    obtain ⟨last, hnext, hlast⟩ | ⟨s, d, octets, rest, hdata, hframed, hnext⟩ := next_cases hr
    · rw [hnext] at hfirst
      rcases hlast with ⟨rfl, -⟩ | ⟨e, rfl, -⟩ <;> cases hfirst
    · rw [hnext] at hfirst hothers hrest
      obtain rfl := StreamReply.command.inj hfirst
      obtain ⟨ss, hss, hframes, hdigested⟩ := ih
        (r := { r with data := rest, count := r.count + 1, digested := octets :: r.digested })
        hr (Prod.ext hothers hrest)
      refine ⟨(s, octets) :: ss, ?_, .cons hframed hframes, ?_⟩
      · simpa using hdata.trans (congrArg (s ++ ·) hss)
      · simpa using hdigested

/-- A stream that is read to its end is made of records of its commands, and what counts of these is
digested. That is what a writer of the commands digests just when, behind a preamble, it is what
the writer writes; without marks, just when it is the same stream. The digests are then the same. -/
theorem fed_eq_records_iff (t : Text) (cs : List Command) {r r' : StreamReader}
    (hopen : ofText t = .ok r)
    (hread : r.replies (cs.length + 1) = (cs.map .command ++ [.ended], r')) :
    ∃ (ss : List (Text × Text)) (w w' : StreamWriter),
      t = Stream.preamble ++ (ss.map Prod.fst).flatten ∧
      List.Forall₂ (fun s c => Framed s.1 c s.2) ss cs ∧ r'.fed = (ss.map Prod.snd).flatten ∧
      StreamWriter.writeAll {} cs = (none, w) ∧ w.close = (.ok w'.digest, w') ∧
      (r'.fed = (Stream.records cs).flatten ↔
        w'.tape.contents = Stream.preamble ++ (ss.map Prod.snd).flatten) ∧
      ((∀ s ∈ ss, s.1 = s.2) →
        (r'.fed = (Stream.records cs).flatten ↔ w'.tape.contents = t)) ∧
      (r'.fed = (Stream.records cs).flatten → r'.digest = w'.digest) := by
  obtain ⟨data, rfl, rfl⟩ := ofText_ok hopen
  obtain ⟨ss, hdata, hframes, hdigested⟩ := exists_records rfl hread
  obtain ⟨w, w', hwrite, hclose, -, hdigest, hcontents⟩ := StreamWriter.written cs
  have hfed : r'.fed = (ss.map Prod.snd).flatten := by
    rw [fed, hdigested, List.append_nil, List.reverse_reverse]
  have hiff : r'.fed = (Stream.records cs).flatten ↔
      w'.tape.contents = Stream.preamble ++ (ss.map Prod.snd).flatten := by
    rw [hcontents, hfed, List.append_cancel_left_eq]
    exact eq_comm
  refine ⟨ss, w, w', congrArg _ hdata, hframes, hfed, hwrite, hclose, hiff, fun hbare => ?_,
    fun hsame => ?_⟩
  · have hmap : ss.map Prod.fst = ss.map Prod.snd := List.map_congr_left hbare
    rw [hiff, ← hmap, ← show data = _ from hdata]
  · rw [hdigest, ← hsame]
    rfl

/-- A record with a mark in front counts like the record alone. -/
theorem fed_eq_records_marked :
    let r : StreamReader := { data := [0xD9, 0xD9, 0xF7, 0xA1, 0x01, 0x61, 0x61] }
    let cs : List Command := [{ major := "a" }]
    (r.replies 2).1 = cs.map .command ++ [.ended] ∧
      ∃ w w', StreamWriter.writeAll {} cs = (none, w) ∧ w.close = (.ok w'.digest, w') ∧
        (r.replies 2).2.digest = w'.digest := by
  intro r cs
  obtain ⟨-, w, w', -, -, -, hwrite, hclose, -, -, hdigest⟩ :=
    fed_eq_records_iff (Stream.preamble ++ r.data) cs (ofText_preamble r.data) rfl
  exact ⟨rfl, w, w', hwrite, hclose, hdigest rfl⟩

/-- A text whose length takes an octet of its own makes the same command and another digest. -/
theorem digest_differs :
    let r : StreamReader := { data := [0xA1, 0x01, 0x78, 0x01, 0x61] }
    (r.replies 2).1 = [.command { major := "a" }, .ended] ∧
      (r.replies 2).2.fed ≠ (Stream.records [{ major := "a" }]).flatten ∧
      (r.replies 2).2.digest ≠ Digest.blake2b (Stream.records [{ major := "a" }]).flatten := by
  decide +kernel

end Toolpath.StreamReader
