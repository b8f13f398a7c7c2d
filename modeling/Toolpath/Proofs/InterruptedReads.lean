import Toolpath.Proofs.Statements
import Toolpath.Source

/-!
# Interrupted reads

A source that is told to stop answers so and keeps its place, also between the
lines of one statement: the next request that it may answer gets what it would
have got at once.
-/

namespace Toolpath

namespace Lexer

theorem readLine_ne_cancelled (l : Lexer) (raw : Text) (rest : List Text) :
    (l.readLine raw rest).1 ≠ some .cancelled := by
  obtain ⟨t, ht⟩ := readLine_cases l raw rest
  rw [ht]
  cases Layout.kind (l.advance raw rest).1 <;> simp

theorem finish_ne_cancelled (l : Lexer) : l.finish.1 ≠ .cancelled := by
  unfold finish
  cases l.broken with
  | some reason => simp
  | none =>
    dsimp only
    split <;> simp

theorem readLine_finished (l : Lexer) (raw : Text) (rest : List Text) :
    (l.readLine raw rest).2.finished = l.finished := by
  obtain ⟨t, ht⟩ := readLine_cases l raw rest
  rw [ht]
  cases Layout.kind (l.advance raw rest).1 <;> rfl

theorem readUntil_ne_cancelled (i : Nat) (l : Lexer) (lines : List Text) :
    (readUntil (fun _ => false) i l lines).1 ≠ .cancelled := by
  induction lines generalizing i l with
  | nil => exact finish_ne_cancelled _
  | cons raw rest ih =>
    have hline := readLine_ne_cancelled l raw rest
    rw [readUntil, if_neg Bool.false_ne_true]
    generalize l.readLine raw rest = answer at hline
    obtain ⟨_ | reply, l'⟩ := answer
    · exact ih (i + 1) l'
    · exact fun h => hline (congrArg some h)

theorem readUntil_cons (i : Nat) (l : Lexer) (raw : Text) (rest : List Text) :
    readUntil (fun _ => false) i l (raw :: rest) =
      match l.readLine raw rest with
      | (some reply, l) => (reply, l)
      | (none, l) => readUntil (fun _ => false) (i + 1) l rest := rfl

theorem readUntil_looks (i j : Nat) (l : Lexer) (lines : List Text) :
    readUntil (fun _ => false) i l lines = readUntil (fun _ => false) j l lines := by
  induction lines generalizing i j l with
  | nil => rfl
  | cons raw rest ih =>
    rw [readUntil_cons, readUntil_cons]
    generalize l.readLine raw rest = answer
    obtain ⟨_ | reply, l'⟩ := answer
    · exact ih (i + 1) (j + 1) l'
    · rfl

theorem readUntil_resumes (stop : Nat → Bool) (i : Nat) (l : Lexer) (lines : List Text) :
    readUntil stop i l lines = readUntil (fun _ => false) i l lines ∨
      ∃ l', readUntil stop i l lines = (.cancelled, l') ∧ l'.finished = l.finished ∧
        readUntil (fun _ => false) 0 l' l'.rest = readUntil (fun _ => false) i l lines := by
  induction lines generalizing i l with
  | nil =>
    cases hstop : stop i with
    | false =>
      rw [readUntil, readUntil, hstop]
      exact .inl rfl
    | true => exact .inr ⟨{ l with rest := [] }, by rw [readUntil, if_pos hstop], rfl, rfl⟩
  | cons raw rest ih =>
    cases hstop : stop i with
    | true =>
      -- The cancelled lexer differs from `l` in its `rest` only, which a line overwrites.
      have hsame : ({ l with rest := raw :: rest } : Lexer).readLine raw rest =
          l.readLine raw rest := rfl
      refine .inr ⟨{ l with rest := raw :: rest }, by rw [readUntil, if_pos hstop], rfl, ?_⟩
      rw [readUntil_cons, hsame, ← readUntil_cons, readUntil_looks]
    | false =>
      have hfinished := readLine_finished l raw rest
      rw [readUntil, hstop, if_neg Bool.false_ne_true, readUntil_cons]
      generalize l.readLine raw rest = answer at hfinished ⊢
      obtain ⟨_ | reply, l'⟩ := answer
      · obtain h | ⟨l'', h, hkept, hrest⟩ := ih (i + 1) l'
        · exact .inl h
        · exact .inr ⟨l'', h, hkept.trans hfinished, hrest⟩
      · exact .inl rfl

theorem nextUnless_resumes (stop : Nat → Bool) (l : Lexer) :
    l.nextUnless stop = l.next ∨
      ∃ l', l.nextUnless stop = (.cancelled, l') ∧ l'.next = l.next := by
  unfold next nextUnless
  cases hfinished : l.finished with
  | true =>
    cases hstop : stop 0 with
    | false => exact .inl rfl
    | true => exact .inr ⟨l, rfl, by rw [hfinished]⟩
  | false =>
    obtain h | ⟨l', h, hkept, hrest⟩ := readUntil_resumes stop 0 l l.rest
    · exact .inl h
    · exact .inr ⟨l', h, by rw [hkept, hfinished]; exact hrest⟩

theorem next_ne_cancelled (l : Lexer) : l.next.1 ≠ .cancelled := by
  unfold next nextUnless
  cases l.finished with
  | true => simp
  | false => exact readUntil_ne_cancelled 0 l l.rest

end Lexer

namespace StreamReader

theorem next_resumes (cancelled : Bool) (r : StreamReader) :
    r.next cancelled = r.next ∨ r.next cancelled = (.cancelled, r) := by
  cases cancelled with
  | false => exact .inl rfl
  | true =>
    unfold next
    cases r.finished with
    | true => exact .inl rfl
    | false => exact .inr rfl

theorem next_ne_cancelled (r : StreamReader) : r.next.1 ≠ .cancelled := by
  unfold next
  split
  · simp
  split
  · contradiction
  split
  · simp
  · split <;> simp

end StreamReader

namespace Source

theorem ofLexer_ne_cancelled {reply : LexerReply} (h : reply ≠ .cancelled) :
    (ofLexer reply).1 ≠ .cancelled := by
  cases reply with
  | cancelled => exact absurd rfl h
  | _ => simp [ofLexer]

theorem ofStream_ne_cancelled {reply : StreamReply} (h : reply ≠ .cancelled) :
    ofStream reply ≠ .cancelled := by
  cases reply with
  | cancelled => exact absurd rfl h
  | _ => simp [ofStream]

/-- A source either answers as if no one had told it to stop, or answers that it was told so
and then has everything still before it. -/
theorem next_resumes (stop : Nat → Bool) (src : Source) :
    src.next stop = src.next (fun _ => false) ∨
      ∃ src', src.next stop = ((.cancelled, []), src') ∧
        src'.next (fun _ => false) = src.next fun _ => false := by
  cases src with
  | program l =>
    obtain h | ⟨l', h, hrest⟩ := l.nextUnless_resumes stop
    · exact .inl (by rw [next, h]; rfl)
    · refine .inr ⟨.program l', by rw [next, h]; rfl, ?_⟩
      change (ofLexer l'.next.1, program l'.next.2) = (ofLexer l.next.1, program l.next.2)
      rw [hrest]
  | stream r =>
    obtain h | h := r.next_resumes (stop 0)
    · exact .inl (by rw [next, h]; rfl)
    · exact .inr ⟨.stream r, by rw [next, h]; rfl, rfl⟩
  | listed commands ending =>
    cases hstop : stop 0 with
    | false => exact .inl (by cases commands <;> cases ending <;> simp [next, hstop])
    | true =>
      rw [next.eq_def]
      exact .inr ⟨.listed commands ending, if_pos hstop, rfl⟩

theorem next_ne_cancelled (src : Source) : (src.next fun _ => false).1.1 ≠ .cancelled := by
  cases src with
  | program l => exact ofLexer_ne_cancelled l.next_ne_cancelled
  | stream r => exact ofStream_ne_cancelled r.next_ne_cancelled
  | listed commands ending => cases commands <;> cases ending <;> simp [next]

theorem next_of_ne_cancelled {stop : Nat → Bool} {src : Source}
    (h : (src.next stop).1.1 ≠ .cancelled) : src.next stop = src.next fun _ => false := by
  obtain hsame | ⟨src', hstopped, -⟩ := src.next_resumes stop
  · exact hsame
  · rw [hstopped] at h
    exact absurd rfl h

def repliesTo (src : Source) : List (Nat → Bool) → List (SourceReply × List Note)
  | [] => []
  | stop :: stops => (src.next stop).1 :: (src.next stop).2.repliesTo stops

theorem repliesTo_append (src : Source) (stops stops' : List (Nat → Bool)) :
    src.repliesTo stops <+: src.repliesTo (stops ++ stops') := by
  induction stops generalizing src with
  | nil => exact List.nil_prefix
  | cons stop stops ih => exact List.cons_prefix_cons.mpr ⟨rfl, ih _⟩

theorem repliesTo_congr {src src' : Source}
    (h : src'.next (fun _ => false) = src.next fun _ => false) (n : Nat) :
    src'.repliesTo (.replicate n fun _ => false) = src.repliesTo (.replicate n fun _ => false) := by
  cases n with
  | zero => rfl
  | succ n => rw [List.replicate_succ, repliesTo, repliesTo, h]

theorem repliesTo_ne_cancelled (src : Source) (n : Nat) :
    ∀ reply ∈ src.repliesTo (.replicate n fun _ => false), reply.1 ≠ .cancelled := by
  induction n generalizing src with
  | zero => exact fun _ h => nomatch h
  | succ n ih => exact List.forall_mem_cons.mpr ⟨src.next_ne_cancelled, ih _⟩

/-- However a source is told to stop and asked again, what it answers besides its
cancellations is the beginning of what it answers to as many requests that no one cancels;
and those it answers all. -/
theorem interrupted_reads_lose_nothing (src : Source) (stops : List (Nat → Bool)) :
    (src.repliesTo stops).filter (fun reply => reply.1 ≠ .cancelled) <+:
        src.repliesTo (.replicate stops.length fun _ => false) ∧
      ∀ reply ∈ src.repliesTo (.replicate stops.length fun _ => false), reply.1 ≠ .cancelled := by
  refine ⟨?_, src.repliesTo_ne_cancelled _⟩
  induction stops generalizing src with
  | nil => exact List.nil_prefix
  | cons stop stops ih =>
    obtain hsame | ⟨src', hstopped, hkept⟩ := src.next_resumes stop
    · rw [repliesTo, hsame, List.filter_cons_of_pos (by simpa using src.next_ne_cancelled)]
      exact List.cons_prefix_cons.mpr ⟨rfl, ih _⟩
    · rw [repliesTo, hstopped, List.filter_cons_of_neg (by simp), List.length_cons,
        List.replicate_succ']
      have hrest := ih src'
      rw [repliesTo_congr hkept] at hrest
      exact hrest.trans (src.repliesTo_append _ _)

end Source
end Toolpath
