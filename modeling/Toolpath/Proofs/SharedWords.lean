import Mathlib.Data.List.Basic
import Toolpath.Proofs.Blocks
import Toolpath.Proofs.Doubles

/-!
# Blocks of shared words

Reading a word for a block changes it, and a word may be queued several times and tracked as well.
What a block holds is told here by the words as they were before: only the number of times that a
word was queued already matters, and that only for counters and for flags.
-/

namespace Toolpath

open Registers (normalName)

variable {n : Numeric} {q : Queued} {qs : List Queued} {ref : WordRef}

namespace Word

def pushed (m : Nat) : Word → Word
  | numeric n => numeric (if m = 0 then n else n.settled)
  | remark r => remark r
  | counter c => counter
      (if m = 0 then c else { c with value := c.value + Int64.ofNat m * c.step, changed := true })

@[simp] theorem pushed_zero (w : Word) : w.pushed 0 = w := by cases w <;> simp [pushed]

theorem pushed_pushed (w : Word) (j k : Nat) : (w.pushed j).pushed k = w.pushed (j + k) := by
  cases w with
  | numeric n =>
    by_cases hj : j = 0
    · simp [pushed, hj]
    · by_cases hk : k = 0
      · simp [pushed, hk]
      · simp [pushed, hj, hk, Numeric.settled_settled]
  | remark r => rfl
  | counter c =>
    by_cases hj : j = 0
    · simp [pushed, hj]
    · by_cases hk : k = 0
      · simp [pushed, hk]
      · simp only [pushed, hj, hk, if_false, Nat.add_eq_zero_iff, false_and]
        rw [Int64.ofNat_add, Int64.add_mul, Int64.add_assoc]

theorem forcedToken_eq (w : Word) : w.forcedToken = (w.render, w.pushed 1) := by
  cases w with
  | numeric n =>
    rw [forcedToken_numeric]
    rfl
  | remark r => simp [forcedToken, token, shouldOutput, modal, written, pushed]
  | counter c =>
    have hflag : (counter c).pushed 1 = counter c.increment := by simp [pushed, Counter.increment]
    rw [hflag, forcedToken]
    split
    next h => simp [token, h, written]
    next h =>
      simp [token, shouldOutput, flagged, changed, written, render, Counter.render,
        Counter.increment]

theorem changed_pushed (w : Word) (m : Nat) : (w.pushed m).changed =
    match w with
    | numeric n => n.changed && (m = 0 || !n.modal)
    | remark r => r.changed
    | counter c => c.changed || m ≠ 0 := by
  cases w with
  | numeric n =>
    by_cases hm : m = 0
    · simp [pushed, hm, changed]
    · cases hmodal : n.modal <;> simp [pushed, hm, changed, Numeric.settled, hmodal]
  | remark r => rfl
  | counter c => by_cases hm : m = 0 <;> simp [pushed, hm, changed]

theorem changed_of_written {w : Word} (h : w.written = numeric n)
    (hmodal : n.modal = true) : n.changed = false := by
  cases w with
  | numeric n' =>
    cases hm : n'.modal <;> simp only [written, hm, if_true, Bool.false_eq_true, if_false] at h <;>
      cases h
    · rw [hm] at hmodal
      cases hmodal
    · rfl
  | remark r => cases h
  | counter c => cases h

def read (w : Word) : Word := if w.changed then w.written else w

end Word

/-! ## Words of a rack -/

/-- The reference that a word is known by: the name of a register is in normal form. -/
def WordRef.IsNormal : WordRef → Prop
  | .register a => normalName a = a
  | .loose _ => True

instance : DecidablePred WordRef.IsNormal
  | .register a => inferInstanceAs (Decidable (normalName a = a))
  | .loose _ => inferInstanceAs (Decidable True)

namespace Rack

def change (rack : Rack) (f : Word → Word) (ref : WordRef) : Rack :=
  match rack.get? ref with
  | some w => rack.set ref (f w)
  | none => rack

def KeepsKind (f : Word → Word) : Prop :=
  ∃ g : Numeric → Numeric, ∀ n, f (.numeric n) = .numeric (g n)

variable {rack : Rack} {f : Word → Word} {r s : WordRef}

theorem Indexed.set (hi : rack.registers.Indexed) (r : WordRef) (w : Word) :
    (rack.set r w).registers.Indexed := by
  unfold Rack.set
  split
  · exact hi.modify _ _
  · exact hi
  · exact hi

theorem indexed_change (hi : rack.registers.Indexed) (f : Word → Word) (r : WordRef) :
    (rack.change f r).registers.Indexed := by
  unfold change
  split
  · exact Indexed.set hi r _
  · exact hi

theorem change_register {g : Numeric → Numeric} (hg : ∀ n, f (.numeric n) = .numeric (g n))
    (rack : Rack) (a : Text) :
    rack.change f (.register a) = { rack with registers := rack.registers.modify a g } := by
  unfold change
  rw [get?]
  cases hn : rack.registers.find? a with
  | none => rw [Registers.modify_missing hn]; rfl
  | some n =>
    change rack.set _ (f (.numeric n)) = _
    rw [hg, set_register, Registers.modify_const hn]

theorem get?_change (hi : rack.registers.Indexed) (hf : KeepsKind f) (hr : r.IsNormal)
    (hs : s.IsNormal) :
    (rack.change f r).get? s = if s = r then (rack.get? s).map f else rack.get? s := by
  cases r with
  | register a =>
    obtain ⟨g, hg⟩ := hf
    rw [change_register hg]
    cases s with
    | loose i => rfl
    | register b =>
      simp only [get?]
      by_cases h : b = a
      · rw [if_pos (congrArg _ h), Registers.find?_modify_same (congrArg _ h)]
        cases rack.registers.find? b with
        | none => rfl
        | some n => exact congrArg some (hg n).symm
      · have hnames : normalName b ≠ normalName a := by rwa [hr, hs]
        rw [if_neg (by simpa using h), Registers.find?_modify_other hi hnames]
  | loose i =>
    unfold change
    cases hw : rack.get? (.loose i) with
    | none =>
      by_cases h : s = .loose i
      · simp [h, hw]
      · simp [h]
    | some w =>
      cases s with
      | register b => rfl
      | loose j =>
        by_cases h : j = i
        · subst h
          rw [if_pos rfl, hw]
          obtain ⟨hlt, -⟩ := List.getElem?_eq_some_iff.mp hw
          exact List.getElem?_set_self hlt
        · rw [if_neg (by simpa using h)]
          exact List.getElem?_set_ne (Ne.symm h)

theorem keepsKind_pushed (m : Nat) : KeepsKind (Word.pushed m) :=
  ⟨fun n => if m = 0 then n else n.settled, fun _ => rfl⟩

theorem keepsKind_read : KeepsKind Word.read :=
  ⟨fun n => if n.changed then n.settled else n, fun n => by
    cases h : n.changed <;> simp [Word.read, Word.changed, h, Word.written, Numeric.settled]⟩

end Rack

def Token.isFrom (ref : WordRef) (t : Token) : Bool :=
  t.origin = .queued (.shared ref) || t.origin = .tracked ref

namespace BlockWriter

variable {rack : Rack}

/-- The token of a queued word, by the words as they are when the block is begun and the words
queued before it. -/
def pushedText (rack : Rack) (before : List Queued) : Queued → Text
  | .shared ref =>
    match rack.get? ref with
    | some w => (w.pushed (before.count (.shared ref))).render
    | none => []
  | .once w => w.render
  | .code c => c.text

def pushedTokens (rack : Rack) (qs : List Queued) : List Token :=
  qs.mapIdx fun i q => ⟨.queued q, pushedText rack (qs.take i) q⟩

def flaggedTokens (rack : Rack) (qs : List Queued) (refs : List WordRef) : List Token :=
  refs.filterMap fun ref =>
    match rack.get? ref with
    | some w =>
      let w := w.pushed (qs.count (.shared ref))
      if w.changed then some ⟨.tracked ref, w.render⟩ else none
    | none => none

/-- Every queued word of the rack is known by its reference in normal form. -/
def NormalQueue (qs : List Queued) : Prop := ∀ ref, .shared ref ∈ qs → ref.IsNormal

theorem queuedText_shared (rack : Rack) (ref : WordRef) :
    queuedText rack (.shared ref) =
      (pushedText rack [] (.shared ref), rack.change (Word.pushed 1) ref) := by
  simp only [queuedText, Rack.emit, pushedText, Rack.change]
  cases rack.get? ref with
  | none => rfl
  | some w => simp [Word.forcedToken_eq]

structure Pushed (qs : List Queued) (rack rack' : Rack) : Prop where
  indexed : rack'.registers.Indexed
  words : ∀ ref : WordRef, ref.IsNormal →
    rack'.get? ref = (rack.get? ref).map (Word.pushed (qs.count (.shared ref)))

theorem pushed_one (hi : rack.registers.Indexed) (hq : NormalQueue [q]) :
    (queuedText rack q).1 = pushedText rack [] q ∧ Pushed [q] rack (queuedText rack q).2 := by
  have hsame : Option.map (Word.pushed 0) = id := by
    funext w
    cases w <;> simp
  cases q with
  | shared r =>
    rw [queuedText_shared]
    refine ⟨rfl, Rack.indexed_change hi _ _, fun ref href => ?_⟩
    rw [Rack.get?_change hi (Rack.keepsKind_pushed 1) (hq r (by simp)) href]
    by_cases h : ref = r
    · simp [h]
    · have hcount : [Queued.shared r].count (.shared ref) = 0 := by
        simp [Ne.symm h]
      rw [if_neg h, hcount, hsame]
      rfl
  | once w =>
    refine ⟨by simp [queuedText, pushedText, Word.forcedToken_eq], hi, fun ref href => ?_⟩
    rw [show [Queued.once w].count (.shared ref) = 0 by simp, hsame]
    rfl
  | code c =>
    refine ⟨by simp [queuedText, pushedText, Word.forcedToken_code], hi, fun ref href => ?_⟩
    rw [show [Queued.code c].count (.shared ref) = 0 by simp, hsame]
    rfl

theorem pushedText_cons {rack' : Rack} (h : Pushed [q] rack rack')
    (before : List Queued) {q' : Queued} (hq' : NormalQueue [q']) :
    pushedText rack' before q' = pushedText rack (q :: before) q' := by
  cases q' with
  | shared ref =>
    rw [pushedText, pushedText, h.words ref (hq' ref (by simp))]
    cases rack.get? ref with
    | none => rfl
    | some w =>
      simp [Word.pushed_pushed, List.count_cons, Nat.add_comm]
  | once w => rfl
  | code c => rfl

theorem Pushed.cons {rack' rack'' : Rack} (h : Pushed [q] rack rack')
    (h' : Pushed qs rack' rack'') : Pushed (q :: qs) rack rack'' := by
  refine ⟨h'.indexed, fun ref href => ?_⟩
  rw [h'.words ref href, h.words ref href, Option.map_map]
  congr 1
  funext w
  simp [Word.pushed_pushed, List.count_cons, Nat.add_comm]

theorem tokens_queued (hi : rack.registers.Indexed) (qs : List Queued) (hqs : NormalQueue qs) :
    (tokens .queued queuedText rack qs).1 = pushedTokens rack qs ∧
      Pushed qs rack (tokens .queued queuedText rack qs).2 := by
  induction qs generalizing rack with
  | nil => exact ⟨rfl, hi, fun ref _ => by cases h : rack.get? ref <;> simp [tokens, h]⟩
  | cons q qs ih =>
    have hrest : NormalQueue qs := fun ref h => hqs ref (List.mem_cons_of_mem q h)
    obtain ⟨htext, hone⟩ := pushed_one hi (q := q) fun ref h => hqs ref (by simp_all)
    obtain ⟨htokens, hall⟩ := ih hone.indexed hrest
    refine ⟨?_, hone.cons hall⟩
    rw [tokens, pushedTokens, List.mapIdx_cons]
    change ⟨.queued q, (queuedText rack q).1⟩ :: (tokens .queued queuedText _ qs).1 = _
    rw [htext, htokens]
    congr 1
    -- the others are read from what the first one left, which counts as one more before them
    refine List.mapIdx_eq_mapIdx_iff.mpr fun i hlt => ?_
    rw [List.take_succ_cons, pushedText_cons hone]
    intro ref h
    refine hrest ref ?_
    rw [List.mem_singleton.mp h]
    exact List.getElem_mem hlt

def flaggedText (rack : Rack) (ref : WordRef) : Text :=
  match rack.get? ref with
  | some w => if w.changed then w.render else []
  | none => []

structure Read (refs : List WordRef) (rack rack' : Rack) : Prop where
  indexed : rack'.registers.Indexed
  words : ∀ ref : WordRef, ref.IsNormal →
    rack'.get? ref = if ref ∈ refs then (rack.get? ref).map Word.read else rack.get? ref

theorem read_one (hi : rack.registers.Indexed) {r : WordRef} (hr : r.IsNormal) :
    (trackedText rack r).1 = flaggedText rack r ∧ Read [r] rack (trackedText rack r).2 := by
  unfold trackedText flaggedText
  cases hw : rack.get? r with
  | none =>
    refine ⟨rfl, hi, fun ref href => ?_⟩
    by_cases h : ref = r
    · simp [h, hw]
    · simp [h]
  | some w =>
    cases hc : w.changed with
    | false =>
      simp only [hc, Bool.false_eq_true, if_false]
      refine ⟨trivial, hi, fun ref href => ?_⟩
      by_cases h : ref = r
      · simp [h, hw, Word.read, hc]
      · simp [h]
    | true =>
      have htoken : w.token = (w.render, w.read) := by
        simp [Word.token, Word.shouldOutput, hc, Word.read]
      have hemit : rack.emit Word.token r = (w.render, rack.change Word.read r) := by
        simp [Rack.emit, Rack.change, hw, htoken]
      simp only [hc, if_true, hemit]
      refine ⟨trivial, Rack.indexed_change hi _ _, fun ref href => ?_⟩
      rw [Rack.get?_change hi Rack.keepsKind_read hr href]
      simp

theorem tokens_tracked (hi : rack.registers.Indexed) (refs : List WordRef)
    (hrefs : ∀ r ∈ refs, r.IsNormal) (hnodup : refs.Nodup) :
    (tokens .tracked trackedText rack refs).1 =
      refs.map (fun r => ⟨.tracked r, flaggedText rack r⟩) ∧
      Read refs rack (tokens .tracked trackedText rack refs).2 := by
  induction refs generalizing rack with
  | nil => exact ⟨rfl, hi, fun ref _ => by simp [tokens]⟩
  | cons r refs ih =>
    obtain ⟨hr, hrest⟩ := List.forall_mem_cons.mp hrefs
    obtain ⟨hnew, hnodup⟩ := List.nodup_cons.mp hnodup
    obtain ⟨htext, hone⟩ := read_one hi hr
    obtain ⟨htokens, hall⟩ := ih hone.indexed hrest hnodup
    rw [tokens]
    change (⟨.tracked r, (trackedText rack r).1⟩ :: (tokens .tracked trackedText _ refs).1 = _ ∧
      Read (r :: refs) rack (tokens .tracked trackedText (trackedText rack r).2 refs).2)
    refine ⟨?_, hall.indexed, fun ref href => ?_⟩
    · rw [htext, htokens, List.map_cons]
      congr 1
      refine List.map_congr_left fun s hs => ?_
      have hne : s ≠ r := fun h => hnew (h ▸ hs)
      rw [flaggedText, hone.words s (hrest s hs), if_neg (by simpa using hne), flaggedText]
    · rw [hall.words ref href, hone.words ref href]
      by_cases h : ref = r
      · subst h
        simp [hnew]
      · simp [h]

theorem filter_flagged {rack' : Rack} (h : Pushed qs rack rack')
    (refs : List WordRef) (hrefs : ∀ r ∈ refs, r.IsNormal) :
    (refs.map fun r => (⟨.tracked r, flaggedText rack' r⟩ : Token)).filter (!·.text.isEmpty) =
      (flaggedTokens rack qs refs).filter (!·.text.isEmpty) := by
  induction refs with
  | nil => rfl
  | cons r refs ih =>
    obtain ⟨hr, hrest⟩ := List.forall_mem_cons.mp hrefs
    rw [List.map_cons, flaggedTokens, List.filterMap_cons, flaggedText, h.words r hr]
    cases hw : rack.get? r with
    | none => exact ih hrest
    | some w =>
      cases hc : (w.pushed (qs.count (.shared r))).changed with
      | false =>
        simp only [Option.map_some, hc, Bool.false_eq_true, if_false, List.filter_cons]
        exact ih hrest
      | true =>
        simp only [Option.map_some, hc, if_true, List.filter_cons]
        split
        · exact congrArg _ (ih hrest)
        · exact ih hrest

/-- The references of a writer are those that its words are known by, and it tracks no word twice.
-/
structure Orderly (w : BlockWriter) : Prop where
  pending : NormalQueue w.pending
  tracked : ∀ r ∈ w.tracked, r.IsNormal
  nodup : w.tracked.Nodup

variable {w : BlockWriter}

theorem due_eq (hi : rack.registers.Indexed) (hw : w.Orderly) :
    w.due rack = (pushedTokens rack w.pending ++ flaggedTokens rack w.pending w.tracked).filter
      (!·.text.isEmpty) := by
  obtain ⟨hqueued, hpushed⟩ := tokens_queued hi w.pending hw.pending
  obtain ⟨htracked, -⟩ := tokens_tracked hpushed.indexed w.tracked hw.tracked hw.nodup
  simp only [due]
  rw [hqueued, htracked, List.filter_append, filter_flagged hpushed w.tracked hw.tracked,
    ← List.filter_append]

theorem get?_spent (hi : rack.registers.Indexed) (hw : w.Orderly) :
    (w.spent rack).registers.Indexed ∧ ∀ ref : WordRef, ref.IsNormal →
      (w.spent rack).get? ref = (rack.get? ref).map fun word =>
        let word := word.pushed (w.pending.count (.shared ref))
        if ref ∈ w.tracked then word.read else word := by
  obtain ⟨-, hpushed⟩ := tokens_queued hi w.pending hw.pending
  obtain ⟨-, hread⟩ := tokens_tracked hpushed.indexed w.tracked hw.tracked hw.nodup
  refine ⟨hread.indexed, fun ref href => ?_⟩
  rw [spent, hread.words ref href, hpushed.words ref href]
  split
  · rw [Option.map_map]
    rfl
  · rfl

theorem unflagged_spent (hi : rack.registers.Indexed) (hw : w.Orderly)
    (href : ref ∈ w.tracked) (hn : (w.spent rack).get? ref = some (.numeric n))
    (hmodal : n.modal = true) : n.changed = false := by
  rw [(get?_spent hi hw).2 ref (hw.tracked ref href)] at hn
  obtain ⟨word, -, hword⟩ := Option.map_eq_some_iff.mp hn
  simp only [href, if_true, Word.read] at hword
  cases hc : (word.pushed (w.pending.count (.shared ref))).changed with
  | false =>
    rw [hc, if_neg Bool.false_ne_true] at hword
    rw [hword] at hc
    exact hc
  | true =>
    rw [hc, if_pos rfl] at hword
    exact Word.changed_of_written hword hmodal

theorem filter_mapIdx {t : Text} (qs : List Queued) {f : Nat → Queued → Token}
    (horigin : ∀ i q, (f i q).origin = .queued q) (htext : ∀ i, (f i (.shared ref)).text = t) :
    ((qs.mapIdx f).filter (Token.isFrom ref)).map Token.text =
      List.replicate (qs.count (.shared ref)) t := by
  induction qs generalizing f with
  | nil => rfl
  | cons q qs ih =>
    have hrest := ih (f := fun i => f (i + 1)) (fun i => horigin (i + 1)) fun i => htext (i + 1)
    rw [List.mapIdx_cons, List.filter_cons, List.count_cons]
    by_cases hq : q = .shared ref
    · subst hq
      simp [Token.isFrom, horigin, htext, hrest, List.replicate_succ]
    · have hfrom : Token.isFrom ref (f 0 q) = false := by simp [Token.isFrom, horigin, hq]
      simp [hfrom, hrest, hq]

theorem pushedText_numeric (hn : rack.get? ref = some (.numeric n))
    (before : List Queued) : pushedText rack before (.shared ref) = n.render := by
  rw [pushedText, hn]
  dsimp only [Word.pushed, Word.render]
  split
  · rfl
  · exact n.render_settled

theorem flaggedTokens_apart (hn : rack.get? ref = some (.numeric n))
    (hmodal : n.modal = true) (hcount : qs.count (.shared ref) ≠ 0)
    (refs : List WordRef) : (flaggedTokens rack qs refs).filter (Token.isFrom ref) = [] := by
  rw [List.filter_eq_nil_iff]
  intro t ht hfrom
  obtain ⟨r, -, hr⟩ := List.mem_filterMap.mp ht
  split at hr
  next w hw =>
    rw [Option.ite_none_right_eq_some] at hr
    obtain ⟨hchanged, ht⟩ := hr
    obtain rfl := Option.some.inj ht
    obtain rfl : r = ref := by simpa [Token.isFrom] using hfrom
    obtain rfl := Option.some.inj (hw.symm.trans hn)
    simp [Word.changed_pushed, hcount, hmodal] at hchanged
  next => cases hr

theorem due_once (hi : rack.registers.Indexed) (hw : w.Orderly)
    (hn : rack.get? ref = some (.numeric n)) (hmodal : n.modal = true)
    (hcount : w.pending.count (.shared ref) = 1) :
    ((w.due rack).filter (Token.isFrom ref)).map Token.text = [n.render] := by
  have hpushed : ((pushedTokens rack w.pending).filter (Token.isFrom ref)).map Token.text =
      [n.render] := by
    rw [pushedTokens, filter_mapIdx (t := n.render) w.pending (fun _ _ => rfl)
      fun i => pushedText_numeric hn _, hcount]
    rfl
  have hcount0 : w.pending.count (.shared ref) ≠ 0 := by omega
  have hflagged := flaggedTokens_apart hn hmodal hcount0 w.tracked
  have hwhole : ∀ t ∈ (pushedTokens rack w.pending).filter (Token.isFrom ref),
      (!t.text.isEmpty) = true := by
    intro t ht
    have htext : t.text ∈ [n.render] := hpushed ▸ List.mem_map_of_mem ht
    have hrender : n.render ≠ [] := NumberFormat.format_ne_nil _ _
    simpa [List.mem_singleton.mp htext] using hrender
  rw [due_eq hi hw, List.filter_comm, List.filter_append, hflagged, List.append_nil,
    List.filter_eq_self.mpr hwhole, hpushed]

end BlockWriter
end Toolpath
