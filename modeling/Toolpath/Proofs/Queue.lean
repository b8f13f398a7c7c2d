import Toolpath.Proofs.Steps

/-!
# Words that wait

Queued words wait until a block is written. Each of them has a text, so all of
them go into the next block, in the order in which they were queued: either
nothing was written and more words wait, or the first block that was written
holds everything that waited.
-/

namespace Toolpath

/-- The word has a text; the tool number is the only register that is queued. -/
def Queued.Proper : Queued → Prop
  | .shared ref => ref = .register "T"
  | .once w => w.forcedToken.1 ≠ []
  | .code c => c.text ≠ []

theorem Queued.Proper.isOf {q : Queued} {r : Text} (hq : q.Proper)
    (hr : Registers.normalName "T" ≠ Registers.normalName r) :
    (Origin.queued q).isOf r = false := by
  cases q with
  | shared ref =>
    cases hq
    simpa [Origin.isOf] using hr
  | once => rfl
  | code => rfl

def Token.queued? (t : Token) : Option Queued :=
  match t.origin with
  | .queued q => some q
  | .tracked _ => none

def Block.queued (b : Block) : List Queued := b.tokens.filterMap Token.queued?

namespace BlockWriter

variable {rack : Rack}

theorem queuedText_ne_nil {q : Queued} (hq : q.Proper) (ht : rack.registers.Has "T") :
    (queuedText rack q).1 ≠ [] := by
  cases q with
  | shared ref =>
    cases hq
    obtain ⟨n, hn⟩ := ht
    rw [queuedText_register hn]
    exact n.format.format_ne_nil n.value
  | once w => exact hq
  | code c => rwa [queuedText_code]

theorem queued_tokens {qs : List Queued} (h : ∀ q ∈ qs, q.Proper) (hi : rack.registers.Indexed)
    (ht : rack.registers.Has "T") :
    ((tokens .queued queuedText rack qs).1.filter (!·.text.isEmpty)).filterMap Token.queued? =
      qs := by
  induction qs generalizing rack with
  | nil => rfl
  | cons q qs ih =>
    have hne := queuedText_ne_nil (h q List.mem_cons_self) ht
    have hreads := Reads.queued (r := "T") hi q
    have ht' : (queuedText rack q).2.registers.Has "T" := by
      obtain ⟨n, hn⟩ := ht
      rcases hreads.found n hn with h | ⟨h, -⟩
      · exact ⟨n, h⟩
      · exact ⟨n.settled, h⟩
    have hrest := ih (fun q hq => h q (List.mem_cons_of_mem _ hq)) (hreads.indexed hi) ht'
    rw [tokens, List.filter_cons_of_pos (by simpa using hne), List.filterMap_cons, hrest]
    rfl

theorem queued_due {w : BlockWriter} (h : ∀ q ∈ w.pending, q.Proper) (hi : rack.registers.Indexed)
    (ht : rack.registers.Has "T") : (w.due rack).filterMap Token.queued? = w.pending := by
  have htracked (rack : Rack) (refs : List WordRef) :
      ((tokens .tracked trackedText rack refs).1.filter (!·.text.isEmpty)).filterMap Token.queued? =
        [] := by
    refine List.filterMap_eq_nil_iff.mpr fun t ht => ?_
    obtain ⟨ref, -, horigin⟩ := mem_tokens_origin (List.mem_filter.mp ht).1
    rw [Token.queued?, horigin]
  rw [due, List.filter_append, List.filterMap_append, queued_tokens h hi ht, htracked,
    List.append_nil]

end BlockWriter

namespace Machine

variable {S : Machine → Deed → Prop} {p : Profile} {m m' m'' : Machine} {d : Deed} {v : Verb}
  {c : Command}

def Orderly : Deed → Prop
  | .queue q => q.Proper
  | _ => True

/-- The registers are sound, the depth is one of those that are tracked, and
what waits is proper. -/
structure Sound (m : Machine) : Prop where
  indexed : m.rack.registers.Indexed
  depth : m.rack.registers.Has "Z"
  tool : m.rack.registers.Has "T"
  tracked : .register "Z" ∈ m.writer.tracked
  proper : ∀ q ∈ m.writer.pending, q.Proper

theorem Sound.congr (hm : Sound m) (hr : m'.rack = m.rack)
    (ht : m'.writer.tracked = m.writer.tracked)
    (hp : ∀ q ∈ m'.writer.pending, q.Proper) : Sound m' :=
  ⟨hr ▸ hm.indexed, hr ▸ hm.depth, hr ▸ hm.tool, ht ▸ hm.tracked, hp⟩

theorem Does.proper (h : Does d m m') (hd : Orderly d) (hm : ∀ q ∈ m.writer.pending, q.Proper) :
    ∀ q ∈ m'.writer.pending, q.Proper := by
  cases h with
  | queue _ q => simpa [BlockWriter.queue, or_imp, forall_and] using ⟨hm, hd⟩
  | select _ group function known =>
    simp only [selected]
    split
    · simpa [BlockWriter.queue, or_imp, forall_and] using ⟨hm, known⟩
    · exact hm
  | block => simp [wroteBlock_pending]
  | _ => exact hm

theorem Does.sound (h : Does d m m') (hd : Orderly d) (hm : Sound m) : Sound m' :=
  ⟨h.indexed hm.indexed, h.has hm.indexed hm.depth, h.has hm.indexed hm.tool,
    h.alike.tracked ▸ hm.tracked, h.proper hd hm.proper⟩

theorem Course.sound (hS : ∀ m d, S m d → Orderly d) (h : Course S m m') (hm : Sound m) :
    Sound m' :=
  h.invariant (fun d a _ hd hab => hab.sound (hS a d hd)) hm

theorem orderly_numeric (n : Numeric) : Orderly (.queue (.once (.numeric n))) := by
  change (Word.numeric n).forcedToken.1 ≠ []
  rw [Word.forcedToken_numeric]
  exact render_ne_nil n

theorem CallMay.orderly (h : CallMay p m d) : Orderly d := by
  cases h with
  | queue t ht style =>
    change (Word.code t).forcedToken.1 ≠ []
    rwa [Word.forcedToken_code]
  | _ => trivial

theorem MotionMay.orderly (h : MotionMay p m d) : Orderly d := by
  cases h with
  | call h => exact h.orderly
  | travel h =>
    cases h with
    | restate h => cases h <;> trivial
    | adapt h =>
      cases h with
      | cancel _ _ known => exact known
      | _ => trivial
    | path h => cases h <;> trivial
  | axis h =>
    cases h
    trivial
  | _ => trivial

theorem StartMay.orderly (h : StartMay p m d) : Orderly d := by
  cases h with
  | call h => exact h.orderly
  | depth n => exact orderly_numeric n
  | _ => trivial

theorem May.orderly (h : Verb.May p m v d) : Orderly d := by
  cases h with
  | move _ h => exact h.orderly
  | start _ h => exact h.orderly
  | cancel _ h =>
    cases h with
    | cancel _ known => exact known
    | _ => trivial
  | wrapUp h =>
    cases h with
    | programEnd known => exact known
    | _ => trivial
  | spindleSetting h =>
    cases h
    trivial
  | home known | toolChange known | dwell known => exact known
  | homeAxis n | dwellTime n => exact orderly_numeric n
  | toolWord => exact rfl
  | _ => trivial

theorem Step.orderly (h : Step c m m') : Course (fun _ d => Orderly d) m m' := by
  refine h.course.mono fun a d hd => ?_
  rcases hd with rfl | ⟨v, c', -, hd⟩
  · trivial
  · exact May.orderly hd

theorem Step.sound (h : Step c m m') (hm : Sound m) :
    Sound m' := h.orderly.sound (fun _ _ h => h) hm

theorem Fresh.sound (h : m.Fresh p) : Sound m := by
  refine ⟨h.registers.indexed, h.has _ (by decide), h.has _ (by decide), ?_, by simp [h.pending]⟩
  rw [h.tracked]
  decide

/-- All the words that were queued, in order: those in the blocks and those that
wait. -/
def ledger (m : Machine) : List Queued :=
  m.writer.written.reverse.flatMap Block.queued ++ m.writer.pending

/-- A block moves words from the queue into the output and loses none. -/
theorem wroteBlock_ledger (hm : Sound m) : m.wroteBlock.ledger = m.ledger := by
  have hdue := BlockWriter.queued_due hm.proper hm.indexed hm.tool
  rw [ledger, ledger, wroteBlock_pending, ← hdue]
  rcases wroteBlock_written m with ⟨hnil, hw⟩ | ⟨-, number, hw⟩
  · simp [hw, hnil]
  · simp [hw, Block.queued]

/-- What waits in the first machine: it waits in the second one still and no block
was written, or the first block that was written begins with it. -/
def Flows (m m' : Machine) : Prop :=
  (m'.writer.written = m.writer.written ∧ ∃ more, m'.writer.pending = m.writer.pending ++ more) ∨
  ∃ blocks b more, m'.writer.written = blocks ++ b :: m.writer.written ∧
    b.queued = m.writer.pending ++ more

theorem Flows.refl (m : Machine) : Flows m m := .inl ⟨rfl, [], by simp⟩

theorem Flows.trans (h : Flows m m') (h' : Flows m' m'') (hgrows : HandsOver m' m'') :
    Flows m m'' := by
  rcases h with ⟨hw, more, hp⟩ | ⟨blocks, b, more, hw, hb⟩
  · rcases h' with ⟨hw', more', hp'⟩ | ⟨blocks, b, more', hw', hb⟩
    · exact .inl ⟨hw'.trans hw, more ++ more', by rw [hp', hp, List.append_assoc]⟩
    · exact .inr ⟨blocks, b, more ++ more', by rw [hw', hw], by rw [hb, hp, List.append_assoc]⟩
  · obtain ⟨later, -, hlater, -⟩ := hgrows
    exact .inr ⟨later ++ blocks, b, more, by rw [hlater, hw, List.append_assoc], hb⟩

theorem Does.flows (h : Does d m m') (hm : Sound m) : Flows m m' := by
  cases h with
  | queue _ q => exact .inl ⟨rfl, [q], rfl⟩
  | select _ group function known =>
    simp only [selected]
    split
    · exact .inl ⟨rfl, [_], rfl⟩
    · exact Flows.refl m
  | block =>
    have hqueued := BlockWriter.queued_due hm.proper hm.indexed hm.tool
    rcases wroteBlock_written m with ⟨hnil, hw⟩ | ⟨-, number, hw⟩
    · refine .inl ⟨hw, [], ?_⟩
      rw [hnil] at hqueued
      rw [wroteBlock_pending, ← hqueued]
      rfl
    · exact .inr ⟨[], _, [], hw, hqueued.trans (List.append_nil _).symm⟩
  | _ => exact .inl ⟨rfl, [], (List.append_nil _).symm⟩

theorem Course.flows (hS : ∀ m d, S m d → Orderly d) (h : Course S m m') (hm : Sound m) :
    Flows m m' := by
  refine (h.kept (R := fun a b => Sound a → Sound b ∧ HandsOver a b ∧ Flows a b)
    (fun m hm => ⟨hm, HandsOver.refl m, Flows.refl m⟩) (fun h h' ha => ?_)
    (fun d a b hd hab ha => ⟨hab.sound (hS a d hd) ha, hab.handsOver, hab.flows ha⟩) hm).2.2
  obtain ⟨hb, hover, hflows⟩ := h ha
  obtain ⟨hc, hover', hflows'⟩ := h' hb
  exact ⟨hc, hover.trans hover', hflows.trans hflows' hover'⟩

theorem Step.flows (h : Step c m m') (hm : Sound m) :
    Flows m m' := h.orderly.flows (fun _ _ h => h) hm

theorem Leads.flows {steps : List (Command × Machine)} (h : Leads m steps) (hm : Sound m) :
    Flows m (final m steps) := by
  induction steps generalizing m with
  | nil => exact Flows.refl m
  | cons s steps ih =>
    have hrest : Leads s.2 steps := h.2
    rw [final_cons]
    exact (h.1.flows hm).trans (ih hrest (h.1.sound hm)) hrest.handsOver

theorem Leads.sound {steps : List (Command × Machine)} (h : Leads m steps) (hm : Sound m) :
    Sound (final m steps) :=
  h.kept (fun _ _ _ ha hab => hab.sound ha) hm

end Machine
end Toolpath
