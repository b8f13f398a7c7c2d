import Mathlib.Data.List.Nodup
import Toolpath.Proofs.Continuations

/-!
# Starts of operations

The start of an operation takes all flags away, so a feed that waits for a motion is lost. A
run with such starts put in and the run without them write the same last words, unless a start
stands where a feed waits, or before a row that continues an earlier statement. In each deed the
flags of a register are the same, or its last word is current in the run without the starts.
-/

namespace Toolpath

namespace Verbs

/-- Whether the next command that a verb answers to is a row. -/
def rowNext (vs : Verbs) (cs : List Command) : Bool :=
  (cs.filterMap vs.resolve).head?.any fun s => s.1 == .continuation

theorem rowNext_cons_unknown {vs : Verbs} {c : Command} (cs : List Command)
    (h : vs.resolve c = none) :
    vs.rowNext (c :: cs) = vs.rowNext cs := by
  rw [rowNext, rowNext, List.filterMap_cons_none h]

theorem rowNext_cons_known {vs : Verbs} {c : Command} {s : Verb × Command} (cs : List Command)
    (h : vs.resolve c = some s) : vs.rowNext (c :: cs) = (s.1 == .continuation) := by
  rw [rowNext, List.filterMap_cons_some h]
  rfl

def startsOperation (vs : Verbs) (c : Command) : Bool :=
  (vs.resolve c).any fun s => s.1 == .startOperation

end Verbs

namespace Machine

open Registers (normalName)

variable {m m' n n' : Machine} {d : Deed} {ds : List Deed} {r : Text} {c : Command} {steady : Prop}

/-- The same was heard last of the register, and the flags are the same or the second
one is clear and what was heard is current. -/
structure Agree (r : Text) (steady : Prop) (m n : Machine) : Prop where
  heard : n.heard r = m.heard r
  flagged : n.flagged r = m.flagged r ∨ steady ∧ n.flagged r = false ∧ m.heard r = m.word r

structure Kept (r : Text) (m : Machine) : Prop where
  sound : Sound m
  tracked : .register r ∈ m.writer.tracked

theorem Does.kept (h : Does d m m') (hd : Orderly d) (hm : Kept r m) : Kept r m' :=
  ⟨h.sound hd hm.sound, h.alike.tracked ▸ hm.tracked⟩

theorem Agree.congr (h : Agree r steady m n)
    (hm : m'.rack.registers.find? r = m.rack.registers.find? r)
    (hmw : m'.writer.written = m.writer.written)
    (hn : n'.rack.registers.find? r = n.rack.registers.find? r)
    (hnw : n'.writer.written = n.writer.written) : Agree r steady m' n' := by
  have hword : m'.word r = m.word r := by simp [word, format, Machine.value, hm]
  have hheard (a b : Machine) (hr : b.rack.registers.find? r = a.rack.registers.find? r)
      (hw : b.writer.written = a.writer.written) : b.heard r = a.heard r := by
    simp [Machine.heard, format, hr, hw]
  refine ⟨by rw [hheard n n' hn hnw, hheard m m' hm hmw, h.heard], ?_⟩
  rw [hheard m m' hm hmw, hword]
  simpa [Machine.flagged, hm, hn] using h.flagged

theorem Agree.block (h : Agree r steady m n) (hr : r ∈ observed) (hmatch : Matches m n)
    (hm : Kept r m) (hn : Kept r n) : Agree r steady m.wroteBlock n.wroteBlock := by
  have hapart : ∀ r ∈ observed, normalName "T" ≠ normalName r := by decide
  have hheard (a : Machine) (ha : Kept r a) :
      a.wroteBlock.heard r = if a.flagged r then a.word r else a.heard r :=
    wroteBlock_heard_eq ha.sound.indexed ha.tracked fun q hq =>
      (ha.sound.proper q hq).isOf (hapart r hr)
  have hflagged (a : Machine) (ha : Kept r a) :
      a.wroteBlock.flagged r = (a.flagged r && !a.isModal r) :=
    wroteBlock_flagged_eq ha.sound.indexed ha.tracked
  rcases h.flagged with hsame | ⟨hsteady, hclear, hcurrent⟩
  · refine ⟨?_, .inl ?_⟩
    · rw [hheard n hn, hheard m hm, hsame, hmatch.word, h.heard]
    · rw [hflagged n hn, hflagged m hm, hsame, hmatch.isModal]
  · have hmheard : m.wroteBlock.heard r = m.heard r := by
      rw [hheard m hm, hcurrent]
      exact ite_self _
    refine ⟨?_, .inr ⟨hsteady, ?_, ?_⟩⟩
    · rw [hheard n hn, hclear, hmheard, h.heard]
      rfl
    · rw [hflagged n hn, hclear]
      rfl
    · rw [hmheard, hcurrent, wroteBlock_word hm.sound.indexed]

theorem Agree.hold {x : Float} (h : Agree r steady m n) (hmatch : Matches m n)
    (hm : Does (.hold r x) m m')
    (hn : Does (.hold r x) n n') (hapart : steady → Apart r m m') : Agree r steady m' n' := by
  have hheld := hm.held
  have hheld' := hn.held
  refine ⟨by rw [hheld'.heard, hheld.heard, h.heard], ?_⟩
  rw [hheld'.flagged, hheld.flagged, hmatch.value]
  rcases h.flagged with hsame | ⟨hsteady, hclear, hcurrent⟩
  · rw [hsame]
    exact .inl rfl
  · rw [hclear]
    rcases hapart hsteady with hequal | hdiffers
    · -- the value did not change, so neither did the word that was heard
      have hword : m'.word r = m.word r := by
        rw [word, word, hheld.format]
        exact NumberFormat.format_of_beq _ hequal
      rw [hheld.heard, hcurrent, hword]
      cases hdiffers : Numeric.differs x (m.value r) with
      | true => exact .inl (by simp)
      | false => exact .inr ⟨hsteady, by simp, rfl⟩
    · rw [hheld.value] at hdiffers
      exact .inl (by simp [hdiffers])

theorem Agree.flag (h : Agree r steady m n) (hmatch : Matches m n) (hm : m.rack.registers.Indexed)
    (hn : n.rack.registers.Indexed) (b : Bool) (a : Text) :
    Agree r steady { m with rack := m.rack.flag b (.register a) }
      { n with rack := n.rack.flag b (.register a) } := by
  by_cases ha : normalName r = normalName a
  · have hheard (m : Machine) : Machine.heard { m with rack := m.rack.flag b (.register a) } r =
        m.heard r := by
      rw [Rack.flag_register]
      simp [Machine.heard, format, Registers.find?_modify_same ha, Function.comp_def]
    refine ⟨?_, .inl ?_⟩
    · rw [hheard n, hheard m, h.heard]
    · rw [Rack.flag_register, Rack.flag_register]
      simp only [Machine.flagged, Registers.find?_modify_same ha]
      cases hk : m.rack.registers.find? r with
      | none => rw [hmatch.missing hk]
      | some k =>
        obtain ⟨l, hl⟩ := hmatch.found hk
        rw [hl]
        rfl
  · rw [Rack.flag_register, Rack.flag_register]
    exact h.congr (Registers.find?_modify_other hm ha) rfl (Registers.find?_modify_other hn ha) rfl

theorem clearFlags_clears (m : Machine) (r : Text) :
    let m' := { m with rack := { m.rack with registers := m.rack.registers.clearFlags } }
    m'.flagged r = false ∧ m'.heard r = m.heard r ∧ m'.word r = m.word r ∧
    m'.value r = m.value r := by
  cases hn : m.rack.registers.find? r <;>
    simp [Machine.flagged, heard, word, format, Machine.value, Registers.find?_clearFlags, hn]

theorem Agree.clearFlags (h : Agree r steady m n) :
    Agree r steady { m with rack := { m.rack with registers := m.rack.registers.clearFlags } }
      { n with rack := { n.rack with registers := n.rack.registers.clearFlags } } := by
  obtain ⟨hclear, hheard, -, -⟩ := clearFlags_clears m r
  obtain ⟨hclear', hheard', -, -⟩ := clearFlags_clears n r
  exact ⟨by rw [hheard', hheard, h.heard], .inl (by rw [hclear', hclear])⟩

theorem Does.hold_alias {a : Text} {x : Float} (ha : normalName a = normalName r)
    (h : Does (.hold a x) m m') : Does (.hold r x) m m' := by
  have hfind (rs : Registers) : rs.find? r = rs.find? a := by
    simp only [Registers.find?, Registers.position?, ha]
  have hmodify (rs : Registers) (f : Numeric → Numeric) : rs.modify a f = rs.modify r f := by
    simp only [Registers.modify, Registers.position?, ha]
  cases h with
  | hold _ _ _ k found =>
    have hset : m.rack.set (.register a) (.numeric (k.hold x)) =
        m.rack.set (.register r) (.numeric (k.hold x)) := by
      rw [Rack.set_register, Rack.set_register, hmodify]
    rw [hset]
    exact .hold m r x k (by rw [hfind, found])

theorem sets?_eq (hr : r ∈ observed) {a : Text} {x : Float} :
    Deed.sets? (.hold a x) = some r ↔ normalName a = normalName r := by
  have hnormal : ∀ a ∈ observed, normalName a = a := by decide
  rw [hnormal r hr, Deed.sets?]
  constructor
  · intro h
    split at h
    · exact Option.some.inj h
    · cases h
  · rintro rfl
    rw [if_pos hr]

theorem Does.unset (h : Does d m m') (hr : r ∈ observed) (hd : d.sets? ≠ some r)
    (hi : m.rack.registers.Indexed) : m'.value r = m.value r := by
  cases h with
  | hold _ a x k found =>
    have ha : normalName r ≠ normalName a := fun h => hd ((sets?_eq hr).mpr h.symm)
    simp only [Machine.value, Rack.set_register, Registers.find?_modify_other hi ha]
  | flag _ b a =>
    rw [Rack.flag_register]
    by_cases ha : normalName r = normalName a
    · simp [Machine.value, Registers.find?_modify_same ha, Function.comp_def]
    · simp [Machine.value, Registers.find?_modify_other hi ha]
  | clearFlags => exact (clearFlags_clears m r).2.2.2
  | block => exact (wroteBlock_value hi).1
  | _ => rfl

theorem Agree.does (h : Agree r steady m n) (hr : r ∈ observed) (hmatch : Matches m n)
    (hm : Kept r m) (hn : Kept r n) (hd : Does d m m') (hd' : Does d n n') (hbook : d ≠ .book)
    (hapart : d.sets? = some r → steady → Apart r m m') : Agree r steady m' n' := by
  have hqueue (m : Machine) (group function : Text) :
      (m.selected group function).writer.written = m.writer.written := by
    simp only [selected]
    split <;> rfl
  cases hd with
  | book => exact absurd rfl hbook
  | hold _ a x k found =>
    by_cases ha : normalName r = normalName a
    · exact h.hold hmatch ((Does.hold m a x k found).hold_alias ha.symm) (hd'.hold_alias ha.symm)
        (hapart ((sets?_eq hr).mpr ha.symm))
    · cases hd'
      exact h.congr (Registers.find?_modify_other hm.sound.indexed ha) rfl
        (Registers.find?_modify_other hn.sound.indexed ha) rfl
  | flag _ b a =>
    cases hd'
    exact h.flag hmatch hm.sound.indexed hn.sound.indexed b a
  | clearFlags =>
    cases hd'
    exact h.clearFlags
  | select _ group function =>
    cases hd'
    exact h.congr rfl (hqueue m group function) rfl (hqueue n group function)
  | block =>
    cases hd'
    exact h.block hr hmatch hm hn
  | _ =>
    cases hd'
    exact h.congr rfl rfl rfl rfl

theorem Passes.kept (h : Passes m m') (hm : Kept r m) : Kept r m' := by
  have hsound : Sound m' := h.1.sound (fun _ _ hd => hd.orderly) hm.sound
  exact ⟨hsound, h.1.alike.tracked ▸ hm.tracked⟩

theorem Agree.passes (h : Agree r steady m n) (hm : Passes m m') (hn : Passes n n') :
    Agree r steady m' n' := by
  have hsame := hm.untouched
  have hsame' := hn.untouched
  exact h.congr (by rw [hsame.rack]) hsame.written (by rw [hsame'.rack]) hsame'.written

theorem Passes.value (h : Passes m m') (r : Text) : m'.value r = m.value r := by
  rw [Machine.value, Machine.value, h.untouched.rack]

theorem Trace.unset (h : Trace ds m m') (hr : r ∈ observed)
    (hds : (ds.filterMap Deed.sets?).count r = 0) (hm : Kept r m) : m'.value r = m.value r := by
  induction ds generalizing m with
  | nil => exact Passes.value h r
  | cons d ds ih =>
    obtain ⟨m₁, m₂, hpass, -, horderly, hdoes, hrest⟩ := h
    have hm₁ := hpass.kept hm
    have hd : d.sets? ≠ some r := by
      intro hsets
      simp [List.filterMap_cons_some hsets] at hds
    have hrest₀ : (ds.filterMap Deed.sets?).count r = 0 := by
      have hsub := (List.sublist_cons_self d ds).filterMap Deed.sets?
      exact Nat.le_zero.mp (hds ▸ hsub.count_le r)
    rw [ih hrest hrest₀ (hdoes.kept horderly hm₁), hdoes.unset hr hd hm₁.sound.indexed, hpass.value]

theorem Agree.trace (h : Agree r steady m n) (hr : r ∈ observed) (hmatch : Matches m n)
    (hm : Kept r m)
    (hn : Kept r n) (hds : (ds.filterMap Deed.sets?).count r ≤ 1) (htrace : Trace ds m m')
    (htrace' : Trace ds n n') (hapart : r ∈ ds.filterMap Deed.sets? → steady → Apart r m m') :
    Agree r steady m' n' := by
  induction ds generalizing m n with
  | nil => exact h.passes htrace htrace'
  | cons d ds ih =>
    obtain ⟨m₁, m₂, hpass, hbook, horderly, hdoes, hrest⟩ := htrace
    obtain ⟨n₁, n₂, hpass', -, -, hdoes', hrest'⟩ := htrace'
    have hm₁ := hpass.kept hm
    have hn₁ := hpass'.kept hn
    have hmatch₁ : Matches m₁ n₁ := (hpass.matches.symm.trans hmatch).trans hpass'.matches
    have hmatch₂ : Matches m₂ n₂ := hdoes.matches hdoes' hbook hmatch₁
    have hm₂ := hdoes.kept horderly hm₁
    have hn₂ := hdoes'.kept horderly hn₁
    have h₁ : Agree r steady m₁ n₁ := h.passes hpass hpass'
    by_cases hsets : d.sets? = some r
    · -- the one deed that sets the register: its value changes here and nowhere else
      have hrest₀ : (ds.filterMap Deed.sets?).count r = 0 := by
        rw [List.filterMap_cons_some hsets, List.count_cons_self] at hds
        omega
      have hvalue : m'.value r = m₂.value r := hrest.unset hr hrest₀ hm₂
      have hapart₁ : steady → Apart r m₁ m₂ := by
        intro hsteady
        have happart := hapart (by simp [List.filterMap_cons_some hsets]) hsteady
        rwa [Apart, hvalue, ← hpass.value] at happart
      have h₂ := h₁.does hr hmatch₁ hm₁ hn₁ hdoes hdoes' hbook fun _ => hapart₁
      refine ih h₂ hmatch₂ hm₂ hn₂ (by omega) hrest hrest' fun hmem => ?_
      exact absurd hmem (List.count_eq_zero.mp hrest₀)
    · have hsub : (ds.filterMap Deed.sets?).Sublist ((d :: ds).filterMap Deed.sets?) :=
        (List.sublist_cons_self d ds).filterMap _
      have h₂ := h₁.does hr hmatch₁ hm₁ hn₁ hdoes hdoes' hbook fun h => absurd h hsets
      refine ih h₂ hmatch₂ hm₂ hn₂ ((hsub.count_le r).trans hds) hrest hrest' fun hmem hsteady => ?_
      have happart := hapart (hsub.subset hmem) hsteady
      rwa [Apart, ← hpass.value, ← hdoes.unset hr hsets hm₁.sound.indexed] at happart

/-- The second machine is the first one but for flags, for what they make a block
write, and for the last command, where no row follows that looks at it. -/
structure Shadows (r : Text) (steady : Prop) (cs : List Command) (m n : Machine) : Prop where
  same : Matches m n
  last : Verbs.standard.rowNext cs = true → n.last = m.last
  kept : Kept r m
  kept' : Kept r n
  agree : Agree r steady m n

theorem setsBy_nodup (v : Verb) : (setsBy v).Nodup := by
  cases v with
  | refuse => exact List.nodup_nil
  | _ => decide

theorem Step.kept (h : Step c m m') (hm : Kept r m) : Kept r m' :=
  ⟨h.sound hm.sound, h.course.alike.tracked ▸ hm.tracked⟩

theorem Kept.congr (hm : Kept r m) (hrack : m'.rack = m.rack) (hwriter : m'.writer = m.writer) :
    Kept r m' :=
  ⟨hm.sound.congr hrack (by rw [hwriter]) (hwriter ▸ hm.sound.proper), hwriter ▸ hm.tracked⟩

theorem Matches.congr (h : Matches m n) {a b : Machine} (ha : Passes m a) (hb : Passes n b) :
    Matches a b :=
  (ha.matches.symm.trans h).trans hb.matches

theorem row_of_isContinuation {v : Verb} {c' : Command}
    (hv : Verbs.standard.resolve c = some (v, c'))
    (h : c'.isContinuation = true) : v = .continuation := by
  have hfound := Verbs.resolve_spelled hv
  have hmajor : c'.major = Command.continuationWord := by simpa [Command.isContinuation] using h
  have hrow : Verbs.standard.find? Command.continuationWord = some .continuation := by decide
  rw [hmajor, hrow] at hfound
  exact (Option.some.inj hfound).symm

theorem Shadows.step {cs : List Command} (h : Shadows r steady (c :: cs) m n) (hr : r ∈ observed)
    (hverbs : m.verbs = .standard) (hm : Step c m m') (hn : Step c n n')
    (hapart : steady → Apart r m m') : Shadows r steady cs m' n' := by
  have hnote (a : Machine) (stats : Stats) (log : List Note) : Passes a { a with stats, log } :=
    Passes.one (d := .book) trivial (.book a a.tools stats a.cycles a.last log) rfl
  have hkept := hm.kept h.kept
  have hkept' := hn.kept h.kept'
  rcases hm.cases with ⟨hv, stats, log, rfl⟩ | ⟨v, c', stats, log, m₁, hv, hp, rfl⟩
  · rcases hn.cases with ⟨-, stats', log', rfl⟩ | ⟨v, c', stats', log', n₁, hv', -, -⟩
    · have hlast := h.last
      rw [Verbs.rowNext_cons_unknown cs (hverbs ▸ hv)] at hlast
      exact ⟨h.same.congr (hnote m _ _) (hnote n _ _), hlast, hkept, hkept',
        h.agree.passes (hnote m _ _) (hnote n _ _)⟩
    · rw [h.same.verbs, hv] at hv'
      cases hv'
  · rcases hn.cases with ⟨hv', -⟩ | ⟨v', c'', stats', log', n₁, hv', hp', rfl⟩
    · rw [h.same.verbs, hv] at hv'
      cases hv'
    · rw [h.same.verbs, hv] at hv'
      cases hv'
      rw [hverbs] at hv
      have hrow : v = .continuation → n.last = m.last := by
        intro hrow
        exact h.last (by rw [Verbs.rowNext_cons_known cs hv, hrow]; rfl)
      have hsame := h.same.congr (hnote m stats log) (hnote n stats' log')
      obtain ⟨ds, htrace, htrace', hsub⟩ := perform_lockstep hsame hrow hp hp'
      have hcount : (ds.filterMap Deed.sets?).count r ≤ 1 :=
        (hsub.count_le r).trans (List.nodup_iff_count_le_one.mp (setsBy_nodup v) r)
      have hagree := (h.agree.passes (hnote m stats log) (hnote n stats' log')).trace hr hsame
        (h.kept.congr rfl rfl) (h.kept'.congr rfl rfl) hcount htrace htrace' fun _ => hapart
      have hsame₁ := htrace.matches htrace' hsame
      refine ⟨⟨hsame₁.profile, hsame₁.verbs, hsame₁.registers, hsame₁.modal, hsame₁.vars,
        hsame₁.circle⟩, fun _ => ?_, hkept, hkept', hagree.congr rfl rfl rfl rfl⟩
      by_cases hc : c'.isContinuation = true
      · simp only [hc, if_true]
        exact (htrace'.last.trans (hrow (row_of_isContinuation hv hc))).trans htrace.last.symm
      · simp only [hc]
        rfl

theorem Step.starts (h : Step c m m') (hverbs : m.verbs = .standard)
    (hstart : Verbs.standard.startsOperation c = true) :
    ∃ stats log last, m' = { m with
      rack := { m.rack with registers := m.rack.registers.clearFlags }, stats, log, last } := by
  obtain ⟨⟨v, c'⟩, hv, hstarts⟩ := (Option.any_eq_true _ _).mp hstart
  cases eq_of_beq hstarts
  rcases h.cases with ⟨hv', -⟩ | ⟨v', c'', stats, log, m₁, hv', hp, rfl⟩
  · rw [hverbs, hv] at hv'
    cases hv'
  · rw [hverbs, hv] at hv'
    cases hv'
    cases hp
    exact ⟨_, _, _, rfl⟩

theorem Shadows.start {cs : List Command} (h : Shadows r steady cs m n) (hn : Step c n n')
    (hverbs : m.verbs = .standard) (hstart : Verbs.standard.startsOperation c = true)
    (hrow : Verbs.standard.rowNext cs = false)
    (htold : n.flagged r = true → steady ∧ n.heard r = n.word r) : Shadows r steady cs m n' := by
  have hkept' := hn.kept h.kept'
  have hsame := h.same
  obtain ⟨stats, log, last, rfl⟩ := hn.starts (hsame.verbs.trans hverbs) hstart
  obtain ⟨hclear, hheard, -, -⟩ := clearFlags_clears n r
  refine ⟨⟨hsame.profile, hsame.verbs, ?_, hsame.modal, hsame.vars, hsame.circle⟩, ?_,
    h.kept, hkept', ⟨hheard.trans h.agree.heard, ?_⟩⟩
  · exact (Registers.clearFlags_clearFlags _).trans hsame.registers
  · intro hnext
    simp [hrow] at hnext
  · rcases h.agree.flagged with hflags | ⟨hsteady, -, hcurrent⟩
    · cases hf : n.flagged r with
      | false => exact .inl (hclear.trans (hf.symm.trans hflags))
      | true =>
        obtain ⟨hsteady, hcurrent⟩ := htold hf
        rw [h.agree.heard, hsame.word] at hcurrent
        exact .inr ⟨hsteady, hclear, hcurrent⟩
    · exact .inr ⟨hsteady, hclear, hcurrent⟩

/-- The steps carry out the commands of the list and operation starts in between.
Of each machine that such a start finds, and of the commands behind it, `P` holds. -/
inductive Spliced (P : Machine → List Command → Prop) :
    Machine → List (Command × Machine) → List Command → Prop
  | nil (m : Machine) : Spliced P m [] []
  | keep {m m' : Machine} {c : Command} {steps : List (Command × Machine)} {cs : List Command}
      (rest : Spliced P m' steps cs) : Spliced P m ((c, m') :: steps) (c :: cs)
  | insert {m m' : Machine} {c : Command} {steps : List (Command × Machine)} {cs : List Command}
      (starts : Verbs.standard.startsOperation c = true) (here : P m cs)
        (rest : Spliced P m' steps cs) :
      Spliced P m ((c, m') :: steps) cs

/-- Any two values that the register has one after the other in the run are equal, or
further apart than the tolerance. -/
def Steady (r : Text) (m : Machine) (steps : List (Command × Machine)) : Prop :=
  (m :: steps.map Prod.snd).IsChain (Apart r)

/-- An operation may start here: no row comes next that continues an earlier
statement, and no feed waits that was not written. -/
def MayStart (r : Text) (steady : Prop) (m : Machine) (cs : List Command) : Prop :=
  Verbs.standard.rowNext cs = false ∧
    (r = "F" → m.flagged r = true → steady ∧ m.heard r = m.word r)

structure Settled (r : Text) (steady : Prop) (m : Machine) : Prop where
  atRest : AtRest r m
  modal : m.isModal r = true ∨ steady

theorem Settled.told (h : Settled r steady m) (hf : m.flagged r = true) :
    steady ∧ m.heard r = m.word r := by
  obtain ⟨hmodal, hheard⟩ := h.atRest hf
  refine ⟨h.modal.resolve_left ?_, hheard⟩
  simp [hmodal]

theorem Step.settled (h : Step c m m') (hr : r ∈ observed) (hfeed : r ≠ "F")
    (hkept : Kept r m) (hm : Settled r steady m) : Settled r steady m' := by
  have htracked : ∀ r ∈ observed, r ∈ trackedNames := by decide
  refine ⟨h.atRest (htracked r hr) hfeed hkept.sound.indexed hkept.tracked hm.atRest, ?_⟩
  rw [h.course.isModal hkept.sound.indexed]
  exact hm.modal

theorem Spliced.shadows {steps plain : List (Command × Machine)} (hr : r ∈ observed)
    (hspliced : Spliced (MayStart r steady) n steps (plain.map Prod.fst)) (hsteps : Leads n steps)
    (hplain : Leads m plain) (hverbs : m.verbs = .standard)
    (hvalues : steady → Steady r m plain)
    (hsettled : r ≠ "F" → Settled r steady n)
    (h : Shadows r steady (plain.map Prod.fst) m n) :
    Shadows r steady [] (final m plain) (final n steps) := by
  generalize hcs : plain.map Prod.fst = cs at hspliced h
  induction hspliced generalizing m plain with
  | nil n =>
    obtain rfl := List.map_eq_nil_iff.mp hcs
    exact h
  | @keep n n' c steps cs _ ih =>
    obtain ⟨⟨_, m'⟩, plain, rfl, rfl, rfl⟩ := List.map_eq_cons_iff.mp hcs
    have hapart : steady → Apart r m m' ∧ Steady r m' plain := by
      intro hsteady
      simpa [Steady] using hvalues hsteady
    rw [final_cons, final_cons]
    refine ih hsteps.2 hplain.2 (hplain.1.course.alike.verbs.trans hverbs)
      (fun h => (hapart h).2) ?_ rfl ?_
    · intro hfeed
      exact hsteps.1.settled hr hfeed h.kept' (hsettled hfeed)
    · exact h.step hr hverbs hplain.1 hsteps.1 fun h => (hapart h).1
  | @insert n n' c steps cs hstart hhere _ ih =>
    rw [final_cons]
    have htold : n.flagged r = true → steady ∧ n.heard r = n.word r := by
      by_cases hfeed : r = "F"
      · exact hhere.2 hfeed
      · exact (hsettled hfeed).told
    refine ih hsteps.2 hplain hverbs hvalues ?_ hcs (h.start hsteps.1 hverbs hstart hhere.1 htold)
    intro hfeed
    exact hsteps.1.settled hr hfeed h.kept' (hsettled hfeed)

theorem Opens.shadows {p : Profile} (h : Opens p m) (hr : r ∈ observed) (cs : List Command) :
    Shadows r steady cs m m := by
  have htracked : ∀ r ∈ observed, .register r ∈ trackedNames.map WordRef.register := by decide
  have hkept : Kept r m := ⟨h.fresh.sound, h.fresh.tracked ▸ htracked r hr⟩
  exact ⟨Matches.refl m, fun _ => rfl, hkept, hkept, ⟨rfl, .inl rfl⟩⟩

/-- Operation starts that are put into a run leave the last word of every observed
register as it is, wherever the run ends. A register other than the feed is modal
or steady; for the feed, no start may stand where a feed waits that was not
written. A start itself takes all flags away, and no value and no word. -/
theorem starts_keep_last_words {p : Profile} {m₀ : Machine} {plain steps : List (Command × Machine)}
    {r : Text}
    (hopens : Opens p m₀) (hplain : Leads m₀ plain) (hsteps : Leads m₀ steps) (hr : r ∈ observed)
    (hspliced : Spliced (MayStart r (Steady r m₀ plain)) m₀ steps (plain.map Prod.fst))
    (hvalues : r ≠ Text.ofString "F" → m₀.isModal r = true ∨ Steady r m₀ plain) :
    (final m₀ steps).heard r = (final m₀ plain).heard r ∧
    (final m₀ steps).value r = (final m₀ plain).value r ∧
    ∀ c a b, a.verbs = .standard → Verbs.standard.startsOperation c = true → Step c a b → ∀ name,
      b.flagged name = false ∧ b.value name = a.value name ∧ b.heard name = a.heard name := by
  have hsettled : r ≠ "F" → Settled r (Steady r m₀ plain) m₀ := by
    intro hfeed
    refine ⟨fun hf => ?_, hvalues hfeed⟩
    simp [(hopens.fresh.value_flagged r).2] at hf
  have hshadows := hspliced.shadows hr hsteps hplain hopens.fresh.verbs id hsettled
    (hopens.shadows hr _)
  refine ⟨hshadows.agree.heard, hshadows.same.value r, ?_⟩
  intro c a b hverbs hstart h name
  obtain ⟨stats, log, last, rfl⟩ := h.starts hverbs hstart
  obtain ⟨hclear, hheard, -, hvalue⟩ := clearFlags_clears a name
  exact ⟨hclear, hvalue, hheard⟩

set_option maxRecDepth 100000 in
theorem starts_keep_last_words_feed : ∃ (m₀ : Machine) (plain steps : List (Command × Machine)),
    Opens {} m₀ ∧ Leads m₀ plain ∧ Leads m₀ steps ∧ plain.length = 3 ∧ steps.length = 4 ∧
      (final m₀ plain).heard "F" = Text.ofString "F100" ∧
      (final m₀ steps).heard "F" = Text.ofString "F100" := by
  let feed : Command := { major := "fedrat", numeric := [100] }
  let cut : Command := { major := "goto", numeric := [1, 2, 3] }
  let start : Command := { major := "start_op" }
  let c : Command := { major := "goto", numeric := [4] }
  let check (m₀ : Machine) (_ : List (Command × Machine)) (m : Machine) : Bool :=
    (m.heard "F" = "F100") && (m₀.trace [feed, cut, start, c]).any fun steps =>
      !(final m₀ (steps.take 2)).flagged "F"
  have hcheck : rehearse {} [feed, cut] c check = true := by decide +kernel
  have hrow : Verbs.standard.rowNext [c] = false := by decide
  have hstart : Verbs.standard.startsOperation start = true := by decide
  obtain ⟨m₀, plain, m, hopens, hrun, hcs, hstep, hcheck⟩ := exists_of_rehearse hcheck
  simp only [check, Bool.and_eq_true, decide_eq_true_eq, Option.any_eq_true] at hcheck
  obtain ⟨hheard, steps, htrace, hclear⟩ := hcheck
  obtain ⟨hrun', hcs'⟩ := leads_of_trace htrace
  obtain ⟨⟨_, n₁⟩, steps₁, rfl, rfl, hcs₁⟩ := List.map_eq_cons_iff.mp hcs'
  obtain ⟨⟨_, n₂⟩, steps₂, rfl, rfl, hcs₂⟩ := List.map_eq_cons_iff.mp hcs₁
  obtain ⟨⟨_, n₃⟩, steps₃, rfl, rfl, hcs₃⟩ := List.map_eq_cons_iff.mp hcs₂
  obtain ⟨⟨_, n₄⟩, steps₄, rfl, rfl, hcs₄⟩ := List.map_eq_cons_iff.mp hcs₃
  obtain rfl := List.map_eq_nil_iff.mp hcs₄
  have hplain : Leads m₀ (plain ++ [(c, m)]) := leads_append.mpr ⟨hrun, hstep, trivial⟩
  have hcommands : (plain ++ [(c, m)]).map Prod.fst = [feed, cut, c] := by
    rw [List.map_append, hcs]; rfl
  have hfinal : final m₀ (plain ++ [(c, m)]) = m := final_append m₀ plain [(c, m)]
  have hclear : n₂.flagged "F" = false := by simpa [final] using hclear
  have hspliced : Spliced (MayStart "F" (Steady "F" m₀ (plain ++ [(c, m)]))) m₀
      [(feed, n₁), (cut, n₂), (start, n₃), (c, n₄)] [feed, cut, c] := by
    refine .keep (.keep (.insert hstart ⟨hrow, fun _ hflagged => ?_⟩ (.keep (.nil n₄))))
    simp [hclear] at hflagged
  have hkept := starts_keep_last_words hopens hplain hrun' (by decide) (hcommands ▸ hspliced)
    fun hne => absurd rfl hne
  refine ⟨m₀, _, _, hopens, hplain, hrun', ?_, rfl, ?_, ?_⟩
  · rw [← List.length_map Prod.fst, hcommands]
    rfl
  · rw [hfinal, hheard]
  · rw [hkept.1, hfinal, hheard]

/-- The machine starts alike, and after the one list of commands another word was
heard last of the register than after the other. -/
def WordsDiffer (p : Profile) (r : Text) (cs cs' : List Command) : Prop :=
  ∃ (m₀ : Machine) (steps steps' : List (Command × Machine)),
    Opens p m₀ ∧ Leads m₀ steps ∧ Leads m₀ steps' ∧
    steps.map Prod.fst = cs ∧ steps'.map Prod.fst = cs' ∧
    (final m₀ steps').heard r ≠ (final m₀ steps).heard r

theorem wordsDiffer_of_rehearse {p : Profile} {cs' : List Command} (cs : List Command) (c : Command)
    (h : rehearse p cs c (fun m₀ _ m => (m₀.trace cs').any fun steps =>
      decide ((final m₀ steps).heard r ≠ m.heard r)) = true) :
    WordsDiffer p r (cs ++ [c]) cs' := by
  obtain ⟨m₀, steps, m, hopens, hrun, hcs, hstep, hcheck⟩ := exists_of_rehearse h
  obtain ⟨steps', htrace, hdiffer⟩ := (Option.any_eq_true _ _).mp hcheck
  obtain ⟨hrun', hcs'⟩ := leads_of_trace htrace
  refine ⟨m₀, steps ++ [(c, m)], steps', hopens, leads_append.mpr ⟨hrun, hstep, trivial⟩, hrun',
    ?_, hcs', ?_⟩
  · rw [List.map_append, hcs]
    rfl
  · rw [final_append]
    exact of_decide_eq_true hdiffer

set_option maxRecDepth 100000 in
/-- A start loses a feed that waits; it takes the place of the statement that a row
continues; and it hides a change below the tolerance of a register that is not modal. -/
theorem starts_lose_words :
    WordsDiffer {} "F" [{ major := "fedrat", numeric := [100] },
      { major := "goto", numeric := [1, 2, 3] }]
      [{ major := "fedrat", numeric := [100] }, { major := "start_op" },
        { major := "goto", numeric := [1, 2, 3] }] ∧
    WordsDiffer {} "X" [{ major := "goto", numeric := [1, 2, 3] },
      { major := "continuation", numeric := [4, 5, 6] }]
      [{ major := "goto", numeric := [1, 2, 3] }, { major := "start_op" },
        { major := "continuation", numeric := [4, 5, 6] }] ∧
    WordsDiffer { registers := [("X", ⟨"X\x7b-####!###\x7d", false⟩)] } "X"
      [{ major := "goto", numeric := [0.0004999] }, { major := "goto", numeric := [0.0005004] }]
      [{ major := "goto", numeric := [0.0004999] }, { major := "start_op" },
        { major := "goto", numeric := [0.0005004] }] := by
  refine ⟨wordsDiffer_of_rehearse [_] _ ?_, wordsDiffer_of_rehearse [_] _ ?_,
    wordsDiffer_of_rehearse [_] _ ?_⟩
  all_goals decide +kernel

end Machine
end Toolpath
