import Toolpath.Machine.State
import Toolpath.Proofs.LetterCase

/-!
# Registers by name

The index of a register table leads every name to a place of its own, so that a
change of one register is seen under its names and under no other. Until a
machine starts, every register holds zero and none is flagged.
-/

namespace Toolpath

theorem bind_ok {ε α β : Type} {x : Except ε α} {f : α → Except ε β} {r : β} :
    x >>= f = .ok r ↔ ∃ a, x = .ok a ∧ f a = .ok r := by
  cases x with
  | error e => simp [bind, Except.bind]
  | ok a => simp [bind, Except.bind]

theorem foldlM_kept {ε σ α : Type} {P : σ → Prop} {f : σ → α → Except ε σ}
    (hstep : ∀ s a s', P s → f s a = .ok s' → P s') (as : List α) {s s' : σ} (hs : P s)
    (h : as.foldlM f s = .ok s') : P s' := by
  induction as generalizing s with
  | nil =>
    cases h
    exact hs
  | cons a as ih =>
    rw [List.foldlM_cons] at h
    obtain ⟨s₁, hs₁, h⟩ := bind_ok.mp h
    exact ih (hstep s a s₁ hs hs₁) h

variable {x : Float} {modal : Bool} {format : NumberFormat} {p : Profile}

namespace Registers

variable {rs rs' : Registers} {a b : Text} {f : Numeric → Numeric}

structure Indexed (rs : Registers) : Prop where
  inRange : ∀ {key : Text} {i : Nat}, rs.index.lookup key = some i → i < rs.list.length
  apart : ∀ {k l : Text} {i : Nat}, rs.index.lookup k = some i → rs.index.lookup l = some i → k = l

theorem Indexed.empty : Indexed {} := ⟨by simp, by simp⟩

theorem Indexed.modify (h : rs.Indexed) (a : Text) (f : Numeric → Numeric) :
    (rs.modify a f).Indexed := by
  unfold Registers.modify
  split
  · exact ⟨fun hk => by simpa using h.inRange hk, h.apart⟩
  · exact h

theorem Indexed.clearFlags (h : rs.Indexed) : rs.clearFlags.Indexed :=
  ⟨fun hk => by simpa [Registers.clearFlags] using h.inRange hk, h.apart⟩

theorem index_modify (rs : Registers) (a : Text) (f : Numeric → Numeric) :
    (rs.modify a f).index = rs.index := by
  unfold Registers.modify
  split <;> rfl

theorem find?_modify_same (h : normalName b = normalName a) :
    (rs.modify a f).find? b = (rs.find? b).map f := by
  have hp : rs.position? b = rs.position? a := by rw [position?, position?, h]
  cases ha : rs.position? a with
  | none => simp [find?, hp, Registers.modify, ha]
  | some i =>
    have hp' : ({ rs with list := rs.list.modify i f } : Registers).position? b = some i :=
      hp.trans ha
    simp [find?, hp, Registers.modify, ha, hp', List.getElem?_modify_eq]

theorem find?_modify_other (hrs : rs.Indexed) (h : normalName b ≠ normalName a) :
    (rs.modify a f).find? b = rs.find? b := by
  cases ha : rs.position? a with
  | none => simp [Registers.modify, ha]
  | some i =>
    simp only [find?, Registers.modify, ha]
    cases hb : rs.position? b with
    | none =>
      have hb' : ({ rs with list := rs.list.modify i f } : Registers).position? b = none := hb
      simp [hb']
    | some j =>
      have hb' : ({ rs with list := rs.list.modify i f } : Registers).position? b = some j := hb
      have hij : i ≠ j := by
        rintro rfl
        exact h (hrs.apart hb ha)
      simp [hb', List.getElem?_modify_ne, hij]

theorem find?_clearFlags (rs : Registers) (a : Text) :
    rs.clearFlags.find? a = (rs.find? a).map fun n => { n with changed := false } := by
  have hp : rs.clearFlags.position? a = rs.position? a := rfl
  rw [find?, find?, hp]
  cases rs.position? a with
  | none => rfl
  | some i => simp [Registers.clearFlags]

theorem modify_const {n : Numeric} (h : rs.find? a = some n) :
    rs.modify a (fun _ => f n) = rs.modify a f := by
  unfold Registers.modify
  cases hp : rs.position? a with
  | none => rfl
  | some i =>
    have hn : rs.list[i]? = some n := by simpa [find?, hp] using h
    have hlist : rs.list.modify i (fun _ => f n) = rs.list.modify i f := by
      apply List.ext_getElem?
      intro j
      rw [List.getElem?_modify, List.getElem?_modify]
      by_cases hij : i = j
      · subst hij
        simp [hn]
      · simp [hij]
    simp only [hlist]

theorem modify_missing (h : rs.find? a = none) : rs.modify a f = rs := by
  unfold Registers.modify
  cases hp : rs.position? a with
  | none => rfl
  | some i =>
    have hn : rs.list[i]? = none := by simpa [find?, hp] using h
    have hlist : rs.list.modify i f = rs.list := List.modify_eq_self (by simpa using hn)
    simp only [hlist]

def Has (rs : Registers) (name : Text) : Prop := ∃ n, rs.find? name = some n

theorem has_of_position? (hrs : rs.Indexed) (h : (rs.position? a).isSome) : rs.Has a := by
  obtain ⟨i, hi⟩ := Option.isSome_iff_exists.mp h
  exact ⟨rs.list.get ⟨i, hrs.inRange hi⟩, by simp [find?, hi]⟩

structure Fresh (rs : Registers) : Prop where
  indexed : rs.Indexed
  atRest : ∀ n ∈ rs.list, n.value = 0 ∧ n.changed = false

theorem Fresh.find? (h : rs.Fresh) {n : Numeric} (hn : rs.find? a = some n) :
    n.value = 0 ∧ n.changed = false := by
  obtain ⟨i, hi⟩ : ∃ i, rs.list[i]? = some n := by
    simp only [Registers.find?, Option.bind_eq_some_iff] at hn
    exact ⟨hn.choose, hn.choose_spec.2⟩
  exact h.atRest n (List.mem_of_getElem? hi)

theorem Fresh.modify (h : rs.Fresh) (a : Text)
    (hf : ∀ n : Numeric, n.value = 0 ∧ n.changed = false → (f n).value = 0 ∧
      (f n).changed = false) :
    (rs.modify a f).Fresh := by
  refine ⟨h.indexed.modify a f, fun n hn => ?_⟩
  unfold Registers.modify at hn
  split at hn
  · obtain ⟨i, hi⟩ := List.getElem?_of_mem hn
    rw [List.getElem?_modify] at hi
    obtain ⟨n₀, hn₀, rfl⟩ := Option.map_eq_some_iff.mp hi
    have := h.atRest n₀ (List.mem_of_getElem? hn₀)
    split
    · exact hf n₀ this
    · exact this
  · exact h.atRest n hn

theorem lookup_added {index : List (Text × Nat)} {key k : Text} {i j : Nat}
    (h : (index ++ [(key, j)]).lookup k = some i) :
    index.lookup k = some i ∨ k = key ∧ i = j := by
  rw [List.lookup_append] at h
  cases hk : index.lookup k with
  | some l =>
    rw [hk] at h
    exact .inl h
  | none =>
    rw [hk, Option.none_or, List.lookup_cons] at h
    by_cases he : k = key
    · simp only [he, beq_self_eq_true, Option.some.injEq] at h
      exact .inr ⟨he, h.symm⟩
    · simp [beq_false_of_ne he] at h

/-- A register as it is made: it holds its default and is not flagged. -/
def made (key : Text) (x : Float) (modal : Bool) (format : NumberFormat) : Numeric :=
  { address := key, modal, changed := false, value := x, previous := x, initial := x
    format := format.withAddress key }

def push (rs : Registers) (n : Numeric) : Registers :=
  { list := rs.list ++ [n], index := rs.index ++ [(n.address, rs.list.length)] }

theorem getOrAdd_eq (rs : Registers) (a : Text) (x : Float) (modal : Bool) (format : NumberFormat) :
    rs.getOrAdd a x modal format =
      if normalName a = [] then .error (.unmet .precondition "register name must not be empty")
      else if (rs.index.lookup (normalName a)).isSome then .ok rs
      else if Number.isFinite x then .ok (rs.push (made (normalName a) x modal format))
      else .error (.notFinite (normalName a) x) := by
  unfold getOrAdd Contract.require Numeric.new Numeric.setInitial requireFinite
  cases hkey : normalName a with
  | nil => rfl
  | cons b t =>
    rw [if_neg (List.cons_ne_nil b t)]
    cases Number.isFinite x <;> rfl

theorem getOrAdd_ok (h : rs.getOrAdd a x modal format = .ok rs') :
    normalName a ≠ [] ∧ ((rs.index.lookup (normalName a)).isSome ∧ rs' = rs ∨
      rs.index.lookup (normalName a) = none ∧
      rs' = rs.push (made (normalName a) x modal format)) := by
  rw [getOrAdd_eq] at h
  split_ifs at h with hnil hsome hx
  · exact ⟨hnil, .inl ⟨hsome, (Except.ok.inj h).symm⟩⟩
  · exact ⟨hnil, .inr ⟨Option.not_isSome_iff_eq_none.mp hsome, (Except.ok.inj h).symm⟩⟩

theorem exists_getOrAdd (hkey : normalName a ≠ [])
    (hx : rs.index.lookup (normalName a) = none → Number.isFinite x = true) (modal : Bool)
    (format : NumberFormat) : ∃ rs', rs.getOrAdd a x modal format = .ok rs' := by
  rw [getOrAdd_eq, if_neg hkey]
  split_ifs with hsome hfinite
  · exact ⟨_, rfl⟩
  · exact ⟨_, rfl⟩
  · exact absurd (hx (Option.not_isSome_iff_eq_none.mp hsome)) hfinite

theorem normalName_normalName (a : Text) : normalName (normalName a) = normalName a := by
  rw [normalName, normalName, Text.trim_upper (Text.trim_trim a), Text.upper_upper]

theorem ensure_eq (rs : Registers) (a : Text) :
    rs.ensure a = rs.getOrAdd a 0 true (defaultFormat (normalName a)) := by
  rw [ensure, getOrAdd_eq, getOrAdd_eq, normalName_normalName]

theorem exists_ensure (rs : Registers) (hkey : normalName a ≠ []) :
    ∃ rs', rs.ensure a = .ok rs' := by
  rw [ensure_eq]
  exact exists_getOrAdd hkey (fun _ => by decide) _ _

theorem exists_configure (rs : Registers) (hkey : normalName a ≠ []) (format : NumberFormat)
    (modal : Bool) : ∃ rs', rs.configure a format modal = .ok rs' := by
  obtain ⟨rs', h⟩ := exists_ensure rs hkey
  rw [configure, h]
  exact ⟨_, rfl⟩

theorem Indexed.push (h : rs.Indexed) (n : Numeric) : (rs.push n).Indexed := by
  constructor
  · intro key i hi
    rcases lookup_added hi with hi | ⟨-, rfl⟩
    · exact Nat.lt_of_lt_of_le (h.inRange hi) (by simp [Registers.push])
    · simp [Registers.push]
  · intro k l i hk hl
    rcases lookup_added hk with hold | ⟨rfl, rfl⟩
    · rcases lookup_added hl with hold' | ⟨rfl, rfl⟩
      · exact h.apart hold hold'
      · exact absurd (h.inRange hold) (Nat.lt_irrefl _)
    · rcases lookup_added hl with hold | ⟨rfl, -⟩
      · exact absurd (h.inRange hold) (Nat.lt_irrefl _)
      · rfl

theorem getOrAdd_indexed (hrs : rs.Indexed)
    (h : rs.getOrAdd a x modal format = .ok rs') : rs'.Indexed := by
  obtain ⟨-, ⟨-, rfl⟩ | ⟨-, rfl⟩⟩ := getOrAdd_ok h
  · exact hrs
  · exact hrs.push _

structure Grows (key : Text) (rs rs' : Registers) : Prop where
  fresh : rs'.Fresh
  kept : ∀ k, (rs.index.lookup k).isSome → (rs'.index.lookup k).isSome
  added : (rs'.index.lookup key).isSome

theorem ensure_grows (hrs : rs.Fresh) (h : rs.ensure a = .ok rs') :
    Grows (normalName a) rs rs' := by
  rw [ensure_eq] at h
  obtain ⟨-, ⟨hsome, rfl⟩ | ⟨hnone, rfl⟩⟩ := getOrAdd_ok h
  · exact ⟨hrs, fun _ h => h, hsome⟩
  · refine ⟨⟨hrs.indexed.push _, ?_⟩, ?_, ?_⟩
    · intro n hn
      rcases List.mem_append.mp hn with hold | hnew
      · exact hrs.atRest n hold
      · rw [List.mem_singleton.mp hnew]
        exact ⟨rfl, rfl⟩
    · intro k hk
      rw [push, List.lookup_append]
      simp [hk]
    · rw [push, made, List.lookup_append, hnone]
      simp

theorem configure_fresh (hrs : rs.Fresh)
    (h : rs.configure a format modal = .ok rs') : rs'.Fresh := by
  obtain ⟨rs₁, h₁, h⟩ := bind_ok.mp h
  cases h
  exact (ensure_grows hrs h₁).fresh.modify a fun n hn => hn

theorem ensureAll_grows {names : List Text} (hrs : rs.Fresh)
    (h : names.foldlM ensure rs = .ok rs') :
    rs'.Fresh ∧ (∀ k, (rs.index.lookup k).isSome → (rs'.index.lookup k).isSome) ∧
      ∀ name ∈ names, (rs'.index.lookup (normalName name)).isSome := by
  induction names generalizing rs with
  | nil =>
    cases h
    exact ⟨hrs, fun _ h => h, by simp⟩
  | cons name names ih =>
    rw [List.foldlM_cons] at h
    obtain ⟨rs₁, h₁, h⟩ := bind_ok.mp h
    have hg := ensure_grows hrs h₁
    obtain ⟨hf, hkept, hadded⟩ := ih hg.fresh h
    refine ⟨hf, fun k hk => hkept k (hg.kept k hk), fun b hb => ?_⟩
    rcases List.mem_cons.mp hb with rfl | hb
    · exact hkept _ hg.added
    · exact hadded b hb

end Registers

namespace Rack

variable {rack : Rack} {a : Text}

theorem set_register (rack : Rack) (a : Text) (n : Numeric) :
    rack.set (.register a) (.numeric n) =
      { rack with registers := rack.registers.modify a fun _ => n } :=
  rfl

theorem flag_register (rack : Rack) (b : Bool) (a : Text) :
    rack.flag b (.register a) =
      { rack with registers := rack.registers.modify a fun n => { n with changed := b } } := by
  cases h : rack.registers.find? a with
  | none => simp only [flag, get?, h, Option.map_none, Registers.modify_missing h]
  | some n =>
    simp only [flag, get?, h, Option.map_some, Word.flagged, set_register]
    rw [Registers.modify_const (f := fun n => { n with changed := b }) h]

end Rack

namespace Machine

open Registers

theorem initialRegisters_fresh {rs : Registers} (h : initialRegisters p = .ok rs) :
    rs.Fresh ∧ ∀ name ∈ trackedNames, (rs.index.lookup (normalName name)).isSome := by
  obtain ⟨rs₀, h₀, h⟩ := bind_ok.mp h
  have hrs₀ : rs₀.Fresh := by
    refine foldlM_kept (fun rs e rs' hrs h => ?_) _ ⟨Indexed.empty, by simp⟩ h₀
    exact configure_fresh hrs h
  obtain ⟨hf, -, hadded⟩ := ensureAll_grows hrs₀ h
  exact ⟨hf, hadded⟩

theorem track_all {w : BlockWriter} {names : List Text}
    (h : (w.tracked ++ names.map WordRef.register).Nodup) :
    names.foldlM (fun w name => w.track (some (.register name))) w =
      .ok { w with tracked := w.tracked ++ names.map WordRef.register } := by
  induction names generalizing w with
  | nil => simp [pure, Except.pure]
  | cons name names ih =>
    have hn : w.tracked.contains (.register name) = false := by
      rw [List.map_cons, List.nodup_append] at h
      simpa using fun hw => h.2.2 _ hw _ List.mem_cons_self rfl
    have hw : w.track (some (.register name)) =
        .ok { w with tracked := w.tracked ++ [.register name] } := by
      simp only [BlockWriter.track, requirePresent, bind, Except.bind, hn]
      rfl
    rw [List.foldlM_cons, hw]
    refine (ih (by simpa using h)).trans ?_
    simp

theorem unflag_fresh (rack : Rack) (h : rack.registers.Fresh) (names : List Text) :
    ((names.map WordRef.register).foldl (fun r ref => r.flag false ref) rack).registers.Fresh ∧
      ((names.map WordRef.register).foldl (fun r ref => r.flag false ref) rack).registers.index =
        rack.registers.index := by
  induction names generalizing rack with
  | nil => exact ⟨h, rfl⟩
  | cons name names ih =>
    have hr : (rack.flag false (.register name)).registers =
        rack.registers.modify name fun n => { n with changed := false } := by
      rw [Rack.flag_register]
    have hfresh : (rack.flag false (.register name)).registers.Fresh :=
      hr ▸ h.modify name fun n hn => ⟨hn.1, rfl⟩
    refine ⟨(ih _ hfresh).1, (ih _ hfresh).2.trans ?_⟩
    rw [hr, index_modify]

/-- A machine that has done nothing: its registers are fresh, the tracked ones
and the tool number among them, nothing is active, queued or written, and no cycle is remembered. -/
structure Fresh (p : Profile) (m : Machine) : Prop where
  profile : m.profile = p
  verbs : m.verbs = .standard
  registers : m.rack.registers.Fresh
  has : ∀ name ∈ Text.ofString "T" :: trackedNames, m.rack.registers.Has name
  tracked : m.writer.tracked = trackedNames.map .register
  separator : m.writer.separator = p.separator
  pending : m.writer.pending = []
  written : m.writer.written = []
  modal : m.modal = {}
  vars : ∀ key ∈ [Variable.cycle, Variable.cycleOnce, Variable.restate], m.vars.get? key = none

def initialRack (rs : Registers) : Rack :=
  (trackedNames.map WordRef.register).foldl (fun rack ref => rack.flag false ref)
    { registers := rs }

theorem start_ok {o : Occasion} {out : Outlet} {m : Machine} (h : start p o out = .ok m) :
    ∃ rs rs', initialRegisters p = .ok rs ∧ (initialRack rs).registers.ensure "T" = .ok rs' ∧
      m = { profile := p, occasion := o, outlet := out, vars := initialVariables
            rack := ({ initialRack rs with registers := rs' } : Rack).flag false (.register "T")
            writer := { p.blockWriter with tracked := trackedNames.map .register } } := by
  obtain ⟨rs, hrs, h⟩ := bind_ok.mp h
  obtain ⟨w, hw, h⟩ := bind_ok.mp h
  rw [track_all (show ([] ++ trackedNames.map WordRef.register).Nodup by decide)] at hw
  obtain rfl := Except.ok.inj hw
  obtain ⟨rs', hrs', h⟩ := bind_ok.mp h
  exact ⟨rs, rs', hrs, hrs', (Except.ok.inj h).symm⟩

theorem start_fresh {o : Occasion} {out : Outlet} {m : Machine}
    (h : start p o out = .ok m) : m.Fresh p := by
  obtain ⟨rs, rs', hrs, hrs', rfl⟩ := start_ok h
  obtain ⟨hfresh, hnames⟩ := initialRegisters_fresh hrs
  obtain ⟨hfresh₁, hindex⟩ := unflag_fresh { registers := rs } hfresh trackedNames
  have hgrown := ensure_grows hfresh₁ hrs'
  rw [Rack.flag_register]
  have hfresh₂ := hgrown.fresh.modify "T" (f := fun n => { n with changed := false })
    fun n hn => ⟨hn.1, rfl⟩
  refine ⟨rfl, rfl, hfresh₂, fun name hname => has_of_position? hfresh₂.indexed ?_, rfl,
    rfl, rfl, rfl, rfl, (by decide : ∀ key ∈ [Variable.cycle, Variable.cycleOnce, Variable.restate],
      initialVariables.get? key = none)⟩
  rw [position?, index_modify]
  rcases List.mem_cons.mp hname with rfl | hname
  · exact hgrown.added
  · apply hgrown.kept
    rw [hindex]
    exact hnames name hname

end Machine
end Toolpath
