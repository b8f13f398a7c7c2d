import Toolpath.Proofs.Registers

/-!
# Accepted profiles

A profile is accepted when it is a built-in one or was read from a document. The
schema demands a letter and digits of every code, and a document only replaces
codes, so an accepted profile has a code for every function. It demands letters of
the name of every register, too.
-/

namespace Toolpath

variable {rule : Rule} {key : Text}

namespace Schema

theorem text_ne_nil_of_check {path t : Text} (h : check path (.text t) (.text .functionCode) = []) :
    t ≠ [] := by
  rintro rfl
  simp [check, textFault, isFunctionCode, located] at h

theorem check_of_mem {path : Text} {entries : List (Text × Document)} {keys : KeyRule}
    (h : check path (.table entries) (.table keys rule) = []) {e : Text × Document}
    (he : e ∈ entries) : keyFault keys e.1 = none ∧ check (below path e.1) e.2 rule = [] := by
  rw [check, List.flatMap_eq_nil_iff] at h
  obtain ⟨hkey, hvalue⟩ := List.append_eq_nil_iff.mp (h e he)
  refine ⟨?_, hvalue⟩
  cases hfault : keyFault keys e.1 with
  | none => rfl
  | some fault => simp [hfault, located] at hkey

theorem check_of_field {path key : Text} {entries : List (Text × Document)} {d : Document}
    {fields : List (Text × Rule)} (h : checkFields path entries fields = [])
    (hfield : (key, rule) ∈ fields) (hd : entries.lookup key = some d) :
    check (below path key) d rule = [] := by
  induction fields with
  | nil => simp at hfield
  | cons f fields ih =>
    rw [checkFields, List.append_eq_nil_iff] at h
    rcases List.mem_cons.mp hfield with rfl | hfield
    · simpa [hd] using h.1
    · exact ih h.2 hfield

end Schema

namespace Profile

variable {p : Profile} {d : Document}

def Coded (p : Profile) : Prop := ∀ f : Function, p.code f ≠ []

theorem lookup_setEntry {α : Type} (key k : Text) (v : α) (es : List (Text × α)) :
    (setEntry key v es).lookup k = if k = key then some v else es.lookup k := by
  induction es with
  | nil =>
    by_cases h : k = key
    · simp [setEntry, h]
    · simp [setEntry, List.lookup_cons, h, beq_false_of_ne h]
  | cons e es ih =>
    obtain ⟨l, w⟩ := e
    by_cases hl : l = key
    · subst hl
      by_cases h : k = l
      · simp [setEntry, h]
      · simp [setEntry, List.lookup_cons, h, beq_false_of_ne h]
    · rw [setEntry, if_neg hl, List.lookup_cons, List.lookup_cons, ih]
      by_cases h : k = l
      · subst h
        simp [hl]
      · simp [beq_false_of_ne h]

def HasTable (key : Text) (keys : KeyRule) (rule : Rule) : Prop :=
  ∃ fields required, schema = .record fields required ∧ (key, .table keys rule) ∈ fields

theorem hasTable_codes : HasTable "codes" .codeName (.text .functionCode) := ⟨_, _, rfl, by simp⟩

theorem hasTable_registers : HasTable "registers" .registerName registerRule := ⟨_, _, rfl, by simp⟩

theorem entry_checked (h : problems d = []) {keys : KeyRule}
    (htable : HasTable key keys rule) {e : Text × Document} (he : e ∈ entriesAt d key) :
    Schema.keyFault keys e.1 = none ∧
      Schema.check (Schema.below (Schema.below [] key) e.1) e.2 rule = [] := by
  obtain ⟨fields, required, hschema, hfield⟩ := htable
  have hcheck : Schema.check [] d schema = [] := by
    have hlength : (problems d).length = (Schema.check [] d schema).length :=
      List.length_mergeSort _
    rw [h] at hlength
    exact List.eq_nil_of_length_eq_zero hlength.symm
  cases d with
  | table entries =>
    rw [hschema, Schema.check, List.append_eq_nil_iff] at hcheck
    cases hpart : entries.lookup key with
    | none => simp [entriesAt, Document.get?, hpart] at he
    | some part =>
      have hrule := Schema.check_of_field hcheck.2 hfield hpart
      cases part with
      | table es =>
        rw [entriesAt, Document.get?, hpart] at he
        exact Schema.check_of_mem hrule he
      | _ => simp [entriesAt, Document.get?, hpart] at he
  | _ => simp [entriesAt, Document.get?] at he

theorem codes_ne_nil (h : problems d = []) {key t : Text}
    (he : (key, .text t) ∈ entriesAt d "codes") : t ≠ [] :=
  Schema.text_ne_nil_of_check (entry_checked h hasTable_codes he).2

theorem codesAt_lookup (hd : ∀ key t, (key, .text t) ∈ entriesAt d "codes" → t ≠ []) (name : Text)
    {codes : List (Text × Text)} (hcodes : (codes.lookup name).getD [] ≠ []) :
    ((codesAt d codes).lookup name).getD [] ≠ [] := by
  unfold codesAt
  generalize entriesAt d "codes" = es at hd
  induction es generalizing codes with
  | nil => exact hcodes
  | cons e es ih =>
    obtain ⟨key, value⟩ := e
    rw [List.foldl_cons]
    refine ih ?_ fun key t ht => hd key t (List.mem_cons_of_mem _ ht)
    cases value with
    | text t =>
      rw [lookup_setEntry]
      split
      · exact hd key t List.mem_cons_self
      · exact hcodes
    | _ => exact hcodes

theorem overlay_coded (hd : problems d = []) (hp : p.Coded) {q : Profile}
    (h : p.overlay d = .ok q) :
    q.Coded := by
  obtain ⟨numbering, -, h⟩ := bind_ok.mp h
  obtain ⟨comments, -, h⟩ := bind_ok.mp h
  cases h
  intro f
  exact codesAt_lookup (fun _ _ => codes_ne_nil hd) f.name (hp f)

theorem coded_of_usual (h : p.codes = Function.all.map fun f => (f.name, f.usualCode)) :
    p.Coded := by
  intro f
  rw [code, codeNamed, h]
  cases f <;> decide

theorem builtins_coded : ∀ p ∈ builtins, p.Coded := by
  intro p hp
  simp only [builtins, List.mem_cons, List.not_mem_nil, or_false] at hp
  rcases hp with rfl | rfl | rfl <;> exact coded_of_usual rfl

def Accepted (p : Profile) : Prop :=
  p ∈ builtins ∨ ∃ data format source, parse data format source = .ok p

theorem accepted_of_parse {data source : Text} {format : DocumentFormat}
    (h : (parse data format source).toOption = some p) : p.Accepted := by
  cases hparse : parse data format source with
  | error e => simp [hparse, Except.toOption] at h
  | ok q =>
    rw [hparse] at h
    exact .inr ⟨data, format, source, Option.some.inj h ▸ hparse⟩

/-- What the profiles that can be extended have, and a document leaves, every accepted
profile has. -/
theorem Accepted.kept {P : Profile → Prop} (hbuiltins : ∀ p ∈ builtins, P p) (hplain : P {})
    (hoverlay : ∀ d p q, problems d = [] → P p → p.overlay d = .ok q → P q) (h : p.Accepted) :
    P p := by
  have hparent {d : Document} {p : Profile} (h : parent d = .ok p) : P p := by
    unfold parent at h
    split at h
    · split at h
      case h_1 name q hq =>
        cases h
        unfold builtin at hq
        split at hq
        · cases hq
          exact hbuiltins _ (List.mem_of_find?_eq_some ‹_›)
        · cases hq
      · cases h
    · cases h
      exact hplain
  rcases h with h | ⟨data, format, source, h⟩
  · exact hbuiltins p h
  unfold parse at h
  split at h
  · cases h
  split at h
  case h_1 d _ hd =>
    split at h
    case h_1 q hq =>
      cases h
      obtain ⟨parent, hfrom, hover⟩ := bind_ok.mp hq
      exact hoverlay _ parent _ hd (hparent hfrom) hover
    · cases h
  · cases h

theorem Accepted.coded (h : p.Accepted) : p.Coded :=
  h.kept builtins_coded (coded_of_usual rfl) fun _ _ _ hd hp => overlay_coded hd hp

def Named (p : Profile) : Prop := ∀ e ∈ p.registers, Schema.isRegisterName e.1 = true

theorem mem_setEntry {α : Type} {v : α} {es : List (Text × α)} {e : Text × α}
    (h : e ∈ setEntry key v es) : e = (key, v) ∨ e ∈ es := by
  induction es with
  | nil => exact .inl (List.mem_singleton.mp h)
  | cons f es ih =>
    rw [setEntry] at h
    split at h
    · obtain rfl | h := List.mem_cons.mp h
      · exact .inl rfl
      · exact .inr (List.mem_cons_of_mem f h)
    · obtain rfl | h := List.mem_cons.mp h
      · exact .inr List.mem_cons_self
      · exact (ih h).imp_right (List.mem_cons_of_mem f)

theorem isRegisterName_of_keyFault (h : Schema.keyFault .registerName key = none) :
    Schema.isRegisterName key = true := by
  by_cases hname : Schema.isRegisterName key = true
  · exact hname
  · rw [Schema.keyFault, if_neg hname] at h
    cases h

theorem overlay_named (hd : problems d = []) (hp : p.Named) {q : Profile}
    (h : p.overlay d = .ok q) :
    q.Named := by
  obtain ⟨numbering, -, h⟩ := bind_ok.mp h
  obtain ⟨comments, -, h⟩ := bind_ok.mp h
  cases h
  have hkeys : ∀ e ∈ entriesAt d "registers", Schema.isRegisterName e.1 = true :=
    fun e he => isRegisterName_of_keyFault (entry_checked hd hasTable_registers he).1
  change ∀ e ∈ registersAt d p.registers, Schema.isRegisterName e.1 = true
  unfold registersAt
  unfold Named at hp
  generalize entriesAt d "registers" = es at hkeys
  generalize p.registers = old at hp
  induction es generalizing old with
  | nil => exact hp
  | cons e es ih =>
    rw [List.foldl_cons]
    refine ih (fun e he => hkeys e (List.mem_cons_of_mem _ he)) _ fun f hf => ?_
    obtain rfl | hf := mem_setEntry hf
    · exact hkeys e List.mem_cons_self
    · exact hp f hf

theorem Accepted.named (h : p.Accepted) : p.Named :=
  h.kept (by unfold Named; decide) (by unfold Named; decide) fun _ _ _ hd hp => overlay_named hd hp

end Profile
end Toolpath
