import Mathlib.Data.List.Nodup
import Toolpath.Proofs.Registers

/-!
# One register for each name

A name in normal form stays as it is, so all spellings of a name lead to one register. Whatever
is called, the names of a table are pairwise different and the index leads each to its position;
registers are only added at the end, and what was there keeps its place and its value.
-/

namespace Toolpath.Registers

open Text (symbols)

variable {rs rs' : Registers} {a b : Text}

/-- The same but for case and outer blanks. -/
def Alike (a b : Text) : Prop :=
  (symbols a.trim).map (fun r => upperChar r.char) = (symbols b.trim).map fun r => upperChar r.char

theorem normalName_eq_iff : normalName a = normalName b ↔ Alike a b := by
  have hsymbols (t : Text) :
      symbols (normalName t) = ((symbols t.trim).map fun r => upperChar r.char).map .scalar := by
    rw [normalName, Text.symbols_upper, List.map_map]
    rfl
  constructor
  · intro h
    have hboth := congrArg symbols h
    rw [hsymbols, hsymbols] at hboth
    exact List.map_injective_iff.mpr (fun c d h => Symbol.scalar.inj h) hboth
  · intro h
    apply Text.symbols_injective
    rw [hsymbols, hsymbols, h]

theorem normalName_ne_nil_iff : normalName a ≠ [] ↔ a.isAllBlank = false := by
  rw [← Bool.not_eq_true, ← Text.trim_eq_nil, not_iff_not]
  refine ⟨fun h => ?_, fun h => by rw [normalName, h]; rfl⟩
  by_contra hne
  exact Text.upper_ne_nil hne h

structure Consistent (rs : Registers) : Prop where
  distinct : rs.names.Nodup
  normal : ∀ name ∈ rs.names, normalName name = name
  index : ∀ key i, rs.index.lookup key = some i ↔ rs.names[i]? = some key

variable {n : Numeric}

namespace Consistent

theorem empty : Consistent {} := ⟨.nil, by simp [names], by simp [names]⟩

theorem isSome_lookup (h : rs.Consistent) (key : Text) :
    (rs.index.lookup key).isSome ↔ key ∈ rs.names := by
  rw [Option.isSome_iff_exists, List.mem_iff_getElem?]
  exact exists_congr (h.index key)

theorem find?_eq_some (h : rs.Consistent) :
    rs.find? a = some n ↔ n ∈ rs.list ∧ n.address = normalName a := by
  have hplace (i : Nat) : rs.position? a = some i ∧ rs.list[i]? = some n ↔
      rs.list[i]? = some n ∧ n.address = normalName a := by
    rw [position?, h.index, names, List.getElem?_map, and_comm]
    refine and_congr_right fun hn => ?_
    rw [hn, Option.map_some, Option.some_inj]
  rw [Registers.find?, Option.bind_eq_some_iff, exists_congr hplace, exists_and_right,
    List.mem_iff_getElem?]

theorem find?_isSome (h : rs.Consistent) (a : Text) :
    (rs.find? a).isSome ↔ normalName a ∈ rs.names := by
  rw [Option.isSome_iff_exists, exists_congr fun n => h.find?_eq_some, names, List.mem_map]

theorem push (h : rs.Consistent) (hnew : n.address ∉ rs.names)
    (hnormal : normalName n.address = n.address) : (rs.push n).Consistent := by
  have hnames : (rs.push n).names = rs.names ++ [n.address] := List.map_append
  have hlength : rs.names.length = rs.list.length := List.length_map _
  refine ⟨?_, ?_, fun key i => ⟨fun hi => ?_, fun hi => ?_⟩⟩
  · rw [hnames, List.nodup_append_comm]
    exact h.distinct.cons hnew
  · rw [hnames, List.forall_mem_append, List.forall_mem_singleton]
    exact ⟨h.normal, hnormal⟩
  · rw [hnames]
    rcases lookup_added hi with hold | ⟨rfl, rfl⟩
    · have hget := (h.index key i).mp hold
      rwa [List.getElem?_append_left (List.getElem?_eq_some_iff.mp hget).1]
    · rw [← hlength, List.getElem?_concat_length]
  · rw [hnames, List.getElem?_append] at hi
    rw [Registers.push, List.lookup_append]
    split_ifs at hi with hlt
    · rw [(h.index key i).mpr hi]
      rfl
    · rw [List.getElem?_singleton, Option.ite_none_right_eq_some, Option.some.injEq] at hi
      obtain ⟨hlast, rfl⟩ := hi
      have hnone : rs.index.lookup n.address = none := by
        rwa [← Option.not_isSome_iff_eq_none, h.isSome_lookup]
      rw [hnone, Option.none_or, List.lookup_cons_self]
      congr 1
      omega

theorem modify_list (h : rs.Consistent) (f : Numeric → Numeric) :
    (rs.modify a f).list = rs.list.map fun n => if n.address = normalName a then f n else n := by
  apply List.ext_getElem?
  intro j
  cases hn : rs.list[j]? with
  | none =>
    unfold Registers.modify
    split <;> simp [List.getElem?_modify, hn]
  | some n =>
    have hplace : n.address = normalName a ↔ rs.position? a = some j := by
      rw [position?, h.index, names, List.getElem?_map, hn, Option.map_some, Option.some_inj]
    unfold Registers.modify
    split
    next i hi => simp [List.getElem?_modify, hn, hplace, hi]
    next hnone => simp [hn, hplace, hnone]

theorem modify (h : rs.Consistent) {f : Numeric → Numeric} (hf : ∀ n, (f n).address = n.address) :
    (rs.modify a f).Consistent := by
  have hnames : (rs.modify a f).names = rs.names := by
    rw [names, h.modify_list, List.map_map]
    apply List.map_congr_left
    intro n _
    rw [Function.comp_apply, apply_ite Numeric.address, hf, ite_self]
  refine ⟨hnames ▸ h.distinct, hnames ▸ h.normal, fun key i => ?_⟩
  rw [hnames, index_modify]
  exact h.index key i

theorem getOrAdd {x : Float} {modal : Bool} {format : NumberFormat} (hrs : rs.Consistent)
    (h : rs.getOrAdd a x modal format = .ok rs') :
    rs'.Consistent ∧ rs'.list = rs.list ++
      if (rs.find? a).isSome then [] else [made (normalName a) x modal format] := by
  obtain ⟨-, ⟨hsome, rfl⟩ | ⟨hnone, rfl⟩⟩ := getOrAdd_ok h
  · rw [hrs.isSome_lookup, ← hrs.find?_isSome] at hsome
    rw [if_pos hsome, List.append_nil]
    exact ⟨hrs, rfl⟩
  · rw [← Option.not_isSome_iff_eq_none, hrs.isSome_lookup] at hnone
    rw [if_neg (mt (hrs.find?_isSome a).mp hnone)]
    exact ⟨hrs.push hnone (normalName_normalName a), rfl⟩

end Consistent

inductive Call
  | getOrAdd (name : Text) (initial : Float) (modal : Bool) (format : NumberFormat)
  | get (name : Text)
  | configure (name : Text) (format : NumberFormat) (modal : Bool)
  | lookup (name : Text)

namespace Call

def name : Call → Text
  | getOrAdd name _ _ _ => name
  | get name => name
  | configure name _ _ => name
  | lookup name => name

def apply (rs : Registers) : Call → Except Violation Registers
  | getOrAdd name initial modal format => rs.getOrAdd name initial modal format
  | get name => rs.ensure name
  | configure name format modal => rs.configure name format modal
  | lookup _ => .ok rs

/-- What becomes of a register that exists. -/
def revised : Call → Numeric → Numeric
  | configure name format modal, n =>
    if n.address = normalName name then { n with format := format.withAddress n.address, modal }
    else n
  | _, n => n

/-- The register that is made of a new name. -/
def created : Call → List Numeric
  | getOrAdd name x modal format => [made (normalName name) x modal format]
  | get name => [made (normalName name) 0 true (defaultFormat (normalName name))]
  | configure name format modal => [made (normalName name) 0 modal format]
  | lookup _ => []

def added (rs : Registers) (c : Call) : List Numeric :=
  if (rs.find? c.name).isSome then [] else c.created

theorem revised_eq (c : Call) (n : Numeric) :
    { c.revised n with format := n.format, modal := n.modal } = n := by
  cases c with
  | configure name format modal =>
    dsimp only [revised]
    split <;> rfl
  | _ => rfl

variable {c : Call}

theorem mem_created (h : n ∈ c.created) : n.address = normalName c.name ∧ n.changed = false := by
  cases c with
  | lookup name => cases h
  | _ =>
    rw [List.mem_singleton.mp h]
    exact ⟨rfl, rfl⟩

theorem apply_ok (hrs : rs.Consistent) (h : c.apply rs = .ok rs') :
    rs'.Consistent ∧ rs'.list = rs.list.map c.revised ++ c.added rs := by
  cases c with
  | lookup name =>
    cases h
    have hadded : (lookup name).added rs = [] := ite_self _
    rw [hadded, List.append_nil]
    exact ⟨hrs, (List.map_id _).symm⟩
  | getOrAdd name x modal format =>
    rw [show (getOrAdd name x modal format).revised = id from rfl, List.map_id]
    exact hrs.getOrAdd h
  | get name =>
    rw [show (get name).revised = id from rfl, List.map_id]
    exact hrs.getOrAdd ((ensure_eq rs name).symm.trans h)
  | configure name format modal =>
    obtain ⟨rs₁, hensure, h⟩ := bind_ok.mp h
    cases h
    obtain ⟨hrs₁, hlist⟩ := hrs.getOrAdd ((ensure_eq rs name).symm.trans hensure)
    refine ⟨hrs₁.modify fun n => rfl, ?_⟩
    have hmade : (made (normalName name) 0 true (defaultFormat (normalName name))).address =
        normalName name := rfl
    rw [hrs₁.modify_list, hlist, List.map_append, apply_ite (List.map _), List.map_nil,
      List.map_singleton, if_pos hmade]
    rfl

theorem exists_apply (hrs : rs.Consistent) (hname : c.name.isAllBlank = false)
    (hfinite : ∀ n ∈ c.added rs, Number.isFinite n.value = true) : ∃ rs', c.apply rs = .ok rs' := by
  rw [← normalName_ne_nil_iff] at hname
  cases c with
  | getOrAdd name x modal format =>
    refine exists_getOrAdd hname (fun hnone => ?_) modal format
    rw [← Option.not_isSome_iff_eq_none, hrs.isSome_lookup, ← hrs.find?_isSome] at hnone
    rw [added, if_neg hnone] at hfinite
    exact hfinite _ (List.mem_singleton_self _)
  | get name => exact exists_ensure rs hname
  | configure name format modal => exact exists_configure rs hname format modal
  | lookup name => exact ⟨rs, rfl⟩

theorem address_revised (c : Call) (n : Numeric) : (c.revised n).address = n.address :=
  (congrArg Numeric.address (c.revised_eq n) :)

/-- A call makes its name known, if it makes registers at all. -/
theorem mem_names (hrs : rs.Consistent) (h : rs'.list = rs.list.map c.revised ++ c.added rs)
    (key : Text) :
    key ∈ rs'.names ↔ key ∈ rs.names ∨ c.created ≠ [] ∧ normalName c.name = key := by
  have hnames : rs'.names = rs.names ++ (c.added rs).map (·.address) := by
    rw [names, h, List.map_append, List.map_map]
    exact congrArg (· ++ _) (List.map_congr_left fun n _ => c.address_revised n)
  have hcreated : c.created.map (·.address) = c.created.map fun _ => normalName c.name :=
    List.map_congr_left fun n hn => (mem_created hn).1
  rw [hnames, List.mem_append, added]
  split
  next hold =>
    rw [hrs.find?_isSome] at hold
    simpa using fun _ heq => heq ▸ hold
  next hnew =>
    rw [hcreated]
    simp [List.eq_nil_iff_forall_not_mem, @eq_comm _ key]

theorem run_ok (hrs : rs.Consistent) {calls : List Call} (h : calls.foldlM apply rs = .ok rs') :
    rs'.Consistent ∧ ∀ key, key ∈ rs'.names ↔
      key ∈ rs.names ∨ ∃ c ∈ calls, c.created ≠ [] ∧ normalName c.name = key := by
  induction calls generalizing rs with
  | nil =>
    cases h
    simpa using hrs
  | cons c calls ih =>
    rw [List.foldlM_cons] at h
    obtain ⟨rs₁, hc, h⟩ := bind_ok.mp h
    obtain ⟨hrs₁, hlist⟩ := apply_ok hrs hc
    obtain ⟨hrs', hnames⟩ := ih hrs₁ h
    refine ⟨hrs', fun key => ?_⟩
    rw [hnames, mem_names hrs hlist, List.exists_mem_cons_iff, or_assoc]

end Call

/-- No two registers share a name, and each is found by every spelling of its name, whatever was
called; of what exists, calls change formats and modality only. -/
theorem one_register_per_name {calls : List Call} {rs : Registers}
    (h : calls.foldlM Call.apply {} = .ok rs) :
    rs.names.Nodup ∧ (∀ name ∈ rs.names, normalName name = name) ∧
    (∀ key i, rs.index.lookup key = some i ↔ rs.names[i]? = some key) ∧
    (∀ name n, rs.find? name = some n ↔ n ∈ rs.list ∧ n.address = normalName name) ∧
    (∀ name, (rs.find? name).isSome ↔ ∃ c ∈ calls, c.created ≠ [] ∧ Alike c.name name) ∧
    ∀ c : Call,
      (c.name.isAllBlank = false → (∀ n ∈ c.added rs, Number.isFinite n.value = true) →
        ∃ rs', c.apply rs = .ok rs') ∧
      (∀ rs', c.apply rs = .ok rs' → rs'.list = rs.list.map c.revised ++ c.added rs) ∧
      (∀ n, { c.revised n with format := n.format, modal := n.modal } = n) ∧
      ∀ n ∈ c.created, n.address = normalName c.name ∧ n.changed = false := by
  obtain ⟨hrs, hnames⟩ := Call.run_ok .empty h
  refine ⟨hrs.distinct, hrs.normal, hrs.index, fun name n => hrs.find?_eq_some, fun name => ?_,
    fun c => ?_⟩
  · rw [hrs.find?_isSome, hnames]
    simp only [names, List.map_nil, List.not_mem_nil, false_or, normalName_eq_iff]
  · exact ⟨Call.exists_apply hrs, fun rs' hc => (Call.apply_ok hrs hc).2, c.revised_eq,
      fun n => Call.mem_created⟩

theorem one_register_per_name_spellings : ∃ rs,
    [Call.getOrAdd (Text.ofString " q") 1 false (defaultFormat []),
      .get (Text.ofString "Q ")].foldlM
      Call.apply {} = .ok rs ∧ rs.names = [Text.ofString "Q"] ∧
      (rs.find? (Text.ofString "q\t")).isSome := by
  refine ⟨_, rfl, rfl, ?_⟩
  obtain ⟨-, -, -, -, hfound, -⟩ := one_register_per_name
    (show [Call.getOrAdd " q" 1 false (defaultFormat []), .get "Q "].foldlM
      Call.apply {} = .ok _ from rfl)
  exact (hfound _).mpr ⟨_, List.mem_cons_self, List.cons_ne_nil _ _, normalName_eq_iff.mp rfl⟩

end Toolpath.Registers
