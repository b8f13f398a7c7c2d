import Mathlib.Data.List.Nodup
import Toolpath.Proofs.Profiles

/-!
# Distinct keys

The keys of a table are distinct in every document that is read, in JSON as in YAML, at whatever
depth the table stands.
-/

namespace Toolpath

theorem map_ok {ε α β : Type} {x : Except ε α} {f : α → β} {r : β} :
    x.map f = .ok r ↔ ∃ a, x = .ok a ∧ f a = r := by
  cases x <;> simp [Except.map]

theorem mem_of_lookup {α : Type} {es : List (Text × α)} {key : Text} {v : α}
    (h : es.lookup key = some v) : (key, v) ∈ es := by
  obtain ⟨front, rest, rfl, -⟩ := List.lookup_eq_some_iff.mp h
  simp

namespace Profile

theorem map_fst_setEntry {α : Type} (key : Text) (v : α) (es : List (Text × α)) :
    (setEntry key v es).map Prod.fst =
      if key ∈ es.map Prod.fst then es.map Prod.fst else es.map Prod.fst ++ [key] := by
  induction es with
  | nil => simp [setEntry]
  | cons e es ih =>
    by_cases h : e.1 = key
    · simp [setEntry, h]
    · rw [setEntry, if_neg h, List.map_cons, ih]
      by_cases hmem : key ∈ es.map Prod.fst
      · simp [hmem]
      · simp [hmem, Ne.symm h]

theorem nodup_setEntry {α : Type} {es : List (Text × α)} (h : (es.map Prod.fst).Nodup) (key : Text)
    (v : α) : ((setEntry key v es).map Prod.fst).Nodup := by
  rw [map_fst_setEntry]
  split
  next => exact h
  next hkey => exact h.append (List.nodup_singleton key) (by simpa using hkey)

end Profile

namespace Document

inductive Distinct : Document → Prop
  | null : Distinct .null
  | flag (b : Bool) : Distinct (.flag b)
  | number (x : Float) : Distinct (.number x)
  | text (t : Text) : Distinct (.text t)
  | list {items : List Document} (h : ∀ d ∈ items, Distinct d) : Distinct (.list items)
  | table {entries : List (Text × Document)} (keys : (entries.map Prod.fst).Nodup)
      (h : ∀ e ∈ entries, Distinct e.2) : Distinct (.table entries)

theorem setEntry_eq (key : Text) (value : Document) (es : List (Text × Document)) :
    setEntry key value es = Profile.setEntry key value es := by
  induction es with
  | nil => rfl
  | cons e es ih => rw [setEntry, Profile.setEntry, ih]

theorem Distinct.setEntry {es : List (Text × Document)} {d : Document} (h : Distinct (.table es))
    (hd : Distinct d) (key : Text) : Distinct (.table (setEntry key d es)) := by
  rw [setEntry_eq]
  cases h with
  | table keys h =>
    refine .table (Profile.nodup_setEntry keys key d) fun e he => ?_
    obtain rfl | he := Profile.mem_setEntry he
    · exact hd
    · exact h e he

theorem Distinct.empty : Distinct (.table []) := .table List.nodup_nil (by simp)

theorem Distinct.get? {d part : Document} {key : Text} (h : Distinct d)
    (hpart : d.get? key = some part) : Distinct part := by
  cases h with
  | table keys h => exact h (key, part) (mem_of_lookup hpart)
  | _ => cases hpart

end Document

namespace Json

open Document (Distinct)

def Tells (value : ValueReader) : Prop := ∀ t d rest, value t = some (d, rest) → Distinct d

variable {value : ValueReader}

theorem tells_readItems (hvalue : Tells value) (acc : List Document) (fuel : Nat)
    (hacc : ∀ d ∈ acc, Distinct d) : Tells (readItems value acc fuel) := by
  induction fuel generalizing acc with
  | zero => rintro t d rest ⟨⟩
  | succ fuel ih =>
    intro t d rest h
    rw [readItems] at h
    split at h
    · cases h
    next x t' hx =>
      have hitems : ∀ d ∈ x :: acc, Distinct d := List.forall_mem_cons.mpr ⟨hvalue _ _ _ hx, hacc⟩
      split at h
      · exact ih _ hitems _ _ _ h
      · cases h
        exact .list fun d hd => hitems d (List.mem_reverse.mp hd)
      · cases h

theorem tells_readEntries (hvalue : Tells value) (acc : List (Text × Document)) (fuel : Nat)
    (hacc : Distinct (.table acc)) : Tells (readEntries value acc fuel) := by
  induction fuel generalizing acc with
  | zero => rintro t d rest ⟨⟩
  | succ fuel ih =>
    intro t d rest h
    rw [readEntries] at h
    split at h
    · cases h
    next key _ _ =>
      split at h
      · cases h
      next x t' hx =>
        have hentries := hacc.setEntry (hvalue _ _ _ hx) key
        split at h
        · exact ih _ hentries _ _ _ h
        · cases h
          exact hentries
        · cases h

theorem tells_number? : Tells number? := by
  intro t d rest h
  unfold number? at h
  simp only [Option.bind_eq_bind, Option.bind_eq_some_iff] at h
  obtain ⟨w, -, f, -, e, -, h⟩ := h
  split at h
  · cases h
    exact .number _
  · cases h

theorem tells_literal? : Tells literal? := by
  intro t d rest h
  unfold literal? at h
  split at h
  · cases h; exact .null
  · cases h; exact .flag true
  · cases h; exact .flag false
  · cases h

theorem tells_readValue (depth : Nat) : Tells (readValue depth) := by
  induction depth using Nat.strongRecOn with
  | ind depth ih =>
    intro t d rest h
    unfold readValue at h
    split at h
    · split at h
      · cases h
      next depth =>
        split at h
        · cases h
          exact .list (by simp)
        · exact tells_readItems (ih depth depth.lt_succ_self) [] _ (by simp) _ _ _ h
    · split at h
      · cases h
      next depth =>
        split at h
        · cases h
          exact .empty
        · exact tells_readEntries (ih depth depth.lt_succ_self) [] _ .empty _ _ _ h
    · obtain ⟨p, -, hp⟩ := Option.map_eq_some_iff.mp h
      cases hp
      exact .text _
    · split at h
      · exact tells_number? _ _ _ h
      · exact tells_literal? _ _ _ h
    · cases h

end Json

theorem Document.distinct_ofJson? {t : Text} {d : Document} (h : ofJson? t = some d) :
    d.Distinct := by
  unfold ofJson? at h
  split at h
  next d rest hd =>
    rw [Option.ite_none_right_eq_some] at h
    obtain rfl := Option.some.inj h.2
    exact Json.tells_readValue _ _ _ _ hd
  · cases h

namespace Yaml

open Document (Distinct)

def Plain (es : List Entry) : Prop := ∀ e ∈ es, Distinct e.value.1

theorem distinct_document (v : Scalar) : Distinct v.document.1 := by
  cases v <;> constructor

theorem Plain.addNew {es more : List Entry} (h : Plain es) (hmore : Plain more) :
    Plain (addNew es more) := by
  unfold Yaml.addNew
  induction more generalizing es with
  | nil => exact h
  | cons e more ih =>
    obtain ⟨he, hrest⟩ := List.forall_mem_cons.mp hmore
    rw [List.foldl_cons]
    refine ih ?_ hrest
    split
    · exact h
    · intro f hf
      obtain hf | hf := List.mem_append.mp hf
      · exact h f hf
      · obtain rfl := List.mem_singleton.mp hf
        exact he

theorem Plain.table {es : List Entry} (h : Plain es) {t : List (Text × Document)}
    (ht : Distinct (.table t)) :
    Distinct (.table (es.foldl (fun t e => Document.setEntry e.key e.value.1 t) t)) := by
  induction es generalizing t with
  | nil => exact ht
  | cons e es ih =>
    obtain ⟨he, hrest⟩ := List.forall_mem_cons.mp h
    exact ih hrest (ht.setEntry he e.key)

theorem plain_mappingEntries {items : List Node}
    (hown : ∀ {es}, ownEntries items = .ok es → Plain es)
    (hmerged : ∀ {es}, mergedEntries items = .ok es → Plain es) {es : List Entry}
    (h : mappingEntries items = .ok es) : Plain es := by
  rw [mappingEntries] at h
  split at h
  · cases h
  split at h
  · cases h
  next own hes =>
    obtain ⟨merged, hs, rfl⟩ := map_ok.mp h
    exact (hown hes).addNew (hmerged hs)

-- by recursion on the node, along the definitions; an alias has the meaning of its target
mutual

theorem distinct_meaning {m : Meaning} : ∀ n : Node, n.meaning = .ok m → Distinct m.1
  | .scalar tag styled s, h => by
    rw [Node.meaning] at h
    obtain ⟨v, -, rfl⟩ := map_ok.mp h
    exact distinct_document v
  | .sequence _ items, h => by
    rw [Node.meaning] at h
    obtain ⟨ms, hms, rfl⟩ := map_ok.mp h
    refine .list fun d hd => ?_
    obtain ⟨m, hm, rfl⟩ := List.mem_map.mp hd
    exact distinct_meanings items hms m hm
  | .alias _ n _, h => by
    rw [Node.meaning] at h
    exact distinct_meaning n h
  | .mapping _ items, h => by
    rw [Node.meaning] at h
    split at h
    · cases h
    split at h
    · cases h
    next own hown =>
      split at h
      · cases h
      next merged hmerged =>
        cases h
        exact ((plain_ownEntries items hown).addNew (plain_mergedEntries items hmerged)).table
          .empty

theorem distinct_meanings {ms : List Meaning} :
    ∀ ns : List Node, meanings ns = .ok ms → ∀ m ∈ ms, Distinct m.1
  | [], h => by
    rw [meanings] at h
    cases h
    simp
  | n :: ns, h => by
    rw [meanings] at h
    split at h
    · cases h
    next m hm =>
      obtain ⟨ms, hs, rfl⟩ := map_ok.mp h
      exact List.forall_mem_cons.mpr ⟨distinct_meaning n hm, distinct_meanings ns hs⟩

theorem plain_ownEntries {es : List Entry} :
    ∀ items : List Node, ownEntries items = .ok es → Plain es
  | k :: v :: rest, h => by
    rw [ownEntries] at h
    split at h
    · exact plain_ownEntries rest h
    split at h
    · cases h
    split at h
    · cases h
    next value hvalue =>
      obtain ⟨es, hs, rfl⟩ := map_ok.mp h
      exact List.forall_mem_cons.mpr ⟨distinct_meaning v hvalue, plain_ownEntries rest hs⟩
  | [], h | [_], h => by
    unfold ownEntries at h
    cases h
    simp [Plain]

theorem plain_mergedEntries {es : List Entry} :
    ∀ items : List Node, mergedEntries items = .ok es → Plain es
  | k :: v :: rest, h => by
    rw [mergedEntries] at h
    split at h
    · exact plain_mergeSource v h
    · exact plain_mergedEntries rest h
  | [], h | [_], h => by
    unfold mergedEntries at h
    cases h
    simp [Plain]

theorem plain_mergeSource {es : List Entry} : ∀ n : Node, n.mergeSource = .ok es → Plain es
  | .mapping _ items, h => by
    rw [Node.mergeSource] at h
    exact plain_mappingEntries (plain_ownEntries items) (plain_mergedEntries items) h
  | .alias _ (.mapping _ items) _, h => by
    rw [Node.mergeSource] at h
    exact plain_mappingEntries (plain_ownEntries items) (plain_mergedEntries items) h
  | .sequence _ items, h => by
    rw [Node.mergeSource] at h
    exact plain_sourceEntries items h
  | .scalar _ _ _, h | .alias _ (.scalar _ _ _) _, h | .alias _ (.sequence _ _) _, h
  | .alias _ (.alias _ _ _) _, h => by
    unfold Node.mergeSource at h
    cases h

theorem plain_sourceEntries {es : List Entry} :
    ∀ ns : List Node, sourceEntries ns = .ok es → Plain es
  | [], h => by
    rw [sourceEntries] at h
    cases h
    simp [Plain]
  | n :: ns, h => by
    rw [sourceEntries] at h
    split at h
    · cases h
    split at h
    · cases h
    next own hown =>
      obtain ⟨more, hs, rfl⟩ := map_ok.mp h
      exact (plain_mergeSource n hown).addNew (plain_sourceEntries ns hs)

end

end Yaml

theorem Document.distinct_ofYaml {t : Text} {d : Document} (h : ofYaml t = .ok d) : d.Distinct := by
  unfold ofYaml at h
  split at h
  · cases h
  split at h
  · cases h
  · cases h
    exact .empty
  split at h
  · cases h
  split at h
  · cases h
  · cases h
    exact .empty
  next hn =>
    split at h
    · cases h
      exact Yaml.distinct_meaning _ hn
    · cases h

theorem Profile.document_distinct {data : Text} {format : DocumentFormat} {d : Document}
    (h : document data format = .ok d) : d.Distinct := by
  unfold document at h
  split at h
  · split at h
    next hd =>
      cases h
      exact Document.distinct_ofJson? hd
    · cases h
  · split at h
    next hd =>
      cases h
      exact Document.distinct_ofYaml hd
    · cases h
    · cases h

end Toolpath
