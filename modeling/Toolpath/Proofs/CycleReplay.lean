import Mathlib.Data.List.Nodup
import Mathlib.Data.List.Perm.Subperm
import Toolpath.Machine.Drill
import Toolpath.Proofs.Memos
import Toolpath.Proofs.Registers

/-!
# Cycle calls replayed

A controller that reads `NAME()` repeats the cycle with the last parameters it was given in full. It
then drills with the parameters that the call passed, since a bare call is only written where they
are those of the last full line.
-/

namespace Toolpath

namespace Parameters

def Distinct (ps : Parameters) : Prop := (ps.map Prod.fst).Nodup

instance (ps : Parameters) : Decidable ps.Distinct := inferInstanceAs (Decidable (List.Nodup _))

/-- The same names, in any order, with strictly equal values. -/
structure Agree (ps qs : Parameters) : Prop where
  names : (ps.map Prod.fst).Perm (qs.map Prod.fst)
  values : ∀ name v w, (name, v) ∈ ps → (name, w) ∈ qs → v.same w = true

theorem Agree.isEmpty_eq {ps qs : Parameters} (h : ps.Agree qs) : ps.isEmpty = qs.isEmpty := by
  have hlength := h.names.length_eq
  rw [List.length_map, List.length_map] at hlength
  rw [Bool.eq_iff_iff, List.isEmpty_iff_length_eq_zero, List.isEmpty_iff_length_eq_zero, hlength]

end Parameters

theorem DrillCycle.parameters_distinct (c : DrillCycle) :
    c.parameters.Distinct ∧ c.parameters ≠ [] := by
  have hcommon : c.commonParameters.map Prod.fst =
      (["RTP", "RFP", "SDIS", "DP", "DPR"] : List String).map Text.ofString := rfl
  have hdeep : c.deepParameters.map Prod.fst =
      (["FDEP", "FDPR", "DAM", "DTB", "DTS", "FRF", "AXN", "OLDP", "AXS"] : List String).map
        Text.ofString := rfl
  constructor
  · unfold Parameters.Distinct parameters
    split
    · rw [List.map_append, hcommon, hdeep]
      decide
    · rw [List.append_nil, hcommon]
      decide
  · intro h
    cases List.append_eq_nil_iff.mp h |>.1

namespace CycleMemo

variable {name : Text} {c : CycleMemo} {ps qs : Parameters}

theorem foldl_set (ps : Parameters) (m : Memo)
    (h : (m.entries.map Prod.fst ++ ps.map Prod.fst).Nodup) :
    ps.foldl (fun m p => m.set p.1 p.2) m = ⟨ps.reverse ++ m.entries⟩ := by
  induction ps generalizing m with
  | nil => rfl
  | cons p ps ih =>
    obtain ⟨key, v⟩ := p
    rw [List.map_cons, List.nodup_middle, List.nodup_cons] at h
    -- the name is new, so that nothing has to be removed for it
    have hnew : m.remove key = m := by
      have hkeys : ∀ e ∈ m.entries, (e.1 != key) = true := by
        intro e he
        rw [bne_iff_ne]
        intro hkey
        exact h.1 (List.mem_append_left _ (List.mem_map.mpr ⟨e, he, hkey⟩))
      exact congrArg Memo.mk (List.filter_eq_self.mpr hkeys)
    rw [List.foldl_cons, Memo.set, hnew, ih]
    · simp
    · rw [List.map_cons, List.cons_append, List.nodup_cons]
      exact h

theorem remember_eq (h : ps.Distinct) : remember ps = ⟨ps.reverse⟩ := by
  have hfold := foldl_set ps {} h
  rwa [List.append_nil] at hfold

theorem mem_of_get?_remember (h : ps.Distinct) {key : Text} {v : Value}
    (hv : (remember ps).get? key = some v) : (key, v) ∈ ps := by
  rw [remember_eq h, Memo.get?, List.lookup_eq_some_iff] at hv
  obtain ⟨before, after, hsplit, -⟩ := hv
  rw [← List.mem_reverse]
  change ps.reverse = _ at hsplit
  rw [hsplit]
  simp

theorem agree_of_matchesMemo (hps : ps.Distinct) (hqs : qs.Distinct)
    (h : matchesMemo qs (remember ps) = true) : ps.Agree qs := by
  simp only [matchesMemo, Bool.and_eq_true, decide_eq_true_eq, List.all_eq_true] at h
  obtain ⟨hsize, hall⟩ := h
  have hlength : qs.length = ps.length := by
    rwa [remember_eq hps, Memo.size, List.length_reverse] at hsize
  have hfound (q : Text × Value) (hq : q ∈ qs) : ∃ v, (q.1, v) ∈ ps ∧ v.same q.2 = true := by
    have hq' := hall q hq
    cases hv : (remember ps).get? q.1 with
    | none =>
      rw [hv] at hq'
      cases hq'
    | some v =>
      rw [hv] at hq'
      exact ⟨v, mem_of_get?_remember hps hv, hq'⟩
  have hsub : qs.map Prod.fst ⊆ ps.map Prod.fst := by
    intro n hn
    obtain ⟨q, hq, rfl⟩ := List.mem_map.mp hn
    obtain ⟨v, hv, -⟩ := hfound q hq
    exact List.mem_map.mpr ⟨_, hv, rfl⟩
  constructor
  · exact ((List.Nodup.subperm hqs hsub).perm_of_length_le (by simp [hlength])).symm
  · intro key v w hv hw
    obtain ⟨v', hv', hsame⟩ := hfound (key, w) hw
    obtain rfl : v = v' := congrArg Prod.snd (List.inj_on_of_nodup_map hps hv hv' rfl)
    exact hsame

/-! ## Requests and the lines they write -/

/-- What is asked of a memo: a call, whose line is then written or refused, or to
forget the last full call. -/
inductive Request
  | call (params : Parameters) (written : Bool)
  | forget
deriving DecidableEq

namespace Request

def isCall : Request → Bool
  | call _ _ => true
  | forget => false

def done? : Request → Option Parameters
  | call params true => some params
  | _ => none

def Distinct : Request → Prop
  | call params _ => params.Distinct
  | forget => True

instance : DecidablePred Distinct
  | call params _ => inferInstanceAs (Decidable params.Distinct)
  | forget => inferInstanceAs (Decidable True)

end Request

def serve (c : CycleMemo) : Request → CycleMemo
  | .call params written => c.after params written
  | .forget => c.reset

def serveAll (c : CycleMemo) (rs : List Request) : CycleMemo := rs.foldl serve c

structure Entry where
  line : Text
  /-- Whether the memo answered that the line is a full one. -/
  full : Bool
  params : Parameters

def entryOf (c : CycleMemo) (params : Parameters) :
    Entry := ⟨(c.line params).1, (c.line params).2, params⟩

def entries (c : CycleMemo) : List Request → List Entry
  | [] => []
  | r :: rs => (r.done?.map c.entryOf).toList ++ (c.serve r).entries rs

def bareLine (name : Text) : Text := name ++ "()"

def Entry.told (e : Entry) : Option Parameters := if e.full then some e.params else none

def Entry.spelled (name : Text) (e : Entry) : Option Parameters :=
  if e.line = bareLine name then none else some e.params

/-- What a reader makes of each line: a full one stands for itself, and a bare one for
the last full one before it. -/
def replay (last : Option Parameters) : List (Option Parameters) → List (Option Parameters)
  | [] => []
  | line :: rest => line.or last :: replay (line.or last) rest

def Entry.ReadAs (e : Entry) (read : Option Parameters) : Prop :=
  ∃ ps, read = some ps ∧ (e.full = true → ps = e.params) ∧ (e.full = false → ps.Agree e.params)

theorem line_full (h : c.repeats qs = false) : c.line qs = (fullLine c.name qs, true) := by
  rw [line, h]
  rfl

theorem line_bare (h : c.repeats qs = true) : c.line qs = (bareLine c.name, false) := by
  rw [line, h]
  rfl

theorem fullLine_eq_bareLine_iff : fullLine name ps = bareLine name ↔ ps = [] := by
  have hbare : bareLine name = name ++ Text.ofString "(" ++ [] ++ Text.ofString ")" := by
    simp only [bareLine, List.append_assoc]
    rfl
  rw [hbare, fullLine, List.append_left_inj, List.append_right_inj]
  cases ps with
  | nil => simp [Text.join]
  | cons p ps =>
    have hequals : Text.ofString "=" ≠ [] := by decide
    have htext : parameterText p ≠ [] := by simp [parameterText, hequals]
    simp only [List.map_cons, reduceCtorEq, iff_false]
    cases ps with
    | nil => simpa [Text.join, List.intercalate] using htext
    | cons q ps => simp [Text.join, List.intercalate, htext]

theorem serve_name (r : Request) : (c.serve r).name = c.name := by
  cases r with
  | forget => rfl
  | call ps written =>
    simp only [serve, after]
    split <;> rfl

theorem serve_refused (ps : Parameters) :
    c.serve (.call ps false) = { c with calls := c.calls + 1 } := by
  simp [serve, after]

theorem serve_bare (h : c.repeats ps = true) (written : Bool) :
    c.serve (.call ps written) = { c with calls := c.calls + 1 } := by
  have hline : (line { c with calls := c.calls + 1 } ps).2 = false :=
    congrArg Prod.snd (line_bare h)
  simp [serve, after, hline]

theorem serve_full (h : c.repeats ps = false) :
    c.serve (.call ps true) =
      { c with
        calls := c.calls + 1, last := some (remember ps), definitions := c.definitions + 1 } := by
  have hline : (line { c with calls := c.calls + 1 } ps).2 = true := congrArg Prod.snd (line_full h)
  simp [serve, after, hline]

/-- The reader holds what the memo remembers, if it is a list that the reader `tells`
from a bare call. -/
def Recalled (tells : Parameters → Bool) (last : Option Parameters) (c : CycleMemo) : Prop :=
  ∀ m, c.last = some m → ∃ ps : Parameters, ps.Distinct ∧ m = remember ps ∧
    (tells ps = true → last = some ps)

section Reader

variable {tells : Parameters → Bool} {last : Option Parameters}

def lineTo (tells : Parameters → Bool) (c : CycleMemo) (ps : Parameters) : Option Parameters :=
  if c.repeats ps || !tells ps then none else some ps

theorem told_entryOf : (c.entryOf ps).told = lineTo (fun _ => true) c ps := by
  cases h : c.repeats ps with
  | false => simp [Entry.told, lineTo, entryOf, h, line_full h]
  | true => simp [Entry.told, lineTo, entryOf, h, line_bare h]

theorem spelled_entryOf (hname : c.name = name) :
    (c.entryOf ps).spelled name = lineTo (fun ps => !ps.isEmpty) c ps := by
  subst hname
  cases h : c.repeats ps with
  | false => simp [Entry.spelled, lineTo, entryOf, h, line_full h, fullLine_eq_bareLine_iff]
  | true => simp [Entry.spelled, lineTo, entryOf, h, line_bare h]

theorem Recalled.agree (h : Recalled tells last c) (hqs : qs.Distinct)
    (hrep : c.repeats qs = true) :
    ∃ ps, ps.Agree qs ∧ (tells ps = true → last = some ps) := by
  rw [repeats] at hrep
  cases hlast : c.last with
  | none =>
    rw [hlast] at hrep
    cases hrep
  | some m =>
    rw [hlast] at hrep
    obtain ⟨ps, hps, rfl, htold⟩ := h m hlast
    exact ⟨ps, agree_of_matchesMemo hps hqs hrep, htold⟩

theorem Recalled.written (h : Recalled tells last c)
    (htells : ∀ ps qs, ps.Agree qs → tells ps = tells qs) (hps : ps.Distinct) :
    Recalled tells ((lineTo tells c ps).or last) (c.serve (.call ps true)) ∧
      (tells ps = true → (c.entryOf ps).ReadAs ((lineTo tells c ps).or last)) := by
  cases hrep : c.repeats ps with
  | true =>
    have hline : lineTo tells c ps = none := by simp [lineTo, hrep]
    rw [hline, Option.none_or, serve_bare hrep]
    refine ⟨h, fun htold => ?_⟩
    obtain ⟨qs, hagree, hlast⟩ := h.agree hps hrep
    have hfull : (c.entryOf ps).full = false := congrArg Prod.snd (line_bare hrep)
    refine ⟨qs, hlast ((htells qs ps hagree).trans htold), fun hnot => ?_, fun _ => hagree⟩
    cases hfull.symm.trans hnot
  | false =>
    have hfull : (c.entryOf ps).full = true := congrArg Prod.snd (line_full hrep)
    have hline (htold : tells ps = true) : (lineTo tells c ps).or last = some ps := by
      simp [lineTo, hrep, htold]
    rw [serve_full hrep]
    constructor
    · rintro m ⟨⟩
      exact ⟨ps, hps, rfl, hline⟩
    · intro htold
      refine ⟨ps, hline htold, fun _ => rfl, fun hnot => ?_⟩
      cases hfull.symm.trans hnot

theorem replay_entries {tell : Entry → Option Parameters}
    (htell : ∀ c ps, c.name = name → tell (c.entryOf ps) = lineTo tells c ps)
    (htells : ∀ ps qs, ps.Agree qs → tells ps = tells qs) (rs : List Request)
    (hrs : ∀ r ∈ rs, r.Distinct) (hname : c.name = name) (h : Recalled tells last c) :
    List.Forall₂ (fun e read => tells e.params = true → e.ReadAs read) (c.entries rs)
      (replay last ((c.entries rs).map tell)) := by
  induction rs generalizing c last with
  | nil => exact .nil
  | cons r rs ih =>
    obtain ⟨hr, htail⟩ := List.forall_mem_cons.mp hrs
    have hname' : (c.serve r).name = name := (serve_name r).trans hname
    cases r with
    | forget =>
      -- a memo that holds nothing is in step with every reader
      exact ih htail hname' fun m hm => by cases hm
    | call ps written =>
      cases written with
      | false =>
        refine ih htail hname' ?_
        rw [serve_refused]
        exact h
      | true =>
        obtain ⟨hrecalled, hread⟩ := h.written htells hr
        rw [entries, Request.done?, Option.map_some, Option.toList_some, List.singleton_append,
          List.map_cons, replay, htell c ps hname]
        exact .cons hread (ih htail hname' hrecalled)

end Reader

theorem serveAll_concat (rs : List Request) (r : Request) :
    c.serveAll (rs ++ [r]) = (c.serveAll rs).serve r := by
  simp [serveAll]

theorem params_entries (rs : List Request) :
    (c.entries rs).map Entry.params = rs.filterMap Request.done? := by
  induction rs generalizing c with
  | nil => rfl
  | cons r rs ih =>
    rw [entries, List.map_append, ih, List.filterMap_cons]
    cases r.done? <;> rfl

theorem line_entries (rs : List Request) :
    ∀ e ∈ c.entries rs, e.line = if e.full then fullLine c.name e.params else bareLine c.name := by
  induction rs generalizing c with
  | nil => simp [entries]
  | cons r rs ih =>
    have hrest := ih (c := c.serve r)
    rw [serve_name] at hrest
    rw [entries, List.forall_mem_append]
    refine ⟨fun e he => ?_, hrest⟩
    obtain ⟨ps, -, rfl⟩ := Option.map_eq_some_iff.mp (Option.mem_toList.mp he)
    cases h : c.repeats ps with
    | false => simp [entryOf, line_full h]
    | true => simp [entryOf, line_bare h]

theorem last_serveAll (rs : List Request) (hrs : ∀ r ∈ rs, r.done? = none) (h : c.last = none) :
    (c.serveAll rs).last = none := by
  induction rs generalizing c with
  | nil => exact h
  | cons r rs ih =>
    obtain ⟨hr, hrs⟩ := List.forall_mem_cons.mp hrs
    refine ih hrs ?_
    cases r with
    | forget => rfl
    | call ps written =>
      cases written with
      | false => rwa [serve_refused]
      | true => cases hr

theorem full_of_last (h : c.last = none) (ps : Parameters) : (c.line ps).2 = true := by
  have hrep : c.repeats ps = false := by
    rw [repeats, h]
    rfl
  rw [line_full hrep]

theorem calls_serveAll (rs : List Request) :
    (c.serveAll rs).calls = c.calls + rs.countP Request.isCall := by
  induction rs generalizing c with
  | nil => rfl
  | cons r rs ih =>
    rw [serveAll, List.foldl_cons, ← serveAll, ih, List.countP_cons]
    cases r with
    | forget => rfl
    | call ps written =>
      have hcalls : (c.serve (.call ps written)).calls = c.calls + 1 := by
        simp only [serve, after]
        split <;> rfl
      rw [hcalls]
      simp only [Request.isCall, if_true]
      omega

theorem definitions_serveAll (rs : List Request) :
    (c.serveAll rs).definitions = c.definitions + (c.entries rs).countP Entry.full := by
  induction rs generalizing c with
  | nil => rfl
  | cons r rs ih =>
    rw [serveAll, List.foldl_cons, ← serveAll, ih, entries, List.countP_append]
    cases r with
    | forget => simp [Request.done?, serve, reset]
    | call ps written =>
      cases written with
      | false => simp [Request.done?, serve_refused]
      | true =>
        cases h : c.repeats ps with
        | true => simp [Request.done?, serve_bare h, entryOf, line_bare h]
        | false =>
          simp only [Request.done?, serve_full h, entryOf, line_full h, Option.map_some,
            Option.toList_some, List.countP_singleton, if_true]
          omega

/-- Whatever calls are made, whichever of their lines are refused and wherever the memo is reset: a
reader who expands each bare call to the last full line before it holds, for every line written,
the parameters that the call passed. A reader of the bare text `NAME()` does so too for every call
that has a parameter. The first line for a new memo, or behind a reset, is a full one. A line that
is refused changes nothing but the number of calls. -/
theorem calls_replayed (hnew : CycleMemo.new name = .ok c) (rs : List Request)
    (hrs : ∀ r ∈ rs, r.Distinct) :
    (c.entries rs).map Entry.params = rs.filterMap Request.done? ∧
    (∀ e ∈ c.entries rs, e.line = if e.full then fullLine name e.params else bareLine name) ∧
    List.Forall₂ Entry.ReadAs (c.entries rs) (replay none ((c.entries rs).map Entry.told)) ∧
    List.Forall₂ (fun e read => e.params ≠ [] → e.ReadAs read) (c.entries rs)
      (replay none ((c.entries rs).map (Entry.spelled name))) ∧
    (∀ d : DrillCycle, d.parameters.Distinct ∧ d.parameters ≠ []) ∧
    (∀ before since ps, (∀ r ∈ since, r.done? = none) →
      ((c.serveAll since).line ps).2 = true ∧
      ((c.serveAll (before ++ .forget :: since)).line ps).2 = true) ∧
    (∀ before ps, c.serveAll (before ++ [.call ps false]) =
      { c.serveAll before with calls := (c.serveAll before).calls + 1 }) ∧
    (c.serveAll rs).calls = rs.countP Request.isCall ∧
    (c.serveAll rs).definitions = (c.entries rs).countP Entry.full := by
  obtain ⟨_, -, h⟩ := bind_ok.mp hnew
  cases h
  have hrecalled (tells : Parameters → Bool) : Recalled tells none { name } :=
    fun m hm => by cases hm
  refine ⟨params_entries rs, line_entries rs, ?_, ?_, DrillCycle.parameters_distinct,
    ?_, ?_, ?_, ?_⟩
  · have hread := replay_entries (fun c ps _ => told_entryOf) (fun _ _ _ => rfl) rs hrs
      (c := { name }) rfl (hrecalled _)
    exact hread.imp fun e read he => he rfl
  · have hread := replay_entries (fun c ps hname => spelled_entryOf hname)
      (fun ps qs hagree => congrArg not hagree.isEmpty_eq) rs hrs (c := { name }) rfl (hrecalled _)
    refine hread.imp fun e read he hne => he ?_
    simpa using hne
  · intro before since ps hsince
    refine ⟨full_of_last (last_serveAll since hsince rfl) ps, full_of_last ?_ ps⟩
    rw [serveAll, List.foldl_append, List.foldl_cons]
    exact last_serveAll since hsince rfl
  · intro before ps
    rw [serveAll_concat, serve_refused]
  · exact (calls_serveAll rs).trans (Nat.zero_add _)
  · exact (definitions_serveAll rs).trans (Nat.zero_add _)

/-- A refused line, a call in another order, an integer in place of a number, a
parameter that is not equal to itself, and a reset. -/
theorem calls_replayed_nan :
    let two : Value := .float 2
    let ps : Parameters := [("DP", two), ("Q", .float 0.5)]
    let rs : List Request := [.call ps false, .call ps true, .call ps.reverse true,
      .call [("DP", .integer .plain 2), ("Q", .float 0.5)] true,
      .call [("DP", .float Number.nan)] true,
      .call [("DP", .float Number.nan)] true, .forget, .call ps true, .call ps false, .call ps true]
    let c : CycleMemo := { name := "CYCLE83" }
    CycleMemo.new "CYCLE83" = .ok c ∧
    (c.entries rs).map Entry.full = [true, false, true, true, true, true, false] ∧
    List.Forall₂ (fun e read => e.params ≠ [] → e.ReadAs read) (c.entries rs)
      (replay none ((c.entries rs).map (Entry.spelled "CYCLE83"))) ∧
    (c.serveAll rs).calls = 9 ∧ (c.serveAll rs).definitions = 5 := by
  intro two ps rs c
  have hnew : CycleMemo.new "CYCLE83" = .ok c := rfl
  have hfull : (c.entries rs).map Entry.full = [true, false, true, true, true, true, false] := by
    decide +kernel
  obtain ⟨-, -, -, hread, -, -, -, hcalls, hdefinitions⟩ :=
    calls_replayed hnew rs (by decide +kernel)
  exact ⟨hnew, hfull, hread, hcalls, hdefinitions.trans (by decide +kernel)⟩

end CycleMemo
end Toolpath
