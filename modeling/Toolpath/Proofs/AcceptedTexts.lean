import Toolpath.Proofs.FiniteNumbers
import Toolpath.Proofs.Statements

/-!
# Every text is a program

Whatever octets a text is made of, the lexer reads it to its end and no statement is refused. The
commands it answers have a major word, no empty minor words and finite numbers, and their line
numbers increase.
-/

namespace Toolpath

namespace Parameter

theorem isFinite_number? {t : Text} {x : Float} (h : number? t = some x) :
    Number.isFinite x = true := by
  unfold number? plainNumber? at h
  split_ifs at h
  apply Number.isFinite_read (t := t.map fun b => if b = Text.comma then Text.point else b)
  generalize Number.read _ = r at h ⊢
  cases r with
  | ok y => exact congrArg Except.ok (Option.some.inj h)
  | error e => cases h

def Proper : Parameter → Prop
  | minor word => word ≠ []
  | number value => Number.isFinite value = true
  | string _ => True

theorem classifyBy_proper {t : Text} (ht : t ≠ []) : (classifyBy number? t).Proper := by
  unfold classifyBy
  split
  next => trivial
  next =>
    split
    next => trivial
    next =>
      cases h : number? t with
      | some x => exact isFinite_number? h
      | none => exact Text.lower_ne_nil ht

theorem listBy_proper (t : Text) : ∀ p ∈ listBy number? t, p.Proper := by
  intro p hp
  obtain ⟨part, hpart, rfl⟩ := List.mem_map.mp hp
  apply classifyBy_proper
  simpa using (List.mem_filter.mp hpart).2

end Parameter

namespace Command

structure Proper (c : Command) : Prop where
  major : c.major ≠ []
  minor : ∀ w ∈ c.minor, w ≠ []
  numeric : ∀ x ∈ c.numeric, Number.isFinite x = true

theorem withParameters_proper {major : Text} (hmajor : major ≠ []) (params : Text)
    (line : Int64) : (withParameters major params line).Proper where
  major := hmajor
  minor := by
    intro w hw
    obtain ⟨p, hp, hword⟩ := List.mem_filterMap.mp hw
    have hproper := Parameter.listBy_proper params p hp
    cases p <;> simp only [Parameter.minor?, Option.some.injEq, reduceCtorEq] at hword
    exact hword ▸ hproper
  numeric := by
    intro x hx
    obtain ⟨p, hp, hvalue⟩ := List.mem_filterMap.mp hx
    have hproper := Parameter.listBy_proper params p hp
    cases p <;> simp only [Parameter.value?, Option.some.injEq, reduceCtorEq] at hvalue
    exact hvalue ▸ hproper

end Command

namespace Statement

theorem command_proper (first : Int64) (s : Statement) : (s.command first).Proper := by
  unfold command
  split
  · exact Command.withParameters_proper (by decide) _ _
  · exact Command.withParameters_proper (Command.sides_ne_nil _) _ _

variable {ks : List LineKind}

theorem assemble_bounds {pending : Text} {i : Nat} (hi : i = 0 → pending = []) :
    ∀ s ∈ assemble pending i ks, (if pending = [] then i else i - 1) ≤ s.last ∧
      s.last < i + ks.length := by
  induction ks generalizing pending i with
  | nil =>
    intro s hs
    unfold assemble at hs
    split_ifs at hs with htrim
    · cases hs
    · obtain rfl := List.mem_singleton.mp hs
      have hpending : pending ≠ [] := by
        rintro rfl
        exact htrim rfl
      have : i ≠ 0 := fun h0 => hpending (hi h0)
      rw [if_neg hpending]
      exact ⟨le_rfl, by simp only [List.length_nil]; omega⟩
  | cons k ks ih =>
    intro s hs
    rw [List.length_cons]
    cases k with
    | blank =>
      have hbounds := ih (by simp) s hs
      split_ifs at hbounds ⊢ <;> omega
    | joined body =>
      have hbounds := ih (by simp) s hs
      rw [if_neg (by simp)] at hbounds
      split_ifs <;> omega
    | complete body =>
      obtain rfl | hs := List.mem_cons.mp hs
      · dsimp only
        split_ifs <;> omega
      · have hbounds := ih (by simp) s hs
        rw [if_pos rfl] at hbounds
        split_ifs <;> omega

theorem assemble_sorted {pending : Text} {i : Nat} :
    (assemble pending i ks).Pairwise (·.last < ·.last) := by
  induction ks generalizing pending i with
  | nil =>
    unfold assemble
    split_ifs
    · exact .nil
    · exact List.pairwise_singleton ..
  | cons k ks ih =>
    cases k with
    | blank => exact ih
    | joined body => exact ih
    | complete body =>
      refine List.pairwise_cons.mpr ⟨fun s hs => ?_, ih⟩
      have hbounds := assemble_bounds (fun _ => rfl) s hs
      rw [if_pos rfl] at hbounds
      exact hbounds.1

theorem assemble_complete (pending : Text) (i : Nat) {body : Text} {j : Nat}
    (h : ks[j]? = some (.complete body)) : ∃ s ∈ assemble pending i ks, s.last = i + j := by
  induction ks generalizing pending i j with
  | nil => cases h
  | cons k ks ih =>
    cases j with
    | zero =>
      obtain rfl := Option.some.inj h
      exact ⟨_, List.mem_cons_self .., rfl⟩
    | succ j =>
      have hnext : ∀ pending, ∃ s ∈ assemble pending (i + 1) ks, s.last = i + (j + 1) := by
        intro pending
        obtain ⟨s, hs, hlast⟩ := ih pending (i + 1) h
        exact ⟨s, hs, by omega⟩
      cases k with
      | blank => exact hnext _
      | joined body => exact hnext _
      | complete body =>
        obtain ⟨s, hs, hlast⟩ := hnext []
        exact ⟨s, List.mem_cons_of_mem _ hs, hlast⟩

end Statement

theorem toInt_line {first : Int64} {k : Nat} (h : first.toInt + k < 2 ^ 63) :
    (first + Int64.ofNat k).toInt = first.toInt + k := by
  have hlow := first.le_toInt
  have hsize : Int64.size = 2 ^ 64 := rfl
  rw [Int64.toInt_add, Int64.toInt_ofNat', Int.add_bmod_bmod]
  exact Int.bmod_eq_of_le (by omega) (by omega)

/-- The lexer reads every text to its end. Its commands are proper, their
numbers increase along the physical lines, and each line that completes a
statement has its command. -/
theorem every_text_accepted (source : Text) (first : Int64)
    (hlines : first.toInt + (Layout.physicalLines source).length ≤ 2 ^ 63) :
    (Command.parseAll source first).2 = none ∧
      (Lexer.ofText source first).all.2.2.finished = true ∧
      (∀ c ∈ (Command.parseAll source first).1, c.Proper ∧ first ≤ c.line ∧
        c.line.toInt < first.toInt + (Layout.physicalLines source).length) ∧
      (Command.parseAll source first).1.Pairwise (·.line < ·.line) ∧
      ∀ i body, (Layout.kindsFrom 0 (Layout.physicalLines source))[i]? = some (.complete body) →
        ∃ c ∈ (Command.parseAll source first).1, c.line = first + Int64.ofNat i := by
  have hlow := first.le_toInt
  have hcount : (Layout.kindsFrom 0 (Layout.physicalLines source)).length =
      (Layout.physicalLines source).length := by
    cases Layout.physicalLines source <;> simp [Layout.kindsFrom, Layout.unmarked]
  obtain ⟨l, hfinished, hall⟩ := Lexer.all_eq source first (.inl (by omega))
  rw [Command.parseAll, hall]
  have hlast : ∀ s ∈ Layout.statements source, s.last < (Layout.physicalLines source).length := by
    intro s hs
    have hbounds := Statement.assemble_bounds (fun _ => rfl) s hs
    omega
  have hline : ∀ s ∈ Layout.statements source,
      (s.command first).line.toInt = first.toInt + s.last := by
    intro s hs
    have := hlast s hs
    rw [Statement.command_line, toInt_line (by omega)]
  refine ⟨rfl, hfinished, fun c hc => ?_, ?_, fun i body hi => ?_⟩
  · obtain ⟨s, hs, rfl⟩ := List.mem_map.mp hc
    have := hlast s hs
    refine ⟨s.command_proper first, Int64.le_iff_toInt_le.mpr ?_, ?_⟩
    · rw [hline s hs]
      omega
    · rw [hline s hs]
      omega
  · rw [List.pairwise_map]
    refine Statement.assemble_sorted.imp_of_mem fun {s t} hs ht hlt => ?_
    rw [Int64.lt_iff_toInt_lt, hline s hs, hline t ht]
    omega
  · obtain ⟨s, hs, hi⟩ := Statement.assemble_complete [] 0 hi
    refine ⟨s.command first, List.mem_map_of_mem hs, ?_⟩
    rw [Statement.command_line, hi, Nat.zero_add]

/-- Stray octets, a number out of range, and an end where a statement was to go on. -/
theorem every_text_accepted_dangling :
    let source := Text.ofString "FEDRAT/1e999,12\n\nGOTO/1 $\n" ++ [0xFF, Text.dollar]
    (5 : Int64).toInt + (Layout.physicalLines source).length ≤ 2 ^ 63 ∧
      (Command.parseAll source 5).1.map (·.line) = [5, 8] ∧
      (Command.parseAll source 5).2 = none ∧ ∀ c ∈ (Command.parseAll source 5).1, c.Proper := by
  have hlines : (5 : Int64).toInt + (Layout.physicalLines (Text.ofString
      "FEDRAT/1e999,12\n\nGOTO/1 $\n" ++ [0xFF, Text.dollar])).length ≤ 2 ^ 63 := by decide
  have h := every_text_accepted _ 5 hlines
  exact ⟨hlines, by decide +kernel, h.1, fun c hc => (h.2.2.1 c hc).1⟩

end Toolpath
