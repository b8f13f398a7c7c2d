import Toolpath.Proofs.SelfDelimiting

/-!
# What a reader of items answers

A reader puts an item together from items that it has read, so a property of
these is a property of it once each way to put items together keeps it. No
array that is read is longer than the limit, however its length is told.
-/

namespace Toolpath.Cbor

variable {α β : Type} {P Q : Item → Prop} {read : ItemReader}

def Yields (P : α → Prop) (read : Reader α) : Prop := ∀ t a rest, read t = .ok (a, rest) → P a

theorem yields_error {P : α → Prop} (e : Fault) : Yields P fun _ => .error e :=
  fun _ _ _ h => by cases h

theorem yields_answer {P : α → Prop} {a : α} (h : P a) : Yields P fun t => .ok (a, t) := by
  rintro t _ _ ⟨⟩
  exact h

theorem yields_ite {P : α → Prop} {c : Prop} [Decidable c] {read read' : Reader α}
    (h : Yields P read) (h' : Yields P read') :
    Yields P fun t => if c then read t else read' t := by
  intro t a rest ht
  dsimp only at ht
  split at ht
  · exact h t a rest ht
  · exact h' t a rest ht

theorem Yields.map {P : α → Prop} {R : β → Prop} {read : Reader α} (h : Yields P read)
    (f : α → β) (hf : ∀ a, P a → R (f a)) :
    Yields R fun t => (read t).map fun (a, t) => (f a, t) := by
  intro t b rest ht
  dsimp only at ht
  cases hread : read t with
  | error e =>
    rw [hread] at ht
    cases ht
  | ok answer =>
    rw [hread] at ht
    cases ht
    exact hf _ (h t _ _ hread)

def Item.parts : Item → List Item
  | .array items => items
  | .map items => items
  | .tagged _ content => [content]
  | _ => []

theorem yields_readMany (h : Yields Q read) {n : Nat} {acc : List Item} (hacc : ∀ x ∈ acc, Q x) :
    Yields (fun items => items.length = acc.length + n ∧ ∀ x ∈ items, Q x)
      (readMany read n acc) := by
  intro t items rest ht
  induction n generalizing acc t with
  | zero =>
    cases ht
    simpa using hacc
  | succ n ih =>
    rw [readMany] at ht
    split at ht
    · cases ht
    next x t' hx =>
      have hmore : ∀ y ∈ x :: acc, Q y := List.forall_mem_cons.mpr ⟨h _ _ _ hx, hacc⟩
      obtain ⟨hlength, hitems⟩ := ih hmore t' ht
      refine ⟨?_, hitems⟩
      rw [hlength, List.length_cons]
      omega

theorem yields_readOpen (h : Yields Q read) {check : Nat → Option Fault} (hcheck : check 0 = none) :
    Yields (fun items => check items.length = none ∧ ∀ x ∈ items, Q x)
      fun t => readOpen read check (t.length + 1) 0 [] t := by
  have hrun : ∀ (fuel : Nat) (acc : List Item), check acc.length = none → (∀ x ∈ acc, Q x) →
      Yields (fun items => check items.length = none ∧ ∀ x ∈ items, Q x)
        (readOpen read check fuel acc.length acc) := by
    intro fuel
    induction fuel with
    | zero => exact fun acc _ _ => yields_error _
    | succ fuel ih =>
      intro acc hlength hacc t items rest ht
      cases t with
      | nil => cases ht
      | cons b t =>
        rw [readOpen] at ht
        split at ht
        · cases ht
          simpa using ⟨hlength, hacc⟩
        · split at ht
          · cases ht
          next x t' hx =>
            split at ht
            · cases ht
            next hnext =>
              exact ih (x :: acc) hnext (List.forall_mem_cons.mpr ⟨h _ _ _ hx, hacc⟩) _ _ _ ht
  intro t
  exact hrun _ [] hcheck (by simp) t

/-- A property of items that those have which are put together, within the limits, from items with
another property. -/
structure Builds (Q P : Item → Prop) : Prop where
  atom : ∀ x, x.parts = [] → P x
  array : ∀ items, items.length ≤ itemLimit → (∀ x ∈ items, Q x) → P (.array items)
  map : ∀ items, (∀ x ∈ items, Q x) → P (.map items)

theorem yields_readArray (hP : Builds Q P) (h : Yields Q read) (head : Head) :
    Yields P (readArray read head) := by
  refine Yields.map (P := fun items => items.length ≤ itemLimit ∧ ∀ x ∈ items, Q x) ?_ Item.array
    fun items h => hP.array items h.1 h.2
  refine yields_ite (fun t items rest ht => ?_) ?_
  · obtain ⟨hlimit, hitems⟩ := yields_readOpen h rfl t items rest ht
    refine ⟨Nat.not_lt.mp fun hlong => ?_, hitems⟩
    simp [arrayFault, hlong] at hlimit
  · refine yields_ite (yields_error _) fun t items rest ht => ?_
    split at ht
    · cases ht
    next hlimit =>
      obtain ⟨hlength, hitems⟩ := yields_readMany h (by simp) t items rest ht
      exact ⟨by simpa [hlength] using hlimit, hitems⟩

theorem yields_readMap (hP : Builds Q P) (h : Yields Q read) (head : Head) :
    Yields P (readMap read head) := by
  refine yields_ite (fun t x rest ht => ?_) ?_
  · split at ht
    · cases ht
    next items t' hitems =>
      split at ht
      · cases ht
      · cases ht
        exact hP.map items (yields_readOpen h rfl _ _ _ hitems).2
  · refine yields_ite (yields_error _) (yields_ite (yields_error _) ?_)
    exact (yields_readMany h (by simp)).map Item.map fun items h => hP.map items h.2

theorem yields_readContent (hP : Builds Q P) {read : Nat → ItemReader} (h : ∀ l, Yields Q (read l))
    (levels : Nat) (head : Head) : Yields P (readContent read levels head) := by
  have hany : ∀ {γ : Type} (items : Reader γ), Yields (fun _ => True) items :=
    fun _ _ _ _ _ => trivial
  unfold readContent
  split
  · exact yields_answer (hP.atom _ rfl)
  · exact yields_answer (hP.atom _ rfl)
  · exact yields_ite
      ((hany _).map (fun chunks : List Text => .bytes chunks.flatten) fun _ _ => hP.atom _ rfl)
      ((hany _).map .bytes fun _ _ => hP.atom _ rfl)
  · exact yields_ite ((hany _).map .text fun _ _ => hP.atom _ rfl)
      ((hany _).map (fun s => .text [s]) fun _ _ => hP.atom _ rfl)
  · cases levels with
    | zero => exact yields_error _
    | succ l => exact yields_readArray hP (h l) head
  · cases levels with
    | zero => exact yields_error _
    | succ l => exact yields_readMap hP (h l) head
  · refine yields_answer (hP.atom _ ?_)
    unfold readFloat
    split
    · rfl
    · split
      · rfl
      · split <;> rfl

inductive Item.Limited : Item → Prop
  | mk {x : Item} (limit : ∀ items, x = .array items → items.length ≤ itemLimit)
      (parts : ∀ y ∈ x.parts, Limited y) : Limited x

theorem Item.Limited.parts {x : Item} : x.Limited → ∀ y ∈ x.parts, y.Limited
  | mk _ h => h

theorem Item.Limited.limit {items : List Item} :
    (Item.array items).Limited → items.length ≤ itemLimit
  | mk h _ => h items rfl

theorem builds_limited : Builds Item.Limited Item.Limited where
  atom x hx := ⟨fun items h => by subst h; simp [show items = [] from hx], by simp [hx]⟩
  array items hn h := ⟨fun _ heq => Item.array.inj heq ▸ hn, h⟩
  map items h := ⟨fun _ heq => (by cases heq), h⟩

theorem limited_foldr {x : Item} (h : x.Limited) (ns : List Nat) :
    (ns.foldr Item.tagged x).Limited := by
  induction ns with
  | nil => exact h
  | cons n ns ih => exact ⟨fun _ heq => (by cases heq), by simpa [Item.parts] using ih⟩

theorem readItem_cases {steps levels : Nat} {t rest : Text} {x : Item}
    (h : readItem (steps + 1) levels t = .ok (x, rest)) :
    ∃ head t', Head.read t = .ok (head, t') ∧
      (head.kind ≠ 6 ∧ readContent (readItem steps) levels head t' = .ok (x, rest) ∨
        head.kind = 6 ∧ ∃ ns l u inner u' y, readTags levels t' = .ok (ns, l, u) ∧
          Head.read u = .ok (inner, u') ∧
          readContent (readItem steps) l inner u' = .ok (y, rest) ∧
          x = .tagged head.argument (ns.foldr Item.tagged y)) := by
  rw [readItem] at h
  dsimp only at h
  split at h
  · cases h
  next head t' hhead =>
    refine ⟨head, t', hhead, ?_⟩
    split at h
    next hkind =>
      split at h
      · cases h
      next ns l u htags =>
        split at h
        · cases h
        next inner u' hinner =>
          cases hcontent : readContent (readItem steps) l inner u' with
          | error e =>
            rw [hcontent] at h
            cases h
          | ok answer =>
            rw [hcontent] at h
            cases h
            exact .inr ⟨hkind, ns, l, u, inner, u', _, htags, hinner, hcontent, rfl⟩
    next hkind => exact .inl ⟨hkind, h⟩

theorem readItem_limited (steps levels : Nat) : Yields Item.Limited (readItem steps levels) := by
  induction steps generalizing levels with
  | zero => exact yields_error _
  | succ steps ih =>
    intro t x rest h
    obtain ⟨head, t', -, ⟨-, hcontent⟩ | ⟨-, ns, l, u, inner, u', y, -, -, hcontent, rfl⟩⟩ :=
      readItem_cases h
    · exact yields_readContent builds_limited ih _ _ _ _ _ hcontent
    · exact limited_foldr (yields_readContent builds_limited ih _ _ _ _ _ hcontent)
        (head.argument :: ns)

end Toolpath.Cbor
