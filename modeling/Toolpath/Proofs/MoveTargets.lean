import Toolpath.Proofs.MotionPaths
import Toolpath.Proofs.SuppressedWords

/-!
# Where a move goes

A move sets one register after the other, each under a name of its own, and a coordinate that
it leaves out keeps its value. A register that is set to what it holds stays as it is, so the
second of two equal moves sets its registers for nothing, as far as they can be set at all.
-/

namespace Toolpath

theorem Numeric.not_differs_self {x : Float} (hx : Number.isFinite x = true) :
    differs x x = false := by
  apply not_differs_of_le hx hx
  rw [sub_self, abs_zero]
  positivity

theorem Registers.find?_congr {rs : Registers} {a b : Text} (h : normalName b = normalName a) :
    rs.find? b = rs.find? a := by
  rw [find?, find?, position?, position?, h]

namespace Machine

open Registers (normalName)

variable {S : Machine → Deed → Prop} {β : Type} {p : Profile} {m m' : Machine} {d : Deed}
  {c : Command} {r s : Text} {x : Float} {ts : List (Text × Float)}

structure Equipped (m : Machine) : Prop where
  indexed : m.rack.registers.Indexed
  has : ∀ r ∈ trackedNames, m.rack.registers.Has r
  tracked : m.writer.tracked = trackedNames.map .register
  modal : ∀ r ∈ trackedNames, m.isModal r = true

theorem Does.equipped (h : Does d m m') (hm : Equipped m) : Equipped m' where
  indexed := h.indexed hm.indexed
  has := fun r hr => h.has hm.indexed (hm.has r hr)
  tracked := h.alike.tracked.trans hm.tracked
  modal := fun r hr => (h.isModal hm.indexed).trans (hm.modal r hr)

theorem Course.equipped (h : Course S m m') : Equipped m → Equipped m' :=
  h.invariant fun _ _ _ _ hab => hab.equipped

theorem Opens.equipped (h : Opens p m) (hmodal : ∀ r ∈ trackedNames, m.isModal r = true) :
    Equipped m :=
  ⟨h.ready.fit.sound.indexed, h.ready.fit.has, h.ready.fit.tracked, hmodal⟩

theorem Leads.equipped {steps : List (Command × Machine)} (h : Leads m steps) (hm : Equipped m) :
    Equipped (final m steps) :=
  h.kept (fun _ _ _ ha hab => hab.course.equipped ha) hm

theorem does_holding (hr : m.rack.registers.Has r) (x : Float) :
    Does (.hold r x) m (m.holding r x) := by
  obtain ⟨n, hn⟩ := hr
  rw [holding, ← Registers.modify_const hn, ← Rack.set_register]
  exact .hold m r x n hn

theorem setRegister_finite (m : Machine) (r : Text) (hx : Number.isFinite x = true) :
    (setRegister r x).run m = .ok () (m.holding r x) := by
  rw [setRegister_run, holding]
  cases hn : m.rack.registers.find? r with
  | none => rw [Registers.modify_missing hn]
  | some n =>
    dsimp only
    rw [if_pos hx, Rack.set_register, Registers.modify_const (f := (·.hold x)) hn]

theorem setRegister_infinite (hr : m.rack.registers.Has r) (hx : Number.isFinite x = false) :
    ∃ e, (setRegister r x).run m = .error e m := by
  obtain ⟨n, hn⟩ := hr
  rw [setRegister_run, hn]
  exact ⟨.violation (.notFinite n.address x), if_neg (by simp [hx])⟩

theorem find?_holding_other (hi : m.rack.registers.Indexed) (h : normalName s ≠ normalName r)
    (x : Float) :
    (m.holding r x).rack.registers.find? s = m.rack.registers.find? s :=
  Registers.find?_modify_other hi h

theorem value_congr (h : normalName s = normalName r) : m.value s = m.value r := by
  rw [value, value, Registers.find?_congr h]

theorem flagged_congr (h : normalName s = normalName r) : m.flagged s = m.flagged r := by
  rw [flagged, flagged, Registers.find?_congr h]

def SameWords (m m' : Machine) : Prop := ∀ r, m'.value r = m.value r ∧ m'.flagged r = m.flagged r

theorem holding_sameWords (hi : m.rack.registers.Indexed) (hr : m.rack.registers.Has r)
    (hx : Number.isFinite x = true) (h : m.value r = x) : SameWords m (m.holding r x) := by
  intro s
  by_cases hs : normalName s = normalName r
  · have hheld := (does_holding hr x).held
    rw [value_congr hs, value_congr hs, flagged_congr hs, flagged_congr hs, hheld.value,
      hheld.flagged, h, Numeric.not_differs_self hx, Bool.or_false]
    exact ⟨rfl, rfl⟩
  · rw [value, value, flagged, flagged, find?_holding_other hi hs]
    exact ⟨rfl, rfl⟩

def assign : List (Text × Float) → Action Unit
  | [] => pure ()
  | (r, x) :: ts => do
    setRegister r x
    assign ts

def assigned (m : Machine) : List (Text × Float) → Machine
  | [] => m
  | (r, x) :: ts => if Number.isFinite x then (m.holding r x).assigned ts else m

theorem assigned_cons (hx : Number.isFinite x = true) :
    m.assigned ((r, x) :: ts) = (m.holding r x).assigned ts :=
  if_pos hx

theorem Equipped.holding (hm : Equipped m) (hr : r ∈ trackedNames) (x : Float) :
    Equipped (m.holding r x) :=
  (does_holding (hm.has r hr) x).equipped hm

theorem Equipped.assigned (hm : Equipped m) (hts : ∀ t ∈ ts, t.1 ∈ trackedNames) :
    Equipped (m.assigned ts) := by
  induction ts generalizing m with
  | nil => exact hm
  | cons t ts ih =>
    unfold Machine.assigned
    split
    · exact ih (hm.holding (hts t List.mem_cons_self) _) fun t ht =>
        hts t (List.mem_cons_of_mem _ ht)
    · exact hm

theorem assigned_eq (m : Machine) (ts : List (Text × Float)) :
    m.assigned ts = { m with rack := (m.assigned ts).rack } := by
  induction ts generalizing m with
  | nil => rfl
  | cons t ts ih =>
    unfold assigned
    split
    · exact ih _
    · rfl

theorem assign_finite (m : Machine) (hts : ∀ t ∈ ts, Number.isFinite t.2 = true) :
    (assign ts).run m = .ok () (m.assigned ts) := by
  induction ts generalizing m with
  | nil => rfl
  | cons t ts ih =>
    have hx := hts t List.mem_cons_self
    rw [assign, EStateM.run_bind, setRegister_finite m t.1 hx, assigned_cons hx]
    exact ih _ fun t ht => hts t (List.mem_cons_of_mem _ ht)

theorem assign_infinite (hm : Equipped m) (hnames : ∀ t ∈ ts, t.1 ∈ trackedNames)
    (hts : ¬ ∀ t ∈ ts, Number.isFinite t.2 = true) :
    ∃ e, (assign ts).run m = .error e (m.assigned ts) := by
  induction ts generalizing m with
  | nil => exact absurd (fun _ h => nomatch h) hts
  | cons t ts ih =>
    have hr := hnames t List.mem_cons_self
    rw [assign, EStateM.run_bind]
    cases hx : Number.isFinite t.2 with
    | true =>
      rw [setRegister_finite m t.1 hx, assigned_cons hx]
      refine ih (hm.holding hr _) (fun t ht => hnames t (List.mem_cons_of_mem _ ht))
        fun hrest => hts ?_
      exact List.forall_mem_cons.mpr ⟨hx, hrest⟩
    | false =>
      obtain ⟨e, he⟩ := setRegister_infinite (hm.has t.1 hr) hx
      rw [he]
      exact ⟨e, by rw [assigned, if_neg (by simp [hx])]⟩

/-- The registers hold these values, up to the first one that is not finite. -/
def Stands (m : Machine) : List (Text × Float) → Prop
  | [] => True
  | (r, x) :: ts => Number.isFinite x = true → m.value r = x ∧ m.Stands ts

theorem Stands.congr (h : ∀ r, m'.value r = m.value r) (hm : m.Stands ts) : m'.Stands ts := by
  induction ts with
  | nil => trivial
  | cons t ts ih =>
    intro hx
    obtain ⟨hvalue, hrest⟩ := hm hx
    exact ⟨(h t.1).trans hvalue, ih hrest⟩

theorem value_assigned (hm : Equipped m) (hnames : ∀ t ∈ ts, t.1 ∈ trackedNames)
    (hs : ∀ t ∈ ts, normalName s = normalName t.1 → t.2 = m.value s) :
    (m.assigned ts).value s = m.value s := by
  induction ts generalizing m with
  | nil => rfl
  | cons t ts ih =>
    have hr := hnames t List.mem_cons_self
    have hvalue : (m.holding t.1 t.2).value s = m.value s := by
      by_cases hsame : normalName s = normalName t.1
      · rw [value_congr hsame, (does_holding (hm.has t.1 hr) t.2).held.value,
          hs t List.mem_cons_self hsame]
      · rw [value, value, find?_holding_other hm.indexed hsame]
    unfold assigned
    split
    · rw [ih (hm.holding hr t.2) (fun t ht => hnames t (List.mem_cons_of_mem _ ht)), hvalue]
      intro u hu hsame
      rw [hvalue]
      exact hs u (List.mem_cons_of_mem _ hu) hsame
    · rfl

theorem assigned_stands (hm : Equipped m) (hnames : ∀ t ∈ ts, t.1 ∈ trackedNames)
    (hapart : (ts.map fun t => normalName t.1).Nodup) : (m.assigned ts).Stands ts := by
  induction ts generalizing m with
  | nil => trivial
  | cons t ts ih =>
    have hr := hnames t List.mem_cons_self
    have hrest : ∀ t ∈ ts, t.1 ∈ trackedNames := fun t ht => hnames t (List.mem_cons_of_mem _ ht)
    obtain ⟨hfirst, hlater⟩ := List.nodup_cons.mp hapart
    have hother : ∀ u ∈ ts, normalName t.1 ≠ normalName u.1 :=
      fun u hu hsame => hfirst (List.mem_map.mpr ⟨u, hu, hsame.symm⟩)
    intro hx
    have hm' := hm.holding hr t.2
    rw [assigned_cons hx]
    refine ⟨?_, ih hm' hrest hlater⟩
    rw [value_assigned (s := t.1) hm' hrest fun u hu hsame => absurd hsame (hother u hu)]
    exact (does_holding (hm.has t.1 hr) t.2).held.value

theorem SameWords.trans {m'' : Machine} (h : SameWords m m') (h' : SameWords m' m'') :
    SameWords m m'' :=
  fun r => ⟨(h' r).1.trans (h r).1, (h' r).2.trans (h r).2⟩

theorem Stands.assigned (hm : Equipped m) (hnames : ∀ t ∈ ts, t.1 ∈ trackedNames)
    (h : m.Stands ts) :
    SameWords m (m.assigned ts) := by
  induction ts generalizing m with
  | nil => exact fun _ => ⟨rfl, rfl⟩
  | cons t ts ih =>
    have hr := hnames t List.mem_cons_self
    unfold Machine.assigned
    split
    case isTrue hx =>
      obtain ⟨hvalue, hrest⟩ := h hx
      have hsame := holding_sameWords hm.indexed (hm.has t.1 hr) hx hvalue
      exact hsame.trans (ih (hm.holding hr t.2) (fun t ht => hnames t (List.mem_cons_of_mem _ ht))
        (hrest.congr fun r => (hsame r).1))
    case isFalse => exact fun _ => ⟨rfl, rfl⟩

def rotaryNames : List Text := ["A", "B"]

def targets (m : Machine) (c : Command) : List (Text × Float) :=
  ("X", (m.target c).x) :: ("Y", (m.target c).y) :: ("Z", (m.target c).z) ::
    rotaryNames.zip (m.axisAngles c)

def targetNames : List Text := "X" :: "Y" :: "Z" :: rotaryNames

theorem targets_names (m : Machine) (c : Command) : (m.targets c).map Prod.fst <+: targetNames := by
  unfold targets axisAngles
  split
  · exact List.prefix_rfl
  · exact ⟨rotaryNames, rfl⟩

theorem targets_tracked (m : Machine) (c : Command) : ∀ t ∈ m.targets c, t.1 ∈ trackedNames := by
  intro t ht
  have hname : t.1 ∈ targetNames := (m.targets_names c).subset (List.mem_map_of_mem ht)
  exact (by decide : ∀ r ∈ targetNames, r ∈ trackedNames) t.1 hname

theorem targets_apart (m : Machine) (c : Command) :
    ((m.targets c).map fun t => normalName t.1).Nodup := by
  have hnames : (targetNames.map normalName).Nodup := by decide +kernel
  have htargets := hnames.sublist ((m.targets_names c).sublist.map normalName)
  rw [List.map_map] at htargets
  exact htargets

theorem setRegister_bind_congr {f g : Unit → Action β}
    (h : (f ()).run (m.holding r x) = (g ()).run (m.holding r x)) :
    (setRegister r x >>= f).run m = (setRegister r x >>= g).run m := by
  rw [EStateM.run_bind, EStateM.run_bind]
  by_cases hx : Number.isFinite x = true
  · rw [setRegister_finite m r hx]
    exact h
  · rw [setRegister_run]
    cases hn : m.rack.registers.find? r with
    | none =>
      rw [holding, Registers.modify_missing hn] at h
      exact h
    | some n =>
      dsimp only
      rw [if_neg hx]

theorem value_holding_other (hi : m.rack.registers.Indexed) (h : normalName s ≠ normalName r)
    (x : Float) :
    (m.holding r x).value s = m.value s := by
  rw [value, value, find?_holding_other hi h]

theorem setToolAxis_run (m : Machine) (c : Command) :
    (setToolAxis c).run m = (assign (rotaryNames.zip (m.axisAngles c))).run m := by
  rw [setToolAxis, EStateM.run_bind, EStateM.run_get, axisAngles]
  dsimp only
  cases m.vars.flag Variable.multiAxis false with
  | false => rfl
  | true =>
    obtain _ | ⟨x, _ | ⟨y, _ | ⟨z, _ | ⟨i, _ | ⟨j, _ | ⟨k, rest⟩⟩⟩⟩⟩⟩ := c.numeric
    all_goals try rfl
    simp only [rotaryNames, List.zip_cons_cons, List.zip_nil_left, assign, bind_pure_unit]

theorem normalName_coordinates : normalName "Y" ≠ normalName "X" ∧ normalName "Z" ≠ normalName "X" ∧
    normalName "Z" ≠ normalName "Y" := by decide +kernel

def travel (start : Point) : Action Unit := do
  queueMotion start
  writeBlock
  callRepeated

theorem moveTo_run (hm : Equipped m) (hne : c.numeric.isEmpty = false) :
    (moveTo c).run m = (do
      assign (m.targets c)
      travel m.position : Action Unit).run m := by
  obtain ⟨hyx, hzx, hzy⟩ := normalName_coordinates
  have hx (x : Float) := hm.holding (r := "X") (by decide) x
  rw [moveTo, hne, if_neg Bool.false_ne_true, EStateM.run_bind, EStateM.run_get]
  simp only [setCoordinates, targets, target, assign, bind_assoc]
  rw [EStateM.run_bind, EStateM.run_get]
  apply setRegister_bind_congr
  rw [EStateM.run_bind, EStateM.run_get]
  dsimp only
  rw [value_holding_other hm.indexed hyx]
  apply setRegister_bind_congr
  rw [EStateM.run_bind, EStateM.run_get]
  dsimp only
  rw [value_holding_other (hx _).indexed hzy, value_holding_other hm.indexed hzx]
  apply setRegister_bind_congr
  rw [EStateM.run_bind, EStateM.run_bind, setToolAxis_run]
  rfl

theorem targets_again (hm : Equipped m)
    (hvalue : ∀ r, m'.value r = (m.assigned (m.targets c)).value r)
    (hvars : m'.vars.flag Variable.multiAxis false = m.vars.flag Variable.multiAxis false) :
    m'.targets c = m.targets c := by
  have hcoordinate {i : Nat} {r : Text} (ht : (r, c.number i (m.value r)) ∈ m.targets c) :
      c.number i (m'.value r) = c.number i (m.value r) := by
    have hnumber (x : Float) : c.number i x = c.numeric[i]?.getD x := List.getD_eq_getElem?_getD ..
    cases hi : c.numeric[i]? with
    | some y => rw [hnumber, hnumber, hi, Option.getD_some, Option.getD_some]
    | none =>
      have hdefault (x : Float) : c.number i x = x := by rw [hnumber, hi, Option.getD_none]
      rw [hdefault, hdefault, hvalue]
      refine value_assigned hm (m.targets_tracked c) fun t ht' hsame => ?_
      -- The register has this one target, which is the value that it holds.
      rw [← List.inj_on_of_nodup_map (m.targets_apart c) ht ht' hsame]
      exact hdefault _
  have hangles : m'.axisAngles c = m.axisAngles c := by rw [axisAngles, axisAngles, hvars]
  have hx := hcoordinate (i := 0) (r := "X") (.head _)
  have hy := hcoordinate (i := 1) (r := "Y") (.tail _ (.head _))
  have hz := hcoordinate (i := 2) (r := "Z") (.tail _ (.tail _ (.head _)))
  rw [targets, targets, target, target, hx, hy, hz, hangles]

end Machine
end Toolpath
