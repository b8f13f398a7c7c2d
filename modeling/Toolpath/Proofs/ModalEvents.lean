import Mathlib.Data.List.ReduceOption
import Toolpath.Proofs.BlockWords

/-!
# Events of a modal group

`Tells g m es m'` lists what happens to the group `g` from one machine to another: `some k` where
the code `k` is queued, `none` where the active code is forgotten. In the list a code never
follows itself directly. Of all groups only those of cycles and motions are forgotten.
-/

namespace Toolpath

def Queued.codeFor? (g : ModalGroup) : Queued → Option Text
  | .code c => if c.group = some g.name then some c.text else none
  | _ => none

theorem Queued.codeFor?_eq_none {g : ModalGroup} {q : Queued} (h : q.group? = none) :
    q.codeFor? g = none := by
  cases q with
  | code c =>
    have hgroup : c.group = none := h
    simp [codeFor?, hgroup]
  | _ => rfl

/-- The events lead from one active code to another: each code differs from the one
that it replaces. -/
inductive Turnover : Text → List (Option Text) → Text → Prop
  | nil (t : Text) : Turnover t [] t
  | forget {t t' : Text} {es : List (Option Text)} (h : Turnover [] es t') :
    Turnover t (none :: es) t'
  | select {t k t' : Text} {es : List (Option Text)} (hne : k ≠ t) (h : Turnover k es t') :
      Turnover t (some k :: es) t'

namespace Turnover

variable {t t' t'' : Text} {es es' : List (Option Text)} {ks : List Text}

theorem append (h : Turnover t es t') (h' : Turnover t' es' t'') : Turnover t (es ++ es') t'' := by
  induction h with
  | nil => exact h'
  | forget _ ih => exact .forget (ih h')
  | select hne _ ih => exact .select hne (ih h')

theorem last (h : Turnover t es t') : t' = (es.getLast?.map fun e => e.getD []).getD t := by
  induction h with
  | nil => rfl
  | @forget t t' es _ ih =>
    rw [ih, List.getLast?_cons]
    cases es.getLast? <;> rfl
  | @select t k t' es _ _ ih =>
    rw [ih, List.getLast?_cons]
    cases es.getLast? <;> rfl

theorem head (h : Turnover t es t') : some (some t) ≠ es.head? := by
  cases h with
  | nil => simp
  | forget => simp
  | select hne => simpa using hne.symm

theorem apart (h : Turnover t es t') : es.IsChain fun a b => a = b → a = none := by
  induction h with
  | nil => exact .nil
  | forget _ ih => exact List.isChain_cons.mpr ⟨fun _ _ _ => rfl, ih⟩
  | select _ h ih =>
    refine List.isChain_cons.mpr ⟨fun e he heq => ?_, ih⟩
    exact absurd (heq ▸ he.symm) h.head

theorem codes_last (h : Turnover [] (ks.map some) t) : t = ks.getLast?.getD [] := by
  rw [h.last, List.getLast?_map]
  cases ks.getLast? <;> rfl

theorem codes_apart (h : Turnover t (ks.map some) t') : ks.IsChain (· ≠ ·) := by
  refine ((List.isChain_map some).mp h.apart).imp fun a b hab heq => ?_
  exact Option.some_ne_none a (hab (congrArg some heq))

end Turnover

namespace Machine

variable {S : Machine → Deed → Prop} {p : Profile} {g : ModalGroup} {m m' m'' : Machine} {d : Deed}
  {v : Verb} {c : Command} {u : Unit} {es es' : List (Option Text)}

def codes (m : Machine) (g : ModalGroup) : List Text := m.ledger.filterMap (Queued.codeFor? g)

/-- From the first machine to the second, which is sound, these are the events of the
group. -/
structure Tells (g : ModalGroup) (m : Machine) (es : List (Option Text)) (m' : Machine) : Prop where
  sound : Sound m'
  codes : m'.codes g = m.codes g ++ es.reduceOption
  turnover : Turnover (m.active g) es (m'.active g)

theorem Tells.of_same (hm : Sound m') (hcodes : m'.codes g = m.codes g)
    (hactive : m'.active g = m.active g) : Tells g m [] m' :=
  ⟨hm, by rw [hcodes]; exact (List.append_nil _).symm, hactive ▸ .nil _⟩

theorem Tells.refl (hm : Sound m) : Tells g m [] m := .of_same hm rfl rfl

theorem Tells.of_forgotten (hm : Sound m') (hcodes : m'.codes g = m.codes g)
    (hactive : m'.active g = []) : Tells g m [none] m' :=
  ⟨hm, by rw [hcodes]; exact (List.append_nil _).symm, hactive ▸ .forget (.nil _)⟩

theorem Tells.trans (h : Tells g m es m') (h' : Tells g m' es' m'') :
    Tells g m (es ++ es') m'' := by
  refine ⟨h'.sound, ?_, h.turnover.append h'.turnover⟩
  rw [h'.codes, h.codes, List.reduceOption_append, List.append_assoc]

theorem Tells.then_none (h : Tells g m es m') (h' : Tells g m' [] m'') : Tells g m es m'' :=
  List.append_nil es ▸ h.trans h'

theorem Tells.none_then (h : Tells g m [] m') (h' : Tells g m' es m'') : Tells g m es m'' :=
  h.trans h'

theorem Tells.active_eq (h : Tells g m [] m') : m'.active g = m.active g := by
  obtain ⟨-, -, hturnover⟩ := h
  generalize m'.active g = t' at hturnover ⊢
  cases hturnover
  rfl

def Bypasses (g : ModalGroup) : Deed → Prop
  | .select group _ => group ≠ g.name
  | .forget group => group ≠ g.name
  | .queue q => q.Proper ∧ q.group? = none
  | _ => True

theorem Bypasses.orderly (hd : Bypasses g d) : Orderly d := by
  cases d with
  | queue => exact hd.1
  | _ => trivial

theorem codes_queued {q : Queued} (h : m'.writer = m.writer.queue q) :
    m'.codes g = m.codes g ++ (q.codeFor? g).toList := by
  rw [codes, codes, ledger, ledger, h]
  cases hq : q.codeFor? g <;> simp [BlockWriter.queue, hq]

theorem Does.bypasses (h : Does d m m') (hd : Bypasses g d) (hm : Sound m) : Tells g m [] m' := by
  have hsound := h.sound hd.orderly hm
  cases h with
  | select _ group function known =>
    refine .of_same hsound ?_ ?_
    · have hgroup : some group ≠ some g.name := fun h => hd (Option.some.inj h)
      unfold selected at hsound ⊢
      dsimp only
      split
      · rw [codes_queued rfl]
        simp [Queued.codeFor?, hgroup]
      · rfl
    · simp [selected, active, activeNamed, Memo.text, Ne.symm hd]
  | forget _ group =>
    refine .of_same hsound rfl ?_
    simp [active, activeNamed, Memo.text, Ne.symm hd]
  | queue _ q =>
    refine .of_same hsound ?_ rfl
    rw [codes_queued rfl, Queued.codeFor?_eq_none hd.2]
    simp
  | block =>
    refine .of_same hsound ?_ ?_
    · rw [codes, codes, wroteBlock_ledger hm]
    · rw [active, active, activeNamed, activeNamed, wroteBlock_modal]
  | _ => exact .of_same hsound rfl rfl

theorem hasChanged_iff {code : Text} (hne : code ≠ []) :
    m.modal.hasChanged g.name (.text code) = true ↔ code ≠ m.active g := by
  unfold Memo.hasChanged active activeNamed Memo.text
  cases hget : m.modal.get? g.name with
  | none => simpa using hne
  | some v =>
    cases v with
    | text t => simpa [Value.same] using ne_comm
    | _ => simpa [Value.same] using hne

/-- The code that is stated when `code` is to be active in place of `old`. -/
def change (old code : Text) : List Text := if code = old then [] else [code]

theorem selected_tells {function : Text} (known : m.profile.codeNamed function ≠ [])
    (hm : Sound m) :
    Tells g m ((change (m.active g) (m.profile.codeNamed function)).map some)
      (m.selected g.name function) ∧
    (m.selected g.name function).active g = m.profile.codeNamed function := by
  have hsound : Sound (m.selected g.name function) :=
    (Does.select m _ function known).sound trivial hm
  have hactive : (m.selected g.name function).active g = m.profile.codeNamed function := by
    simp [selected, active, activeNamed, Memo.text]
  have hchanged := hasChanged_iff (m := m) (g := g) known
  refine ⟨?_, hactive⟩
  unfold change
  split
  case isTrue hsame =>
    refine .of_same hsound ?_ (hactive.trans hsame)
    have hunchanged : m.modal.hasChanged g.name (.text (m.profile.codeNamed function)) = false := by
      simpa [hsame] using hchanged
    have hwriter : (m.selected g.name function).writer = m.writer := by simp [selected, hunchanged]
    rw [codes, codes, ledger, ledger, hwriter]
  case isFalse hother =>
    have hwriter : (m.selected g.name function).writer = m.writer.queue
        (.code { function, group := some g.name, text := m.profile.codeNamed function }) := by
      simp only [selected, hchanged.mpr hother, if_true]
    refine ⟨hsound, ?_, ?_⟩
    · rw [codes_queued hwriter]
      simp [Queued.codeFor?]
    · rw [hactive]
      exact .select hother (.nil _)

def Recollects (g : ModalGroup) (d : Deed) : Prop :=
  Bypasses g d ∨ ∃ function, d = .select g.name function

theorem Does.recollects (h : Does d m m') (hd : Recollects g d) (hm : Sound m) :
    ∃ ks : List Text, Tells g m (ks.map some) m' := by
  rcases hd with hd | ⟨function, rfl⟩
  · exact ⟨[], h.bypasses hd hm⟩
  · cases h with
    | select _ _ _ known => exact ⟨_, (selected_tells known hm).1⟩

theorem Course.bypasses (hS : ∀ m d, S m d → Bypasses g d) (h : Course S m m') (hm : Sound m) :
    Tells g m [] m' :=
  h.kept (R := fun a b => Sound a → Tells g a [] b) (fun _ ha => .refl ha)
    (fun h h' ha => (h ha).trans (h' (h ha).sound))
      (fun d a _ hd hab ha => hab.bypasses (hS a d hd) ha) hm

theorem Course.recollects (hS : ∀ m d, S m d → Recollects g d) (h : Course S m m') (hm : Sound m) :
    ∃ ks : List Text, Tells g m (ks.map some) m' := by
  refine h.kept (R := fun a b => Sound a → ∃ ks : List Text, Tells g a (ks.map some) b)
    (fun _ ha => ⟨[], .refl ha⟩) (fun h h' ha => ?_)
      (fun d a _ hd hab ha => hab.recollects (hS a d hd) ha) hm
  obtain ⟨ks, hks⟩ := h ha
  obtain ⟨ks', hks'⟩ := h' hks.sound
  exact ⟨ks ++ ks', List.map_append ▸ hks.trans hks'⟩

theorem name_ne {g' : ModalGroup} (h : g ≠ g') : g.name ≠ g'.name := by
  cases g <;> cases g' <;> first | exact absurd rfl h | decide

theorem CallMay.bypasses (h : CallMay p m d) : Bypasses g d := by
  have hproper := h.orderly
  cases h with
  | queue => exact ⟨hproper, rfl⟩
  | _ => trivial

theorem May.ungrouped {q : Queued} (h : Verb.May p m v (.queue q)) : q.group? = none := by
  cases h with
  | move _ h =>
    cases h with
    | call h => exact (h.bypasses (g := .motion)).2
    | travel h =>
      cases h with
      | restate h => cases h
      | adapt h =>
        cases h
        rfl
      | path h => cases h
    | axis h => cases h
  | start _ h =>
    cases h with
    | call h => exact (h.bypasses (g := .motion)).2
    | depth => rfl
  | cancel _ h =>
    cases h
    rfl
  | wrapUp h =>
    cases h
    rfl
  | spindleSetting h => cases h
  | _ => rfl

theorem May.recollects (h : Verb.May p m v d) (hforget : d ≠ .forget g.name) : Recollects g d := by
  cases d with
  | select group function =>
    by_cases hgroup : group = g.name
    · exact .inr ⟨function, by rw [hgroup]⟩
    · exact .inl hgroup
  | forget group => exact .inl fun hgroup => hforget (by rw [hgroup])
  | queue q => exact .inl ⟨May.orderly h, May.ungrouped h⟩
  | _ => exact .inl trivial

def Lapses (v : Verb) : Prop :=
  v.moves = true ∨ v ∈ [Verb.drillHere, .deepDrillHere, .cycle, .finish, .loadTool]

theorem May.forgets {group : Text} (h : Verb.May p m v (.forget group)) :
    Lapses v ∧ ∃ g ∈ [ModalGroup.cycle, .motion], group = g.name := by
  cases h with
  | move hv h =>
    refine ⟨.inl hv, ?_⟩
    cases h with
    | call h => cases h
    | travel h =>
      cases h with
      | restate h => cases h
      | adapt h =>
        cases h with
        | forget g hg => exact ⟨g, hg, rfl⟩
      | path h => cases h
    | axis h => cases h
  | start hv h =>
    refine ⟨.inr (by simp only [List.mem_cons] at hv ⊢; tauto), ?_⟩
    cases h with
    | call h => cases h
    | forget g hg => exact ⟨g, hg, rfl⟩
  | cancel hv h =>
    refine ⟨.inr (by simp only [List.mem_cons] at hv ⊢; tauto), ?_⟩
    cases h with
    | forget g hg => exact ⟨g, hg, rfl⟩
  | wrapUp h => cases h
  | spindleSetting h => cases h
  | toolMotion => exact ⟨.inr (by simp), .motion, by simp, rfl⟩

theorem Step.recollects (hg : g ∉ [ModalGroup.cycle, .motion]) (hm : Sound m) (h : Step c m m') :
    ∃ ks : List Text, Tells g m (ks.map some) m' := by
  refine h.course.recollects (fun a d hd => ?_) hm
  rcases hd with rfl | ⟨v, c', -, hd⟩
  · exact .inl trivial
  · refine May.recollects hd ?_
    rintro rfl
    obtain ⟨-, g', hg', hname⟩ := May.forgets hd
    refine name_ne ?_ hname
    rintro rfl
    exact hg hg'

theorem Leads.recollects {steps : List (Command × Machine)} (hg : g ∉ [ModalGroup.cycle, .motion])
    (hm : Sound m) (h : Leads m steps) :
    ∃ ks : List Text, Tells g m (ks.map some) (final m steps) := by
  induction steps generalizing m with
  | nil => exact ⟨[], .refl hm⟩
  | cons s steps ih =>
    obtain ⟨ks, hks⟩ := Step.recollects hg hm h.1
    obtain ⟨ks', hks'⟩ := ih hks.sound h.2
    rw [final_cons]
    exact ⟨ks ++ ks', List.map_append ▸ hks.trans hks'⟩

end Machine
end Toolpath
