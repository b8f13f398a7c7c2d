import Toolpath.Proofs.BlockLoads

/-!
# When blocks are legal

Between commands codes of cutter compensation may wait, and the codes and depths of canned
cycles that are to be repeated. When they are queued again before a block takes them, the block
holds two codes of a group, and the depths may meet other numbers of a block. Apart from this
all blocks are legal.
-/

namespace Toolpath.Machine

open Registers (normalName)

variable {p : Profile} {m m' m'' : Machine} {v : Verb} {c : Command} {u : Unit}
  {k g g' s s' : List Text}

def waiting (m : Machine) (group : ModalGroup) : Nat := m.groups.count group.name

/-- Codes and numbers of compensations and of canned cycles: with each code of a
cycle go a depth and a height, and perhaps a peck. -/
structure Batch (g s : List Text) : Prop where
  groups : ∀ x ∈ g, x = ModalGroup.cutcom.name ∨ x = ModalGroup.cycle.name
  depths : s.count (Text.ofString "Z") = g.count ModalGroup.cycle.name
  heights : s.count (Text.ofString "R") = g.count ModalGroup.cycle.name
  pecks : s.count (Text.ofString "Q") ≤ g.count ModalGroup.cycle.name
  addresses : ∀ x ∈ s, x ∈ (["Z", "R", "Q"] : List Text)

theorem Batch.nil : Batch [] [] := ⟨by simp, rfl, rfl, Nat.le_refl _, by simp⟩

theorem Batch.append (h : Batch g s) (h' : Batch g' s') : Batch (g ++ g') (s ++ s') := by
  constructor
  · intro x hx
    rcases List.mem_append.mp hx with hx | hx
    · exact h.groups x hx
    · exact h'.groups x hx
  · rw [List.count_append, List.count_append, h.depths, h'.depths]
  · rw [List.count_append, List.count_append, h.heights, h'.heights]
  · rw [List.count_append, List.count_append]
    exact Nat.add_le_add h.pecks h'.pecks
  · intro x hx
    rcases List.mem_append.mp hx with hx | hx
    · exact h.addresses x hx
    · exact h'.addresses x hx

theorem Batch.queued {qs : List Queued} (hm : Batch m.groups m.addresses)
    (hqs : Batch (qs.filterMap Queued.group?) (qs.filterMap Queued.address?))
    (h : m'.writer.pending = m.writer.pending ++ qs) : Batch m'.groups m'.addresses := by
  rw [groups_queued h, addresses_queued h]
  exact hm.append hqs

theorem batch_of_empty (hm : m.writer.pending = []) : Batch m.groups m.addresses := by
  rw [groups, addresses, hm]
  exact Batch.nil

theorem waiting_of_empty (hm : m.writer.pending = []) (group : ModalGroup) :
    m.waiting group = 0 := by
  rw [waiting, groups, hm]
  rfl

theorem Batch.groups_nodup (h : Batch g s) (hg : g'.Nodup) (hcutcom : ModalGroup.cutcom.name ∉ g') :
    (g ++ g').Nodup ↔ g.count ModalGroup.cutcom.name ≤ 1 ∧
      g.count ModalGroup.cycle.name + g'.count ModalGroup.cycle.name ≤ 1 := by
  rw [List.nodup_iff_count]
  simp only [List.count_append]
  constructor
  · intro hcount
    have hcut := hcount ModalGroup.cutcom.name
    exact ⟨by omega, hcount ModalGroup.cycle.name⟩
  · rintro ⟨hcut, hcycle⟩ x
    have hx := List.nodup_iff_count.mp hg x
    by_cases hmem : x ∈ g
    · rcases h.groups x hmem with rfl | rfl
      · rw [List.count_eq_zero_of_not_mem hcutcom]
        exact hcut
      · exact hcycle
    · rw [List.count_eq_zero_of_not_mem hmem]
      omega

theorem Batch.addresses_nodup (h : Batch g s) (hs : s'.Nodup)
    (hdepth : ∀ x ∈ (["R", "Q"] : List Text), x ∈ s' → (Text.ofString "Z") ∈ s') :
    (s ++ s').Nodup ↔ g.count ModalGroup.cycle.name + s'.count (Text.ofString "Z") ≤ 1 := by
  rw [List.nodup_iff_count]
  simp only [List.count_append]
  constructor
  · intro hcount
    have hZ := hcount "Z"
    rwa [h.depths] at hZ
  · intro hcycle x
    have hx := List.nodup_iff_count.mp hs x
    -- a height or a peck of the command comes with a depth of its own
    have hwith (hmem : x ∈ (["R", "Q"] : List Text)) :
        s'.count x ≤ s'.count (Text.ofString "Z") := by
      by_cases hin : x ∈ s'
      · exact hx.trans (List.count_pos_iff.mpr (hdepth x hmem hin))
      · rw [List.count_eq_zero_of_not_mem hin]
        exact Nat.zero_le _
    by_cases hmem : x ∈ s
    · rcases List.mem_cons.mp (h.addresses x hmem) with rfl | hrest
      · rw [h.depths]
        exact hcycle
      · have hle := hwith hrest
        have hcount : s.count x ≤ g.count ModalGroup.cycle.name := by
          rcases List.mem_cons.mp hrest with rfl | hlast
          · exact h.heights.le
          · rw [List.mem_singleton.mp hlast]
            exact h.pecks
        omega
    · rw [List.count_eq_zero_of_not_mem hmem]
      omega

/-- The words that a command queues for its block do not clash with each other, nor
with those that wait but for the words of a cycle. -/
def Joins (g s : List Text) : Prop :=
  g.Nodup ∧ ModalGroup.cutcom.name ∉ g ∧
  g.count ModalGroup.cycle.name ≤ s.count (Text.ofString "Z") ∧ s.Nodup ∧
    (∀ x ∈ (["R", "Q"] : List Text), x ∈ s → Text.ofString "Z" ∈ s) ∧
    ∀ x ∈ s, x ∈ trackedNames → x ∈ sharedNames

instance (g s : List Text) : Decidable (Joins g s) := inferInstanceAs (Decidable (_ ∧ _))

def waitingAxes (m : Machine) : List Text := if m.waiting .cycle = 0 then [] else ["Z", "R"]

theorem Batch.mem_waitingAxes (h : Batch m.groups m.addresses) {r : Text} (hr : r ∈ trackedNames) :
    r ∈ m.addresses ↔ r ∈ m.waitingAxes := by
  have hpos {x : Text} (hx : m.addresses.count x = m.waiting .cycle) :
      x ∈ m.addresses ↔ m.waiting .cycle ≠ 0 := by
    rw [← hx, ← List.count_pos_iff, Nat.pos_iff_ne_zero]
  unfold waitingAxes
  constructor
  · intro hmem
    have hcases := h.addresses r hmem
    simp only [List.mem_cons, List.not_mem_nil, or_false] at hcases
    rcases hcases with rfl | rfl | rfl
    · rw [if_neg ((hpos h.depths).mp hmem)]
      simp
    · rw [if_neg ((hpos h.heights).mp hmem)]
      simp
    · exact absurd hr (by decide)
  · intro hmem
    split at hmem
    · cases hmem
    case isFalse hne =>
      rcases List.mem_cons.mp hmem with rfl | hlast
      · exact (hpos h.depths).mpr hne
      · rw [List.mem_singleton.mp hlast]
        exact (hpos h.heights).mpr hne

theorem clear_iff (hm : Batch m.groups m.addresses) (h : Loads k g s m m') (hj : Joins g s) :
    m'.Clear ↔ m.waiting .cutcom ≤ 1 ∧ m.waiting .cycle + s.count (Text.ofString "Z") ≤ 1 ∧
      ∀ r ∈ m.waitingAxes ++ s, r ∈ trackedNames → m'.flagged r = false := by
  obtain ⟨hcodes, hcutcom, hdrill, hnumbers, hdepth, -⟩ := hj
  obtain ⟨more, hgroups, hsub⟩ := h.groups
  have hmore : more.count ModalGroup.cycle.name ≤ s.count (Text.ofString "Z") :=
    (hsub.count_le _).trans hdrill
  rw [Clear, hgroups, h.addresses, hm.addresses_nodup hnumbers hdepth,
    hm.groups_nodup (hsub.nodup hcodes) fun hmem => hcutcom (hsub.subset hmem)]
  have hnames : (∀ r ∈ m.addresses ++ s, r ∈ trackedNames → m'.flagged r = false) ↔
      ∀ r ∈ m.waitingAxes ++ s, r ∈ trackedNames → m'.flagged r = false := by
    refine forall_congr' fun r => ?_
    by_cases hr : r ∈ trackedNames
    · rw [List.mem_append, List.mem_append, hm.mem_waitingAxes hr]
    · simp [hr]
  rw [hnames]
  change (m.waiting .cutcom ≤ 1 ∧ m.waiting .cycle + _ ≤ 1) ∧ m.waiting .cycle + _ ≤ 1 ∧ _ ↔ _
  constructor
  · rintro ⟨⟨hcut, -⟩, hcycle, hflags⟩
    exact ⟨hcut, hcycle, hflags⟩
  · rintro ⟨hcut, hcycle, hflags⟩
    exact ⟨⟨hcut, by omega⟩, hcycle, hflags⟩

theorem clear_iff_of_empty (hm : m.writer.pending = []) (h : Loads k g s m m') (hj : Joins g s) :
    m'.Clear ↔ ∀ r ∈ s, r ∈ trackedNames → m'.flagged r = false := by
  have hcount := List.nodup_iff_count.mp hj.2.2.2.1 "Z"
  rw [clear_iff (batch_of_empty hm) h hj, waitingAxes, waiting_of_empty hm,
    waiting_of_empty hm, if_pos rfl, List.nil_append, Nat.zero_add]
  exact ⟨fun h => h.2.2, fun h => ⟨Nat.zero_le _, hcount, h⟩⟩

def ownAxes (m : Machine) (v : Verb) (c : Command) : List Text :=
  match v with
  | .delay => ["X"]
  | .home => (homeAxes c).map Axis.register
  | .drillHere | .deepDrillHere => if m.profile.cycleStyle = .code then ["Z", "R"] else []
  | _ => []

/-- The registers that the blocks of a verb name by queued numbers. A motion keeps
the depth out of its block while a cycle is repeated. -/
def namedAxes (m : Machine) (v : Verb) (c : Command) : List Text :=
  (if m.movesBy v c then m.waitingAxes.erase "Z" else m.waitingAxes) ++ m.ownAxes v c

/-- What waits fits into the block of the verb: one code of cutter compensation at
most, one canned cycle at most and none where the verb has a depth of its own, and
no flag on a register that the block names anyway. -/
def tidyBy (m : Machine) (v : Verb) (c : Command) : Bool :=
  m.waiting .cutcom ≤ 1 && m.waiting .cycle + (m.ownAxes v c).count (Text.ofString "Z") ≤ 1 &&
    (m.namedAxes v c).all fun r => !m.flagged r

theorem tidyBy_iff : m.tidyBy v c = true ↔ m.waiting .cutcom ≤ 1 ∧
    m.waiting .cycle + (m.ownAxes v c).count (Text.ofString "Z") ≤ 1 ∧
    ∀ r ∈ m.namedAxes v c, m.flagged r = false := by
  simp [tidyBy, and_assoc]

theorem waitingAxes_shared {r : Text} (h : r ∈ m.waitingAxes) :
    r ∈ sharedNames ∧ r ∈ trackedNames := by
  have hshared : ∀ r ∈ (["Z", "R"] : List Text), r ∈ sharedNames ∧ r ∈ trackedNames := by decide
  unfold waitingAxes at h
  split at h
  · cases h
  · exact hshared r h

theorem legalIff_of_loads (h : Loads k g s m m') (hwriter : m''.writer = m'.wroteBlock.writer) :
    LegalIff m'.Clear m m'' := by
  obtain ⟨bs, hbs, hlegal⟩ := legalIff_block h.fit
  exact ⟨bs, by rw [hwriter, hbs, h.written], hlegal⟩

theorem legalIff_of_writes (hm : Batch m.groups m.addresses) (hj : Joins g s)
    (hstill : m.movesBy v c = false)
    (hown : m.ownAxes v c = s.filter fun r => decide (r ∈ trackedNames))
    (h : ∃ m₁, Loads sharedNames g s m m₁ ∧ m'.writer = m₁.wroteBlock.writer ∧
      m'.rack = m₁.wroteBlock.rack) : LegalIff (m.tidyBy v c = true) m m' := by
  obtain ⟨m₁, hload, hwriter, -⟩ := h
  have hdepth : (m.ownAxes v c).count (Text.ofString "Z") = s.count (Text.ofString "Z") := by
    rw [hown, List.count_filter (by decide)]
  refine (legalIff_of_loads hload hwriter).congr ?_
  rw [clear_iff hm hload hj, tidyBy_iff, hdepth, namedAxes, hstill, hown]
  refine and_congr_right fun _ => and_congr_right fun _ => forall_congr' fun r => ?_
  simp only [List.mem_append, List.mem_filter, decide_eq_true_eq]
  constructor
  · rintro h (hr | ⟨hr, htracked⟩)
    · rw [← hload.flagged (waitingAxes_shared hr).1]
      exact h (.inl hr) (waitingAxes_shared hr).2
    · rw [← hload.flagged (hj.2.2.2.2.2 r hr htracked)]
      exact h (.inr hr) htracked
  · rintro h (hr | hr) htracked
    · rw [hload.flagged (waitingAxes_shared hr).1]
      exact h (.inl hr)
    · rw [hload.flagged (hj.2.2.2.2.2 r hr htracked)]
      exact h (.inr ⟨hr, htracked⟩)

def homeChoices : List (List Axis) := [[.z, .x, .y], [.z, .x], [.z, .y], [.z], [.x, .y], [.x], [.y]]

theorem homeAxes_mem (c : Command) : homeAxes c ∈ homeChoices := by
  simp only [homeAxes, List.filter_cons, List.filter_nil]
  cases c.hasMinor ["z"] <;> cases c.hasMinor ["x"] <;> cases c.hasMinor ["y"] <;> decide

theorem homeChoices_joins :
    ∀ axes ∈ homeChoices, Joins [ModalGroup.motion.name] (axes.map Axis.register) ∧
    ∀ r ∈ axes.map Axis.register, r ∈ sharedNames ∧ r ∈ trackedNames := by
  decide

theorem moveHome_legalIff {axes : List Axis} (haxes : axes ∈ homeChoices)
    (hm : Batch m.groups m.addresses) (hfit : Fit m) (h : (moveHome axes).run m = .ok u m') :
    LegalIff (m.waiting .cutcom ≤ 1 ∧
      m.waiting .cycle + (axes.map Axis.register).count (Text.ofString "Z") ≤ 1 ∧
      ∀ r ∈ m.waitingAxes ++ axes.map Axis.register, m.flagged r = false) m m' := by
  obtain ⟨hj, hshared⟩ := homeChoices_joins axes haxes
  obtain ⟨m₁, hload, hwriter, -⟩ := writes_moveHome (k := sharedNames) axes m u m' hfit h
  refine (legalIff_of_loads hload hwriter).congr ?_
  rw [clear_iff hm hload hj]
  refine and_congr_right fun _ => and_congr_right fun _ => forall_congr' fun r =>
    forall_congr' fun hr => ?_
  have hname : r ∈ sharedNames ∧ r ∈ trackedNames := by
    rcases List.mem_append.mp hr with hr | hr
    · exact waitingAxes_shared hr
    · exact hshared r hr
  rw [hload.flagged hname.1]
  exact ⟨fun h => h hname.2, fun h _ => h⟩

theorem moveHome_leaves {axes : List Axis} (hfit : Fit m) (h : (moveHome axes).run m = .ok u m') :
    Fit m' ∧ m'.writer.pending = [] ∧ ∀ r ∈ sharedNames, AtRest r m →
    m'.flagged r = m.flagged r := by
  have htracked : ∀ r ∈ sharedNames, r ∈ trackedNames := by decide
  obtain ⟨m₁, hload, hwriter, hrack⟩ := writes_moveHome (k := sharedNames) axes m u m' hfit h
  refine ⟨?_, by rw [hwriter, wroteBlock_pending], fun r hr hrest => ?_⟩
  · exact (keepsTo_moveHome (p := m.profile) _ m rfl _ m' h).fit (fun _ _ hd => May.orderly hd) hfit
  · have hkept : m'.flagged r = m₁.wroteBlock.flagged r := by
      rw [Machine.flagged, Machine.flagged, hrack]
    rw [hkept, wroteBlock_flagged_eq hload.fit.sound.indexed (hload.fit.tracks (htracked r hr)),
      hload.flagged hr, hload.isModal hr]
    cases hf : m.flagged r with
    | false => rfl
    | true => simp [(hrest hf).1]

theorem moveHome_legalIff_behind {axes others : List Axis} (hothers : others ∈ homeChoices)
    (hfit : Fit m) (hrest : ∀ r ∈ sharedNames, AtRest r m) (h : (moveHome axes).run m = .ok u m')
    (h' : (moveHome others).run m' = .ok u m'') :
    LegalIff (∀ r ∈ others.map Axis.register, m.flagged r = false) m' m'' := by
  obtain ⟨hj, hshared⟩ := homeChoices_joins others hothers
  obtain ⟨hfit', hempty, hkept⟩ := moveHome_leaves hfit h
  obtain ⟨m₁, hload, hwriter, -⟩ := writes_moveHome (k := sharedNames) others m' u m'' hfit' h'
  refine (legalIff_of_loads hload hwriter).congr ?_
  rw [clear_iff_of_empty hempty hload hj]
  refine forall_congr' fun r => forall_congr' fun hr => ?_
  obtain ⟨hname, htracked⟩ := hshared r hr
  rw [hload.flagged hname, hkept r hname (hrest r hname)]
  exact ⟨fun h => h htracked, fun h _ => h⟩

theorem goHome_legalIff (hm : Batch m.groups m.addresses) (hfit : Fit m)
    (hrest : ∀ r ∈ sharedNames, AtRest r m)
    (h : (goHome c).run m = .ok u m') : LegalIff (m.tidyBy .home c = true) m m' := by
  obtain ⟨_, m₁, hmoves, hlast⟩ := run_bind_ok.mp h
  have hwritten : m'.writer.written = m₁.writer.written := by
    cases hlast
    rfl
  have haxes := homeAxes_mem c
  have htidy : m.tidyBy .home c = true ↔ m.waiting .cutcom ≤ 1 ∧
      m.waiting .cycle + ((homeAxes c).map Axis.register).count (Text.ofString "Z") ≤ 1 ∧
      ∀ r ∈ m.waitingAxes ++ (homeAxes c).map Axis.register, m.flagged r = false := tidyBy_iff
  suffices hlegal : LegalIff (m.tidyBy .home c = true) m m₁ by
    obtain ⟨bs, hbs, hiff⟩ := hlegal
    exact ⟨bs, hwritten.trans hbs, hiff⟩
  unfold homeMoves at hmoves
  split at hmoves
  case h_1 a rest heq =>
    have htail : ∀ axes ∈ homeChoices, axes.head? = some .z → axes.tail ≠ [] →
        axes.tail ∈ homeChoices ∧
        (axes.tail.map Axis.register).count (Text.ofString "Z") = 0 := by decide
    rw [heq] at htidy haxes
    obtain ⟨hothers, hnone⟩ := htail _ haxes rfl (by simp)
    rw [List.tail_cons] at hothers hnone
    obtain ⟨m₂, h₁, hmoves⟩ := forIn_cons_ok hmoves
    obtain ⟨m₃, h₂, hmoves⟩ := forIn_cons_ok hmoves
    cases hmoves
    have hfirst := moveHome_legalIff (by decide) hm hfit h₁
    refine (hfirst.trans (moveHome_legalIff_behind hothers hfit hrest h₁ h₂)).congr ?_
    have hsplit : (Axis.z :: a :: rest).map Axis.register =
        [Axis.z].map Axis.register ++ (a :: rest).map Axis.register := rfl
    rw [htidy, hsplit, List.count_append, hnone, Nat.add_zero, ← List.append_assoc]
    simp only [List.forall_mem_append, and_assoc]
  case h_2 =>
    obtain ⟨m₂, h₁, hmoves⟩ := forIn_cons_ok hmoves
    cases hmoves
    exact (moveHome_legalIff haxes hm hfit h₁).congr htidy.symm

theorem writes_cancelCycle (style : m.profile.cycleStyle = .code) (ha : m.active .cycle ≠ [])
    (hfit : Fit m) (h : cancelCycle.run m = .ok u m') :
    ∃ m₁, Loads k [] [] m m₁ ∧ m'.writer = m₁.wroteBlock.writer ∧ m'.rack = m₁.wroteBlock.rack := by
  simp only [cancelCycle, EStateM.run_bind, EStateM.run_get, style, ha, if_false] at h
  exact writes_cancel m u m' hfit h

theorem finish_legalIff (hm : Batch m.groups m.addresses) (hfit : Fit m)
    (h : (finish c).run m = .ok u m') : LegalIff (m.tidyBy .finish c = true) m m' := by
  obtain ⟨_, m₁, hcancel, hwrap⟩ := run_bind_ok.mp h
  have hfit₁ : Fit m₁ := (keepsTo_cancelCycle (p := m.profile) m rfl _ m₁ hcancel).fit
    (fun _ _ hd => May.orderly (v := .finish) (.cancel (by simp) hd)) hfit
  obtain ⟨a₂, hload₂, hlast⟩ := writes_wrapUp (k := sharedNames) c m₁ u m' hfit₁ hwrap
  by_cases hactive : m.profile.cycleStyle = .code ∧ m.active .cycle ≠ []
  · have hwrites := writes_cancelCycle (k := sharedNames) hactive.1 hactive.2 hfit hcancel
    have hempty : m₁.writer.pending = [] := cancelCycle_empties hactive.1 hactive.2 hcancel
    have hclear : a₂.Clear := (clear_iff_of_empty hempty hload₂ (by decide)).mpr (by simp)
    have hfirst : LegalIff (m.tidyBy .finish c = true) m m₁ :=
      legalIff_of_writes hm (by decide) rfl rfl hwrites
    refine (hfirst.trans (legalIff_of_loads hload₂ hlast.1)).congr ?_
    exact ⟨fun h => h.1, fun h => ⟨h, hclear⟩⟩
  · -- no block comes before the last one
    obtain ⟨hwriter, hrack⟩ :=
      cancelCycle_waits (fun style => by simpa [style] using hactive) hcancel
    have hload := (Loads.still hfit hwriter hrack).trans hload₂
    exact legalIff_of_writes hm (by decide) rfl rfl ⟨a₂, hload, hlast⟩

theorem drillHere_legalIff (hcoded : m.profile.Coded) (hm : Batch m.groups m.addresses)
    (hfit : Fit m) {d : DrillCycle} (hstill : m.movesBy v c = false)
    (hown : m.ownAxes v c = if m.profile.cycleStyle = .code then (["Z", "R"] : List Text) else [])
    (h : (startCycle d true).run m = .ok u m') : LegalIff (m.tidyBy v c = true) m m' := by
  simp only [startCycle, EStateM.run_bind, EStateM.run_get] at h
  cases style : m.profile.cycleStyle with
  | code =>
    simp only [style] at h
    obtain ⟨-, rfl⟩ := writeBlock_ok.mp (startCanned_ok hcoded h)
    have hwords : Joins [ModalGroup.cycle.name] (cannedAddresses d) ∧
        (["Z", "R"] : List Text) = (cannedAddresses d).filter fun r =>
          decide (r ∈ trackedNames) := by
      unfold cannedAddresses
      split <;> decide
    refine legalIff_of_writes hm hwords.1 hstill ?_ ⟨_, started_loads hcoded hfit d, rfl, rfl⟩
    rw [hown, if_pos style]
    exact hwords.2
  | call =>
    simp only [style] at h
    refine legalIff_of_writes hm (g := []) (s := []) (by decide) hstill ?_ ?_
    · rw [hown, style]
      rfl
    · exact writes_callCycle _ _ m u m' hfit h

theorem callRepeated_legalIff (hfit : Fit m) (hempty : m.writer.pending = [])
    (h : callRepeated.run m = .ok u m') : LegalIff True m m' := by
  simp only [callRepeated, EStateM.run_bind, EStateM.run_get] at h
  split at h
  · obtain ⟨m₁, hload, hwriter, -⟩ := writes_callCycle (k := []) _ _ m u m' hfit h
    have hclear := clear_iff_of_empty hempty hload (by decide)
    exact (legalIff_of_loads hload hwriter).congr (hclear.trans (by simp))
  · cases h
    exact ⟨[], rfl, by simp⟩

theorem motion_legalIff (hcoded : m.profile.Coded) (hm : Batch m.groups m.addresses) (hfit : Fit m)
    (hrepeated : m.waiting .cycle ≠ 0 → InMode m .repeated) (hmoves : m.movesBy v c = true)
    (h : (perform v c).run m = .ok u m') : LegalIff (m.tidyBy v c = true) m m' := by
  rw [perform_moving hmoves] at h
  have hannounced : Loads [] [] [] m { m with vars := announced v m.vars } :=
    Loads.still hfit rfl rfl
  obtain ⟨m₁, hload, hfit₁, hcall, hflags⟩ :=
    moveTo_loads (m := { m with vars := announced v m.vars }) hcoded hannounced.fit
      (numeric_of_movesBy hmoves) h
  have hmotion : Loads [] [ModalGroup.motion.name] [] m m₁ := hannounced.trans hload
  have hblock : LegalIff m₁.Clear m m₁.wroteBlock := legalIff_of_loads hmotion rfl
  refine (hblock.trans (callRepeated_legalIff hfit₁ (wroteBlock_pending m₁) hcall)).congr ?_
  have hown : m.ownAxes v c = [] := by cases v <;> first | rfl | cases hmoves
  rw [and_true, clear_iff hm hmotion (by decide), tidyBy_iff, namedAxes, if_pos hmoves, hown,
    List.append_nil, List.append_nil]
  refine and_congr_right fun _ => and_congr_right fun _ => ?_
  unfold waitingAxes
  split
  · simp
  case isFalse hne =>
    -- the depth is hidden, so only the flag of the height is in the way
    obtain ⟨hdepth, hheight⟩ := hflags ((announced_idles m v).inMode (hrepeated hne))
    have hheight' : m₁.flagged "R" = m.flagged "R" := hheight
    have htracked : Text.ofString "R" ∈ trackedNames := by decide
    constructor
    · intro h r hr
      obtain rfl : r = "R" := by simpa using hr
      rw [← hheight']
      exact h "R" (by simp) htracked
    · intro h r hr _
      rcases List.mem_cons.mp hr with rfl | hr
      · exact hdepth
      · rw [List.mem_singleton.mp hr, hheight']
        exact h "R" (by decide)

/-- Nothing waits but compensations and canned cycles; where a cycle waits, it is
to be repeated. -/
structure Stocked (m : Machine) : Prop where
  batch : Batch m.groups m.addresses
  repeated : m.waiting .cycle ≠ 0 → m.profile.cycleStyle = .code ∧ InMode m .repeated

theorem stocked_of_empty (h : m.writer.pending = []) : Stocked m :=
  ⟨batch_of_empty h, fun hne => absurd (waiting_of_empty h .cycle) hne⟩

theorem perform_legalIff (hcoded : m.profile.Coded) (hm : Stocked m) (hfit : Fit m)
    (hrest : ∀ r ∈ sharedNames, AtRest r m) (hflush : m.flushesBy v c = true)
    (h : (perform v c).run m = .ok u m') : LegalIff (m.tidyBy v c = true) m m' := by
  have hmotion (hmoves : m.movesBy v c = true) : LegalIff (m.tidyBy v c = true) m m' :=
    motion_legalIff hcoded hm.batch hfit (fun hne => (hm.repeated hne).2) hmoves h
  cases v with
  | goto | rapid | start | continuation => exact hmotion hflush
  | home => exact goHome_legalIff hm.batch hfit hrest h
  | finish => exact finish_legalIff hm.batch hfit h
  | spindle =>
    exact legalIff_of_writes hm.batch (by decide) rfl rfl (writes_runSpindle c m u m' hfit h)
  | coolant =>
    exact legalIff_of_writes hm.batch (by decide) rfl rfl (writes_runCoolant c m u m' hfit h)
  | plane =>
    obtain ⟨pl, hpl⟩ := Option.isSome_iff_exists.mp hflush
    exact legalIff_of_writes hm.batch (by decide) rfl rfl (writes_selectPlane hpl m u m' hfit h)
  | selectTool =>
    cases hc : c.numeric with
    | nil => simp [flushesBy, hc] at hflush
    | cons number rest =>
      exact legalIff_of_writes hm.batch (by decide) rfl rfl (writes_selectTool hc m u m' hfit h)
  | loadTool =>
    cases hc : c.numeric with
    | nil => simp [flushesBy, hc] at hflush
    | cons number rest =>
      have hholds : m.holdsTool (Number.truncate (Number.round number)) = false := by
        simpa [flushesBy, hc] using hflush
      exact legalIff_of_writes hm.batch (by decide) rfl rfl (writes_loadTool hc hfit hholds h)
  | delay =>
    cases hc : c.numeric with
    | nil => simp [flushesBy, hc] at hflush
    | cons number rest =>
      exact legalIff_of_writes hm.batch (by decide) rfl rfl (writes_dwell hc m u m' hfit h)
  | drillHere | deepDrillHere =>
    have hne : c.numeric.isEmpty = false := by simpa [flushesBy] using hflush
    simp only [perform, drillHere, hne, if_false, Bool.false_eq_true] at h
    exact drillHere_legalIff hcoded hm.batch hfit rfl rfl h
  | cycle =>
    have hcycle : (c.hasMinor ["off"] = true ∧ m.profile.cycleStyle = .code) ∧
        m.active .cycle ≠ [] := by
      simpa [flushesBy] using hflush
    simp only [perform, repeatCycle, EStateM.run_bind, EStateM.run_get, hcycle.1.1, if_true] at h
    exact legalIff_of_writes hm.batch (by decide) rfl rfl
      (writes_cancelCycle hcycle.1.2 hcycle.2 hfit h)
  | _ => simp [flushesBy, movesBy, Verb.moves] at hflush

theorem next_repeated (hwaits : m.flushesBy v c = false) (style : m.profile.cycleStyle = .code)
    (ha : m.active .cycle ≠ []) : Mode.repeated.next m v c = .repeated := by
  cases v with
  | cycle =>
    have hoff : c.hasMinor ["off"] = false := by simpa [flushesBy, style, ha] using hwaits
    simp [Mode.next, hoff]
  | drillHere | deepDrillHere =>
    have hnone : c.numeric = [] := by simpa [flushesBy] using hwaits
    simp [Mode.next, hnone]
  | finish => cases hwaits
  | _ =>
    simp only [Mode.next, Mode.moved]
    split <;> rfl

theorem May.silent (hv : v.moves = false)
    (hquiet : v ∉ [Verb.drillHere, .deepDrillHere, .cycle, .finish, .plane, .home, .spindle,
      .coolant, .loadTool, .selectTool, .delay, .cutterCompensation])
    {d : Deed} (h : Verb.May p m v d) : Silent [] d := by
  cases h with
  | move hmoves => simp [hv] at hmoves
  | start hstart => simp_all
  | cancel hcancel => simp_all
  | block _ hblock => simp_all
  | toolNumber _ _ htool => simp_all
  | toolWord _ htool => simp_all
  | clearFlags => rfl
  | feed => simp [Silent]
  | book | remark | name | circle | multiAxis => trivial
  | _ => simp at hquiet

theorem batch_modalWords (m : Machine) (f : Function) :
    Batch ((m.modalWords .cutcom f).filterMap Queued.group?)
      ((m.modalWords .cutcom f).filterMap Queued.address?) ∧
      ((m.modalWords .cutcom f).filterMap Queued.group?).count ModalGroup.cycle.name = 0 := by
  unfold modalWords
  split
  · exact ⟨⟨by simp [Queued.group?], rfl, rfl, Nat.le_refl _, by simp [Queued.address?]⟩, rfl⟩
  · exact ⟨Batch.nil, rfl⟩

theorem batch_cannedWords (m : Machine) (d : DrillCycle) :
    Batch ((m.cannedWords d).filterMap Queued.group?)
      ((m.cannedWords d).filterMap Queued.address?) := by
  rw [cannedWords_groups, cannedWords_addresses]
  unfold cannedAddresses
  split <;> exact ⟨by simp, by decide, by decide, by decide, by decide⟩

theorem compensate_batch (hcoded : m.profile.Coded) (hm : Batch m.groups m.addresses)
    (h : (compensate c).run m = .ok u m') :
    Batch m'.groups m'.addresses ∧ m'.waiting .cycle = m.waiting .cycle := by
  rw [compensate_eq] at h
  cases hc : compensation? c with
  | none =>
    simp only [hc] at h
    cases h
    exact ⟨hm, rfl⟩
  | some f =>
    simp only [hc] at h
    rw [emitModal_run, if_neg (hcoded f)] at h
    cases h
    obtain ⟨hbatch, hnone⟩ := batch_modalWords m f
    have hpending := (selected_pending m .cutcom f).1
    refine ⟨hm.queued hbatch hpending, ?_⟩
    rw [waiting, groups_queued hpending, List.count_append, hnone, Nat.add_zero, waiting]

theorem perform_batch (hcoded : m.profile.Coded) (hm : Batch m.groups m.addresses) (hfit : Fit m)
    (hv : v ≠ .cycle) (hwaits : m.flushesBy v c = false) (h : (perform v c).run m = .ok u m') :
    Batch m'.groups m'.addresses ∧ m'.waiting .cycle = m.waiting .cycle := by
  cases v with
  | cycle => exact absurd rfl hv
  | spindle | coolant | home | finish => cases hwaits
  | goto | rapid | start | continuation =>
    obtain ⟨vars, log, rfl, -⟩ := perform_still rfl hwaits h
    exact ⟨hm, rfl⟩
  | plane | selectTool | delay | drillHere | deepDrillHere | loadTool =>
    obtain ⟨log, rfl⟩ := perform_declined (by simp) hwaits h
    exact ⟨hm, rfl⟩
  | cutterCompensation => exact compensate_batch hcoded hm h
  | _ =>
    have hload := (keepsTo_perform (p := m.profile) _ c m rfl u m' h).silent
      (fun _ _ hd => May.silent rfl (by simp) hd) hfit
    obtain ⟨more, hgroups, hsub⟩ := hload.groups
    obtain rfl := List.sublist_nil.mp hsub
    rw [waiting, hgroups, hload.addresses, List.append_nil, List.append_nil]
    exact ⟨hm, rfl⟩

theorem begun_stocked (hcoded : m.profile.Coded) (hm : Batch m.groups m.addresses)
    (hsound : Sound m)
    (style : m.profile.cycleStyle = .code) (d : DrillCycle) : Stocked (m.begun d) := by
  have hbegun : m.begun d = m.started d false := if_pos style
  have hpending := begun_pending style d
  refine ⟨?_, fun _ => ⟨?_, ?_⟩⟩
  · split at hpending
    · exact hm.queued (batch_cannedWords _ d) hpending
    · refine hm.queued ?_ hpending
      exact Batch.nil
  · rw [hbegun]
    unfold started
    split <;> exact style
  · rw [hbegun]
    exact (started_turns (k := .off) (c := d) false hcoded hsound).mode

theorem perform_stocked (hcoded : m.profile.Coded) (hm : Stocked m) (hfit : Fit m)
    (hwaits : m.flushesBy v c = false) (h : (perform v c).run m = .ok u m') : Stocked m' := by
  have hmode (hne : m.waiting .cycle ≠ 0) : m'.profile.cycleStyle = .code ∧
      InMode m' .repeated := by
    obtain ⟨style, hk⟩ := hm.repeated hne
    have hturns := perform_turns hcoded style hfit.sound hk h
    rw [next_repeated hwaits style hk.1] at hturns
    exact ⟨(keepsTo_perform (p := m.profile) v c m rfl u m' h).profile ▸ style, hturns.mode⟩
  have hsame (hwriter : m'.writer = m.writer) : Stocked m' := by
    have hgroups : m'.groups = m.groups := by rw [groups, hwriter, groups]
    have haddresses : m'.addresses = m.addresses := by rw [addresses, hwriter, addresses]
    refine ⟨?_, fun hne => hmode ?_⟩
    · rw [hgroups, haddresses]
      exact hm.batch
    · rwa [waiting, hgroups] at hne
  by_cases hv : v = .cycle
  · subst hv
    rcases repeatCycle_ok hcoded h
      with ⟨hoff, hcancel⟩ | ⟨-, -, log, rfl⟩ | ⟨d, i, m₁, -, hfeed, rfl⟩
    · exact hsame (cancelCycle_waits (by simpa [flushesBy, hoff] using hwaits) hcancel).1
    · exact hsame rfl
    · have hsound : Sound m₁ := (keepsTo_setCycleFeed (p := m.profile) c i m rfl _ m₁ hfeed).sound
        (fun _ _ hd => May.orderly hd) hfit.sound
      obtain ⟨rack, rfl, -⟩ := setCycleFeed_ok hfeed
      cases style : m.profile.cycleStyle with
      | call => exact hsame (by simp [begun, style])
      | code => exact begun_stocked (m := { m with rack }) hcoded hm.batch hsound style d
  · obtain ⟨hbatch, hcycle⟩ := perform_batch hcoded hm.batch hfit hv hwaits h
    exact ⟨hbatch, fun hne => hmode (hcycle ▸ hne)⟩

/-- Whether what waits fits into the blocks of the command, if it writes any. -/
def tidy (m : Machine) (c : Command) : Bool :=
  (m.verbs.resolve c).all fun vc => !m.flushesBy vc.1 vc.2 || m.tidyBy vc.1 vc.2

structure Ordered (m : Machine) : Prop where
  coded : m.profile.Coded
  fit : Fit m
  stocked : Stocked m
  atRest : ∀ r ∈ sharedNames, AtRest r m

theorem Opens.ordered (haccepted : p.Accepted) (h : Opens p m) : Ordered m := by
  refine ⟨h.fresh.profile ▸ haccepted.coded, h.fit, stocked_of_empty h.fresh.pending,
    fun r _ hflagged => ?_⟩
  simp [(h.fresh.value_flagged r).2] at hflagged

theorem Step.ordered (h : Step c m m') (hm : Ordered m) : Ordered m' := by
  have hshared : ∀ r ∈ sharedNames, r ∈ trackedNames ∧ r ≠ "F" := by decide
  refine ⟨h.course.profile ▸ hm.coded, h.fit hm.fit, ?_, fun r hr => ?_⟩
  · cases hflush : m.flushes c with
    | true => exact stocked_of_empty (h.empties hflush)
    | false =>
      rcases h.cases with ⟨-, stats, log, rfl⟩ | ⟨v, c', stats, log, m₁, hv, hp, rfl⟩
      · exact ⟨hm.stocked.batch, hm.stocked.repeated⟩
      · have hby : flushesBy { m with stats, log } v c' = false := by
          rw [flushesBy_booked]
          simpa [flushes, hv] using hflush
        have hfit : Fit { m with stats, log } := hm.fit.congr rfl rfl
        have hstocked := perform_stocked (m := { m with stats, log }) hm.coded
          ⟨hm.stocked.batch, hm.stocked.repeated⟩ hfit hby hp
        exact ⟨hstocked.batch, hstocked.repeated⟩
  · exact h.atRest (hshared r hr).1 (hshared r hr).2 hm.fit.sound.indexed
      (hm.fit.tracks (hshared r hr).1) (hm.atRest r hr)

theorem Step.legalIff (h : Step c m m') (hm : Ordered m) : LegalIff (m.tidy c = true) m m' := by
  rcases h.cases with ⟨hv, stats, log, rfl⟩ | ⟨v, c', stats, log, m₁, hv, hp, rfl⟩
  · exact ⟨[], rfl, by simp [tidy, hv]⟩
  · have hfit : Fit { m with stats, log } := hm.fit.congr rfl rfl
    cases hflush : m.flushesBy v c' with
    | true =>
      have hlegal := perform_legalIff (m := { m with stats, log }) hm.coded
        ⟨hm.stocked.batch, hm.stocked.repeated⟩ hfit hm.atRest
        ((flushesBy_booked m stats log v c').trans hflush) hp
      have htidy : tidyBy { m with stats, log } v c' = m.tidy c := by
        have hby : tidyBy { m with stats, log } v c' = m.tidyBy v c' := by cases v <;> rfl
        simp [hby, tidy, hv, hflush]
      rw [htidy] at hlegal
      exact hlegal
    | false =>
      have hwaits : m.flushes c = false := by simpa [flushes, hv] using hflush
      exact ⟨[], h.waits hm.coded hwaits, by simp [tidy, hv, hflush]⟩

theorem Leads.legalIff {steps : List (Command × Machine)} (h : Leads m steps) (hm : Ordered m) :
    LegalIff (Throughout (fun c m _ => m.tidy c = true) m steps) m (final m steps) := by
  induction steps generalizing m with
  | nil => exact ⟨[], rfl, by simp [Throughout]⟩
  | cons s steps ih =>
    rw [final_cons]
    exact (h.1.legalIff hm).trans (ih h.2 (h.1.ordered hm))

theorem Leads.unflagged {steps : List (Command × Machine)} {r : Text} (h : Leads m steps)
    (hm : Ordered m) (hr : r ∈ sharedNames) (hmodal : m.isModal r = true) :
    Throughout (fun _ m _ => m.flagged r = false) m steps := by
  induction steps generalizing m with
  | nil => trivial
  | cons s steps ih =>
    refine ⟨?_, ih h.2 (h.1.ordered hm) ((h.1.course.isModal hm.fit.sound.indexed).trans hmodal)⟩
    by_contra hflagged
    have hrest := (hm.atRest r hr (by simpa using hflagged)).1
    simp [hmodal] at hrest

/-- The blocks of a run are legal just when each of its commands finds what waits
tidy. Numbers are told apart by their addresses, and the address of a register is
its name. No flag is in the way on a register that is modal. -/
theorem blocks_legal_iff {p : Profile} {m₀ m : Machine} {steps : List (Command × Machine)}
    (haccepted : p.Accepted) (hopens : Opens p m₀) (hrun : Leads m₀ steps)
    (hm : m = final m₀ steps) :
    ((∀ b ∈ m.writer.written, b.Legal) ↔ Throughout (fun c a _ => a.tidy c = true) m₀ steps) ∧
    (∀ name n, m.rack.registers.find? name = some n → n.Bears (normalName name)) ∧
    ∀ r ∈ sharedNames, m₀.isModal r = true →
      Throughout (fun _ a _ => a.flagged r = false) m₀ steps := by
  have hordered := hopens.ordered haccepted
  refine ⟨?_, ?_, fun r hr hmodal => hrun.unflagged hordered hr hmodal⟩
  · obtain ⟨bs, hbs, hlegal⟩ := hrun.legalIff hordered
    rw [hm, hbs, hopens.fresh.written, List.append_nil]
    exact hlegal
  · intro name n hn
    have hfit : Fit m := hm ▸ hrun.kept (P := Fit) (fun _ _ _ ha hab => hab.fit ha) hopens.fit
    exact hfit.named.find? hn

set_option maxRecDepth 100000 in
theorem blocks_legal_iff_drilling : ∃ (m₀ : Machine) (steps : List (Command × Machine)),
    Opens { cycleStyle := .code } m₀ ∧ Leads m₀ steps ∧ steps.length = 4 ∧
      (final m₀ steps).writer.written.length = 2 ∧ ∀ b ∈ (final m₀ steps).writer.written,
      b.Legal := by
  let p : Profile := { cycleStyle := .code }
  let cs : List Command :=
    [{ major := "goto", numeric := [0, 0, 50] }, { major := "cutcom", minor := ["left"] },
      { major := "cycle", minor := ["drill"], numeric := [10, 2] }]
  let c : Command := { major := "goto", numeric := [10, 20, 50] }
  let check (m₀ : Machine) (steps : List (Command × Machine)) (m : Machine) : Bool :=
    m.writer.written.length = 2 &&
      decide (Throughout (fun c a _ => a.tidy c = true) m₀ (steps ++ [(c, m)]))
  have hparse : (Profile.parse "\x7b\"cycleStyle\":\"gcode\"\x7d" .json []).toOption = some p := by
    decide +kernel
  have hcheck : rehearse p cs c check = true := by decide +kernel
  obtain ⟨m₀, steps, m, hopens, hrun, hcs, hstep, hcheck⟩ := exists_of_rehearse hcheck
  simp only [check, Bool.and_eq_true, decide_eq_true_eq] at hcheck
  have hall : Leads m₀ (steps ++ [(c, m)]) := leads_append.mpr ⟨hrun, hstep, trivial⟩
  have hfinal : final m₀ (steps ++ [(c, m)]) = m := final_append m₀ steps [(c, m)]
  have hlength : steps.length = 3 := by rw [← List.length_map Prod.fst, hcs]; rfl
  refine ⟨m₀, steps ++ [(c, m)], hopens, hall, by simp [hlength], by rw [hfinal]; exact hcheck.1,
    ?_⟩
  exact (blocks_legal_iff (Profile.accepted_of_parse hparse) hopens hall rfl).1.mpr hcheck.2

def WritesIllegal (p : Profile) (cs : List Command) : Prop :=
  p.Accepted ∧ ∃ (m₀ : Machine) (steps : List (Command × Machine)), Opens p m₀ ∧ Leads m₀ steps ∧
    steps.map Prod.fst = cs ∧ ∃ b ∈ (final m₀ steps).writer.written, ¬b.Legal

theorem writesIllegal_of_rehearse {text : Text} (cs : List Command) (c : Command)
    (hparse : (Profile.parse text .json []).toOption = some p)
    (h : rehearse p cs c (fun _ _ m => m.writer.written.any fun b => !decide b.Legal) = true) :
    WritesIllegal p (cs ++ [c]) := by
  obtain ⟨m₀, steps, m, hopens, hrun, hcs, hstep, hcheck⟩ := exists_of_rehearse h
  obtain ⟨b, hb, hillegal⟩ := List.any_eq_true.mp hcheck
  refine ⟨Profile.accepted_of_parse hparse, m₀, steps ++ [(c, m)], hopens,
    leads_append.mpr ⟨hrun, hstep,
      trivial⟩, by rw [List.map_append, hcs]; rfl, b, ?_, by simpa using hillegal⟩
  rw [final_append]
  exact hb

set_option maxRecDepth 100000 in
/-- Two compensations are written in one block; a cycle that waits goes out with the
home position of the tool axis; and a dwell meets the flag of a register that is not
modal. -/
theorem blocks_illegal :
    WritesIllegal {} [{ major := "cutcom", minor := ["left"] },
      { major := "cutcom", minor := ["right"] }, { major := "goto", numeric := [1, 2, 3] }] ∧
    WritesIllegal { cycleStyle := .code }
      [{ major := "cycle", minor := ["drill"], numeric := [10, 2] }, { major := "gohome" }] ∧
    WritesIllegal { registers := [("X", ⟨"X\x7b-####!###\x7d", false⟩)] }
      [{ major := "goto", numeric := [1] }, { major := "delay", numeric := [2] }] := by
  have hplain : (Profile.parse "\x7b\x7d" .json []).toOption = some {} := by decide +kernel
  have hcode : (Profile.parse "\x7b\"cycleStyle\":\"gcode\"\x7d" .json []).toOption =
      some { cycleStyle := .code } := by decide +kernel
  have hregister : (Profile.parse
      ("\x7b\"registers\":\x7b\"X\":\x7b\"format\":\"X\x7b-####!###\x7d\"," ++
        "\"modal\":false\x7d\x7d\x7d") .json []).toOption =
      some { registers := [("X", ⟨"X\x7b-####!###\x7d", false⟩)] } := by decide +kernel
  refine ⟨writesIllegal_of_rehearse [_, _] _ hplain ?_, writesIllegal_of_rehearse [_] _ hcode ?_,
    writesIllegal_of_rehearse [_] _ hregister ?_⟩
  all_goals decide +kernel

end Toolpath.Machine
