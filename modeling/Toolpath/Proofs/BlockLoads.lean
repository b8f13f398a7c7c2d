import Toolpath.Proofs.BlockWords
import Toolpath.Proofs.CannedCycle
import Toolpath.Proofs.QueuedWords

/-!
# What commands put into their blocks

A command that writes a block queues words of its own behind those that wait, and
then writes the block. This follows the codes and the numbers that each command
queues before its block, by their groups and addresses, and the registers that it
leaves alone until then.
-/

namespace Toolpath.Machine

open Registers (normalName)

variable {α β : Type} {S : Machine → Deed → Prop} {m m' m'' : Machine} {d : Deed}
  {c : Command} {u : Unit} {k g g' s s' : List Text}

/-- Codes of some of the groups `g` and numbers with the addresses `s` were queued,
no block was written, and the registers `k` are as they were. -/
structure Loads (k g s : List Text) (m m' : Machine) : Prop where
  written : m'.writer.written = m.writer.written
  groups : ∃ more, m'.groups = m.groups ++ more ∧ more.Sublist g
  addresses : m'.addresses = m.addresses ++ s
  kept : ∀ r ∈ k, m'.rack.registers.find? r = m.rack.registers.find? r
  fit : Fit m'

theorem Loads.refl (hm : Fit m) : Loads k [] [] m m :=
  ⟨rfl, ⟨[], by simp, List.Sublist.refl _⟩, by simp, fun _ _ => rfl, hm⟩

theorem Loads.still (hm : Fit m) (hwriter : m'.writer = m.writer) (hrack : m'.rack = m.rack) :
    Loads k [] [] m m' := by
  refine ⟨by rw [hwriter], ⟨[], ?_, List.Sublist.refl _⟩, ?_, fun r _ => by rw [hrack],
    hm.congr hwriter hrack⟩
  · simp [Machine.groups, hwriter]
  · simp [Machine.addresses, hwriter]

theorem Loads.trans (h : Loads k g s m m') (h' : Loads k g' s' m' m'') :
    Loads k (g ++ g') (s ++ s') m m'' := by
  obtain ⟨more, hg, hsub⟩ := h.groups
  obtain ⟨more', hg', hsub'⟩ := h'.groups
  refine ⟨h'.written.trans h.written, ⟨more ++ more', ?_, hsub.append hsub'⟩, ?_,
    fun r hr => ?_, h'.fit⟩
  · rw [hg', hg, List.append_assoc]
  · rw [h'.addresses, h.addresses, List.append_assoc]
  · rw [h'.kept r hr, h.kept r hr]

theorem Loads.mono (h : Loads k g s m m') (hg : g.Sublist g') : Loads k g' s m m' := by
  obtain ⟨more, hmore, hsub⟩ := h.groups
  exact { h with groups := ⟨more, hmore, hsub.trans hg⟩ }

variable {r : Text} {a : Action α} {f : α → Action β} {rest : List Float}

theorem Loads.flagged (h : Loads k g s m m') (hr : r ∈ k) : m'.flagged r = m.flagged r := by
  rw [Machine.flagged, Machine.flagged, h.kept r hr]

theorem Loads.isModal (h : Loads k g s m m') (hr : r ∈ k) : m'.isModal r = m.isModal r := by
  rw [Machine.isModal, Machine.isModal, h.kept r hr]

/-- The deeds that queue no modal code and no number, write no block and leave the
registers `k` alone. -/
def Silent (k : List Text) : Deed → Prop
  | .queue q => q.Proper ∧ q.group? = none ∧ q.address? = none
  | .hold a _ => ∀ r ∈ k, normalName r ≠ normalName a
  | .flag _ a => ∀ r ∈ k, normalName r ≠ normalName a
  | .clearFlags => k = []
  | .select _ _ => False
  | .block => False
  | _ => True

theorem Silent.orderly (h : Silent k d) : Orderly d := by
  cases d with
  | queue q => exact h.1
  | _ => trivial

theorem Does.silent (h : Does d m m') (hd : Silent k d) (hm : Fit m) : Loads k [] [] m m' := by
  have hfit := h.fit hd.orderly hm
  have hregister (hpending : m'.writer = m.writer)
      (hr : ∀ r ∈ k, m'.rack.registers.find? r = m.rack.registers.find? r) : Loads k [] [] m m' :=
    ⟨by rw [hpending], ⟨[], by simp [Machine.groups, hpending], List.Sublist.refl _⟩,
      by simp [Machine.addresses, hpending], hr, hfit⟩
  cases h with
  | queue _ q =>
    refine ⟨rfl, ⟨[], ?_, List.Sublist.refl _⟩, ?_, fun _ _ => rfl, hfit⟩
    · simp [Machine.groups, BlockWriter.queue, hd.2.1]
    · simp [Machine.addresses, BlockWriter.queue, hd.2.2]
  | hold _ a x n found =>
    exact hregister rfl fun r hr => Registers.find?_modify_other hm.sound.indexed (hd r hr)
  | flag _ b a =>
    refine hregister rfl fun r hr => ?_
    rw [Rack.flag_register]
    exact Registers.find?_modify_other hm.sound.indexed (hd r hr)
  | clearFlags =>
    refine hregister rfl fun r hr => ?_
    rw [show k = [] from hd] at hr
    cases hr
  | select => exact hd.elim
  | block => exact hd.elim
  | _ => exact hregister rfl fun _ _ => rfl

theorem Course.silent (hS : ∀ m d, S m d → Silent k d) (h : Course S m m') (hm : Fit m) :
    Loads k [] [] m m' := by
  refine h.kept (R := fun a b => Fit a → Loads k [] [] a b) (fun _ ha => Loads.refl ha) ?_ ?_ hm
  · intro a b c h h' ha
    exact (h ha).trans (h' (h ha).fit)
  · intro d a b hd hab ha
    exact hab.silent (hS a d hd) ha

def Adds (k g s : List Text) (a : Action α) : Prop :=
  ∀ m x m', Fit m → a.run m = .ok x m' → Loads k g s m m'

def Writes (k g s : List Text) (a : Action α) : Prop :=
  ∀ m x m', Fit m → a.run m = .ok x m' → ∃ m₁, Loads k g s m m₁ ∧
    m'.writer = m₁.wroteBlock.writer ∧ m'.rack = m₁.wroteBlock.rack

theorem adds_pure (x : α) : Adds k [] [] (pure x : Action α) := by
  intro m y m' hm h
  cases h
  exact Loads.refl hm

theorem adds_bind (ha : Adds k g s a) (hf : ∀ x, Adds k g' s' (f x)) :
    Adds k (g ++ g') (s ++ s') (a >>= f) := by
  intro m y m' hm h
  obtain ⟨x, m₁, h₁, h₂⟩ := run_bind_ok.mp h
  have hload := ha m x m₁ hm h₁
  exact hload.trans (hf x m₁ y m' hload.fit h₂)

theorem adds_then (ha : Adds k g s a) (hf : ∀ x, Adds k [] [] (f x)) : Adds k g s (a >>= f) := by
  simpa using adds_bind ha hf

theorem adds_get {f : Machine → Action β} (hf : ∀ m, Adds k g s (f m)) :
    Adds k g s (get >>= f) := by
  intro m y m' hm h
  exact hf m m y m' hm h

theorem adds_onlyIf {b : Bool} {a : Action Unit} (ha : Adds k g [] a) :
    Adds k g [] (onlyIf b a) := by
  intro m x m' hm h
  unfold onlyIf at h
  split at h
  · exact ha m x m' hm h
  · exact (adds_pure () m x m' hm h).mono (List.nil_sublist _)

theorem adds_silent (ha : ∀ p, KeepsTo p (fun _ d => Silent k d) a) : Adds k [] [] a := by
  intro m x m' hm h
  exact (ha m.profile m rfl x m' h).silent (fun _ _ hd => hd) hm

theorem adds_setVariable (key : Text) (v : Value) : Adds k [] [] (setVariable key v) :=
  adds_silent fun _ => keepsTo_setVariable fun _ => trivial

theorem adds_count (f : Stats → Stats) : Adds k [] [] (count f) :=
  adds_silent fun _ => keepsTo_count (fun _ => trivial) f

theorem adds_note (level : Level) (message : Text) (details : List (Text × Detail)) :
    Adds k [] [] (note level message details) :=
  adds_silent fun _ => keepsTo_note (fun _ => trivial) level message details

theorem adds_setRegister {name : Text} (hname : ∀ r ∈ k, normalName r ≠ normalName name)
    (x : Float) :
    Adds k [] [] (setRegister name x) :=
  adds_silent fun _ => keepsTo_setRegister (fun _ _ => hname) x

theorem adds_emit (f : Function) : Adds k [] [] (emit f) :=
  adds_silent fun _ => keepsTo_emit (fun _ => trivial) fun _ known => ⟨known, rfl, rfl⟩

theorem adds_emitModal (group : ModalGroup) (f : Function) :
    Adds k [group.name] [] (emitModal group f) := by
  intro m x m' hm h
  rw [emitModal_run] at h
  split at h
  · exact (adds_note _ _ _ m x m' hm h).mono (List.nil_sublist _)
  case isFalse hcode =>
    cases h
    have hfit := (Does.select m group.name f.name hcode).fit trivial hm
    obtain ⟨hpending, hwritten⟩ := selected_pending m group f
    have hwords : (m.modalWords group f).filterMap Queued.address? = [] ∧
        ((m.modalWords group f).filterMap Queued.group?).Sublist [group.name] := by
      unfold modalWords
      split
      · exact ⟨rfl, List.Sublist.refl _⟩
      · exact ⟨rfl, List.nil_sublist _⟩
    refine ⟨hwritten, ⟨_, groups_queued hpending, hwords.2⟩, ?_, fun _ _ => rfl, hfit⟩
    rw [addresses_queued hpending, hwords.1]

theorem adds_queue {q : Queued} {address : Text} (hq : q.Proper) (hgroup : q.group? = none)
    (haddress : q.address? = some address) : Adds k [] [address] (queue q) := by
  intro m x m' hm h
  cases h
  refine ⟨rfl, ⟨[], ?_, List.Sublist.refl _⟩, ?_, fun _ _ => rfl, (Does.queue m q).fit hq hm⟩
  · simp [groups, BlockWriter.queue, hgroup]
  · simp [addresses, BlockWriter.queue, haddress]

theorem adds_queueNumber (address : Text) (format : NumberFormat) (x : Float) :
    Adds k [] [address] (queueNumber address format x) := by
  intro m y m' hm h
  have hrun := queueNumber_ok h
  exact adds_queue (q := .once (.numeric (Numeric.single address format x)))
    (orderly_numeric _) rfl rfl m () m' hm (by rw [hrun]; rfl)

theorem adds_forIn {bs : List β} {a : β → Action Unit} {name : β → Text}
    (ha : ∀ b ∈ bs, Adds k [] [name b] (a b)) :
    Adds k [] (bs.map name) (forIn bs PUnit.unit fun b _ => do
      a b
      pure (ForInStep.yield PUnit.unit)) := by
  induction bs with
  | nil => exact adds_pure _
  | cons b bs ih =>
    intro m x m' hm h
    obtain ⟨m₁, h₁, h₂⟩ := forIn_cons_ok h
    have hfirst := ha b List.mem_cons_self m () m₁ hm h₁
    exact hfirst.trans (ih (fun b hb => ha b (List.mem_cons_of_mem _ hb)) m₁ x m' hfirst.fit h₂)

theorem writes_writeBlock : Writes k [] [] writeBlock := by
  intro m x m' hm h
  obtain ⟨-, rfl⟩ := writeBlock_ok.mp h
  exact ⟨m, Loads.refl hm, rfl, rfl⟩

theorem writes_bind (ha : Adds k g s a)
    (hf : ∀ x, Writes k g' s' (f x)) : Writes k (g ++ g') (s ++ s') (a >>= f) := by
  intro m y m' hm h
  obtain ⟨x, m₁, h₁, h₂⟩ := run_bind_ok.mp h
  have hload := ha m x m₁ hm h₁
  obtain ⟨m₂, hload', hwriter⟩ := hf x m₁ y m' hload.fit h₂
  exact ⟨m₂, hload.trans hload', hwriter⟩

theorem writes_after (ha : Adds k [] [] a)
    (hf : ∀ x, Writes k g s (f x)) : Writes k g s (a >>= f) :=
  writes_bind ha hf

theorem writes_then (ha : Adds k g s a)
    (hf : ∀ x, Writes k [] [] (f x)) : Writes k g s (a >>= f) := by
  simpa using writes_bind ha hf

theorem writes_get {f : Machine → Action β} (hf : ∀ m, Writes k g s (f m)) :
    Writes k g s (get >>= f) := by
  intro m y m' hm h
  exact hf m m y m' hm h

theorem writes_rest (ha : Writes k g s a)
    (hf : ∀ x m y m', (f x).run m = .ok y m' → m'.writer = m.writer ∧ m'.rack = m.rack) :
    Writes k g s (a >>= f) := by
  intro m y m' hm h
  obtain ⟨x, m₁, h₁, h₂⟩ := run_bind_ok.mp h
  obtain ⟨m₂, hload, hwriter, hrack⟩ := ha m x m₁ hm h₁
  obtain ⟨hwriter', hrack'⟩ := hf x m₁ y m' h₂
  exact ⟨m₂, hload, hwriter'.trans hwriter, hrack'.trans hrack⟩

def sharedNames : List Text := ["X", "Y", "Z", "R"]

theorem shared_apart :
    ∀ name ∈ (["S", "T"] : List Text), ∀ r ∈ sharedNames, normalName r ≠ normalName name := by
  decide

theorem writes_selectPlane {pl : Plane} (hpl : planeOf? c = some pl) :
    Writes k [ModalGroup.plane.name] [] (selectPlane c) := by
  simp only [selectPlane, hpl]
  refine writes_after (adds_setVariable _ _) fun _ => ?_
  exact writes_then (adds_emitModal .plane pl.code) fun _ => writes_writeBlock

theorem writes_runSpindle (c : Command) :
    Writes sharedNames [ModalGroup.spindle.name] [] (runSpindle c) := by
  have hsetting {m : Machine} {d : Deed} (hd : SettingMay m d) : Silent sharedNames d := by
    cases hd
    trivial
  refine writes_after (adds_silent fun _ => (keepsTo_setSpeeds c).mono fun _ _ =>
    hsetting) fun _ => ?_
  refine writes_get fun m => ?_
  refine writes_after ?_ fun state => ?_
  · exact adds_silent fun _ => keepsTo_foldlM _ (fun state word =>
      (keepsTo_spindleWord state word).mono fun _ _ => hsetting) _
  refine writes_then (adds_emitModal .spindle state.code) fun _ => writes_get fun m => ?_
  refine writes_after (adds_onlyIf ?_) fun _ => writes_writeBlock
  exact adds_setRegister (shared_apart "S" (by simp)) _

theorem adds_switchCoolant (c : Command) (kind : Text) :
    Adds k [ModalGroup.coolant.name] [] (switchCoolant c kind) := by
  have hkind (kind : Text) (f : Function) : Adds k [ModalGroup.coolant.name] [] (do
      setVariable Variable.coolantKind (.text kind)
      emitModal .coolant f) :=
    adds_bind (adds_setVariable _ _) fun _ => adds_emitModal .coolant f
  unfold switchCoolant
  repeat' split
  all_goals first | exact adds_emitModal .coolant _ | exact hkind _ _

theorem writes_runCoolant (c : Command) : Writes k [ModalGroup.coolant.name] [] (runCoolant c) :=
  writes_get fun _ => writes_then (adds_switchCoolant c _) fun _ => writes_writeBlock

theorem adds_queueTool : Adds k [] ["T"] (queueRegister "T") := adds_queue rfl rfl rfl

theorem adds_enterTool (t : Tool) : Adds k [] [] (enterTool t) := by
  refine adds_silent fun _ => keepsTo_modify fun m _ => ?_
  split
  · exact Course.refl
  · exact Course.one (d := .book) trivial (.book m _ m.stats m.cycles m.last m.log)

theorem writes_loadTool {number : Float} (hc : c.numeric = number :: rest)
    (hfit : Fit m) (hholds : m.holdsTool (Number.truncate (Number.round number)) = false)
    (h : (loadTool c).run m = .ok u m') :
    ∃ m₁, Loads sharedNames [] ["T"] m m₁ ∧ m'.writer = m₁.wroteBlock.writer ∧
      m'.rack = m₁.wroteBlock.rack := by
  simp only [loadTool, hc] at h
  obtain ⟨_, _, hget, h⟩ := run_bind_ok.mp h
  cases hget
  rw [if_neg (by simp [hholds])] at h
  refine (writes_after (adds_enterTool _) fun _ => writes_after (adds_setVariable _ _) fun _ =>
    writes_after (adds_count _) fun _ => ?_) m u m' hfit h
  refine writes_after (adds_setRegister (shared_apart "T" (by simp)) _) fun _ => ?_
  refine writes_then adds_queueTool fun _ => writes_after (adds_emit _) fun _ => ?_
  refine writes_after (adds_silent fun _ => keepsTo_forget fun _ => trivial) fun _ => ?_
  exact writes_after (adds_setVariable _ _) fun _ => writes_writeBlock

theorem writes_selectTool {number : Float} (hc : c.numeric = number :: rest) :
    Writes sharedNames [] ["T"] (selectTool c) := by
  simp only [selectTool, hc]
  refine writes_after (adds_setRegister (shared_apart "T" (by simp)) _) fun _ => ?_
  exact writes_then adds_queueTool fun _ => writes_writeBlock

theorem writes_dwell {amount : Float} (hc : c.numeric = amount :: rest) :
    Writes k [] ["X"] (dwell c) := by
  have haddress : dwellFormat.address = "X" := by decide
  simp only [dwell, hc]
  refine writes_get fun m => writes_after (adds_emit _) fun _ => ?_
  refine writes_then (haddress ▸ adds_queueNumber _ _ _) fun _ => writes_get fun m => ?_
  exact writes_after (adds_setVariable _ _) fun _ => writes_writeBlock

theorem adds_switchOff (group : ModalGroup) (f : Function) :
    Adds k [group.name] [] (switchOff group f) :=
  adds_get fun _ => adds_onlyIf (adds_emitModal group f)

theorem writes_wrapUp (c : Command) :
    Writes k [ModalGroup.spindle.name, ModalGroup.coolant.name] [] (wrapUp c) := by
  refine writes_bind (g := [_]) (s := []) (adds_switchOff .spindle .spindleOff) fun _ => ?_
  refine writes_then (adds_switchOff .coolant .coolantOff) fun _ => writes_get fun m => ?_
  refine writes_after (adds_onlyIf (adds_emit _)) fun _ =>
    writes_after (adds_setVariable _ _) fun _ => ?_
  exact writes_after (adds_note _ _ _) fun _ => writes_writeBlock

theorem writes_callCycle (name : Text) (params : Parameters) :
    Writes k [] [] (callCycle name params) := by
  have hkeep (c : CycleMemo) (p : Profile) : KeepsTo p (fun _ d => Silent k d) (keepCycle c) :=
    keepsTo_keepCycle (fun _ => trivial) c
  refine writes_after (adds_count _) fun _ => ?_
  refine writes_after (adds_silent fun _ => keepsTo_openCycle (fun _ => trivial) name) fun c => ?_
  refine writes_after (adds_silent (hkeep _)) fun _ =>
    writes_after (adds_silent fun _ => ?_) fun _ => ?_
  · refine keepsTo_queue fun _ => ⟨?_, rfl, rfl⟩
    change (Word.code _).forcedToken.1 ≠ []
    rw [Word.forcedToken_code]
    exact line_ne_nil c params
  · refine writes_rest writes_writeBlock fun _ m _ m' h => ?_
    cases h
    exact ⟨rfl, rfl⟩

theorem writes_cancel : Writes k [] [] (do
    emit .cycleCancel
    clearCycle
    setVariable Variable.restate (.flag true)
    writeBlock) := by
  have hclear (p : Profile) : KeepsTo p (fun _ d => Silent k d) clearCycle := by
    refine keepsTo_bind (keepsTo_forget fun _ => trivial) fun _ => ?_
    refine keepsTo_bind (keepsTo_forget fun _ => trivial) fun _ => ?_
    exact keepsTo_bind (keepsTo_removeVariable fun _ => trivial) fun _ =>
      keepsTo_removeVariable fun _ => trivial
  refine writes_after (adds_emit _) fun _ => writes_after (adds_silent hclear) fun _ => ?_
  exact writes_after (adds_setVariable _ _) fun _ => writes_writeBlock

theorem adds_homeAxis (a : Axis) : Adds k [] [a.register] (do
    let format := (← get).format a.register
    queueNumber format.address format 0) := by
  intro m x m' hm h
  have hname : a.register ∈ trackedNames ∧ normalName a.register = a.register := by
    cases a <;> decide
  have haddress : (m.format a.register).address = a.register := by
    obtain ⟨n, hn⟩ := hm.has a.register hname.1
    rw [format, hn]
    exact (hm.named.find? hn).2.trans hname.2
  have hrun :=
    adds_queueNumber (k := k) (m.format a.register).address (m.format a.register) 0 m x m' hm h
  rwa [haddress] at hrun

theorem writes_moveHome (axes : List Axis) :
    Writes k [ModalGroup.motion.name] (axes.map Axis.register) (moveHome axes) := by
  refine writes_bind (g := [_]) (s := []) (adds_emitModal .motion .rapid) fun _ => ?_
  refine writes_after (adds_emit _) fun _ => ?_
  refine writes_then (adds_forIn fun a _ => adds_homeAxis a) fun _ => ?_
  exact writes_after (adds_count _) fun _ => writes_writeBlock

theorem keepsTo_arcWord {p : Profile} (name : Text) (x : Float) :
    KeepsTo p (fun _ d => Silent [] d) (setArcWord name x) :=
  keepsTo_bind (keepsTo_setRegister (fun _ _ => by simp [Silent]) x) fun _ =>
    keepsTo_flag fun _ _ _ => by simp [Silent]

theorem adds_emitArcWords (f : Frame) (c : Circle) (winding : Winding) (start : Point) :
    Adds [] [ModalGroup.motion.name] [] (emitArcWords f c winding start) := by
  refine adds_get fun m => adds_then (adds_emitModal .motion winding.code) fun _ =>
    adds_silent fun p => ?_
  refine keepsTo_bind (keepsTo_flag fun _ _ _ => by simp [Silent]) fun _ => ?_
  refine keepsTo_get fun _ _ => keepsTo_ite (keepsTo_arcWord "R" _) ?_
  refine keepsTo_bind (keepsTo_forIn _ fun a => ?_) fun _ => keepsTo_pure _
  exact keepsTo_bind (keepsTo_arcWord a.offset _) fun _ => keepsTo_pure _

theorem followCircle_loads {start : Point} {rapid arc : Bool} (hm : Fit m)
    (h : (followCircle start rapid).run m = .ok arc m') :
    Loads [] (if arc then [ModalGroup.motion.name] else []) [] m m' := by
  have hwarn (text : Text) (details : List (Text × Detail)) {m m' : Machine} (hm : Fit m)
      (h : (do note .warning text details; return false : Action Bool).run m = .ok arc m') :
      Loads [] (if arc then [ModalGroup.motion.name] else []) [] m m' := by
    cases h
    exact adds_note _ _ _ m () _ hm rfl
  rw [followCircle_eq] at h
  obtain ⟨_, _, hget, h⟩ := run_bind_ok.mp h
  cases hget
  split at h
  · cases h
    exact Loads.refl hm
  · obtain ⟨_, _, hdrop, h⟩ := run_bind_ok.mp h
    cases hdrop
    have hdropped : Loads [] [] [] m { m with circle := none } :=
      (Does.circle m none).silent trivial hm
    split at h
    · exact hdropped.trans (hwarn _ _ hdropped.fit h)
    · dsimp only at h
      split at h
      · obtain ⟨_, m₁, harc, h⟩ := run_bind_ok.mp h
        cases h
        exact hdropped.trans (adds_emitArcWords _ _ _ _ _ () m' hdropped.fit harc)
      · exact hdropped.trans (hwarn _ _ hdropped.fit h)

theorem adds_takePath (start : Point) (rapid : Bool) :
    Adds [] [ModalGroup.motion.name] [] (takePath start rapid) := by
  intro m x m' hm h
  obtain ⟨arc, m₁, h₁, h⟩ := run_bind_ok.mp h
  have hcircle := followCircle_loads hm h₁
  have hrest : Adds [] [] [] (do
      onlyIf rapid (setVariable Variable.motion (.text Motion.linear))
      count fun s => { s with motions := s.motions + 1 }) :=
    adds_bind (adds_onlyIf (adds_setVariable _ _)) fun _ => adds_count _
  cases arc with
  | true => exact hcircle.trans (hrest m₁ x m' hcircle.fit h)
  | false =>
    have hstraight : Adds [] [ModalGroup.motion.name] [] (do
        emitStraight rapid
        onlyIf rapid (setVariable Variable.motion (.text Motion.linear))
        count fun s => { s with motions := s.motions + 1 }) :=
      adds_then (adds_get fun _ => adds_onlyIf (adds_emitModal .motion _)) fun _ => hrest
    exact hcircle.trans (hstraight m₁ x m' hcircle.fit h)

theorem adds_queueMotion (start : Point) :
    Adds [] [ModalGroup.motion.name] [] (queueMotion start) := by
  have hrestate {m : Machine} {d : Deed} (hd : RestateMay m d) : Silent [] d := by
    cases hd <;> simp [Silent]
  have hadapt {p : Profile} {m : Machine} {d : Deed} (hd : AdaptMay p m d) : Silent [] d := by
    cases hd with
    | cancel _ _ known => exact ⟨known, rfl, rfl⟩
    | _ => simp [Silent]
  refine adds_bind (g := []) (s := []) ?_ fun _ => adds_get fun m =>
    adds_bind (g := []) (s := []) ?_ fun _ => ?_
  · exact adds_silent fun _ => keepsTo_restatePosition.mono fun _ _ => hrestate
  · exact adds_silent fun _ => keepsTo_adaptToCycle.mono fun _ _ => hadapt
  · exact adds_takePath start _

theorem queueMotion_repeated {start : Point} (hcoded : m.profile.Coded) (hm : Sound m)
    (hk : InMode m .repeated)
    (hr : ∀ a ∈ (["X", "Y", "Z"] : List Text), normalName r ≠ normalName a)
    (h : (queueMotion start).run m = .ok u m') :
    m'.rack.registers.find? r = m.rack.registers.find? r := by
  have hflag (rack : Rack) (hi : rack.registers.Indexed) (b : Bool) (a : Text)
      (ha : a ∈ (["X", "Y", "Z"] : List Text)) :
      (rack.flag b (.register a)).registers.Indexed ∧
        (rack.flag b (.register a)).registers.find? r = rack.registers.find? r := by
    rw [Rack.flag_register]
    exact ⟨hi.modify a _, Registers.find?_modify_other hi (hr a ha)⟩
  have hrestated : m.restated.rack.registers.find? r = m.rack.registers.find? r := by
    unfold restated
    split
    · have hx := hflag m.rack hm.indexed true "X" (by simp)
      have hy := hflag _ hx.1 true "Y" (by simp)
      have hz := hflag _ hy.1 true "Z" (by simp)
      exact hz.2.trans (hy.2.trans hx.2)
    · rfl
  obtain ⟨hsound, hidles⟩ := restated_idles hm
  have hmode := hidles.inMode hk
  have hadapted : m.restated.adapted =
      { m.restated with rack := m.restated.rack.flag false (.register "Z") } := by
    simp [adapted, hmode.1, hmode.once_iff]
  have hpath := queueMotion_ok hcoded h
  rw [hadapted] at hpath
  rw [takePath_drilling (by exact hmode.1) hpath, (hflag _ hsound.indexed false "Z" (by simp)).2,
    hrestated]

/-- What a motion queues before its block. While a cycle is repeated the depth is
hidden, and no arc is made. -/
theorem moveTo_loads (hcoded : m.profile.Coded) (hm : Fit m) (hc : c.numeric.isEmpty = false)
    (h : (moveTo c).run m = .ok u m') : ∃ m₁, Loads [] [ModalGroup.motion.name] [] m m₁ ∧
      Fit m₁.wroteBlock ∧ callRepeated.run m₁.wroteBlock = .ok () m' ∧
      (InMode m .repeated → m₁.flagged "Z" = false ∧ m₁.flagged "R" = m.flagged "R") := by
  obtain ⟨m₁, m₂, m₃, h₁, h₂, h₃, taken, hcall⟩ := moveTo_ok hc h
  have haxis {a : Machine} {d : Deed} (hd : AxisMay a d) : Silent ["R"] d := by
    have hapart : ∀ name ∈ (["X", "Y", "Z", "A", "B"] : List Text), ∀ r ∈ (["R"] : List Text),
        normalName r ≠ normalName name := by decide
    cases hd with
    | coordinate name x hname => exact hapart name hname
  have hcourse : Course AxisMay m m₂ :=
    (keepsTo_setCoordinates (p := m.profile) c m rfl () m₁ h₁).trans
    (keepsTo_setToolAxis (p := m₁.profile) c m₁ rfl () m₂ h₂)
  have hload : Loads ["R"] [] [] m m₂ := hcourse.silent (fun _ _ => haxis) hm
  have hcoordinates : Loads [] [] [] m m₂ := { hload with kept := by simp }
  have hmotion := hcoordinates.trans (adds_queueMotion _ m₂ () m₃ hload.fit h₃)
  refine ⟨m₃, hmotion, (Does.block m₃ taken).fit trivial hmotion.fit, hcall, fun hrepeated => ?_⟩
  have hmode : InMode m₂ .repeated :=
    (hcourse.idles (fun _ _ h => h.idle) hm.sound).2.inMode hrepeated
  have hcoded₂ : m₂.profile.Coded := hcourse.profile ▸ hcoded
  refine ⟨(queueMotion_flagged hcoded₂ hload.fit.sound hmode h₃).1 rfl, ?_⟩
  rw [Machine.flagged, queueMotion_repeated hcoded₂ hload.fit.sound hmode (by decide) h₃,
    hload.kept "R" (by simp), Machine.flagged]

def cannedAddresses (d : DrillCycle) : List Text :=
  ["Z", "R"] ++ if d.isDeep && d.peck != 0 then ["Q"] else []

theorem cannedWords_groups (m : Machine) (d : DrillCycle) :
    (m.cannedWords d).filterMap Queued.group? = [ModalGroup.cycle.name] := by
  unfold cannedWords
  split <;> rfl

theorem cannedWords_addresses (m : Machine) (d : DrillCycle) :
    (m.cannedWords d).filterMap Queued.address? = cannedAddresses d := by
  unfold cannedWords cannedAddresses
  split <;> rfl

theorem started_loads (hcoded : m.profile.Coded) (hm : Fit m) (d : DrillCycle) :
    Loads k [ModalGroup.cycle.name] (cannedAddresses d) m (m.started d true) := by
  have hstarted : m.started d true = (m.marked d true).canned d := by simp [started, announces]
  have hsound := (started_turns (k := .off) (c := d) true hcoded hm.sound).sound
  rw [hstarted] at hsound ⊢
  have hpending : ((m.marked d true).canned d).writer.pending = m.writer.pending ++
      (m.marked d true).cannedWords d :=
    rfl
  refine ⟨rfl, ⟨[ModalGroup.cycle.name], ?_, List.Sublist.refl _⟩, ?_, fun _ _ => rfl, hsound,
    hm.has, hm.tracked, hm.named⟩
  · rw [groups_queued hpending, cannedWords_groups]
  · rw [addresses_queued hpending, cannedWords_addresses]

end Toolpath.Machine
