import Toolpath.Proofs.CheckedActions

/-!
# Machines at their start

Every register of an accepted profile has a name of letters, so an accepted profile always starts a
machine. All its registers hold zero, nothing is queued, and its block numbers grow: it is intact.
-/

namespace Toolpath

open Registers (normalName)

theorem exists_foldlM {ε σ α : Type} {f : σ → α → Except ε σ} (as : List α)
    (hstep : ∀ a ∈ as, ∀ s, ∃ s', f s a = .ok s') (s : σ) : ∃ s', as.foldlM f s = .ok s' := by
  induction as generalizing s with
  | nil => exact ⟨s, rfl⟩
  | cons a as ih =>
    obtain ⟨s₁, hs₁⟩ := hstep a List.mem_cons_self s
    obtain ⟨s', hs'⟩ := ih (fun b hb => hstep b (List.mem_cons_of_mem a hb)) s₁
    exact ⟨s', by rw [List.foldlM_cons, hs₁]; exact hs'⟩

theorem Schema.normalName_ne_nil {t : Text} (h : Schema.isRegisterName t = true) :
    normalName t ≠ [] := by
  simp only [isRegisterName, Bool.and_eq_true, List.all_eq_true] at h
  obtain ⟨⟨hlength, -⟩, hletters⟩ := h
  have hcodes : ∀ n < 256, (Text.isUpper (UInt8.ofNat n) || Text.isLower (UInt8.ofNat n)) = true →
      n < 128 ∧ isBlank (Char.ofNat n) = false := by decide +kernel
  have hlow (b : UInt8) (hb : b ∈ t) : b.toNat < 128 ∧ isBlank (Char.ofNat b.toNat) = false :=
    hcodes b.toNat b.toNat_lt (by rw [UInt8.ofNat_toNat]; exact hletters b hb)
  have htrim : t.trim = t :=
    Text.trim_of_low (fun b hb => hlow b (List.mem_of_head? hb)) fun b hb =>
      hlow b (List.mem_of_getLast? hb)
  apply Text.upper_ne_nil
  rw [htrim]
  rintro rfl
  simp at hlength

namespace Machine

variable {N : Float → Prop} {p : Profile} {m : Machine}

theorem exists_ensure_usual (rs : Registers) {name : Text}
    (hname : name ∈ Text.ofString "T" :: trackedNames) :
    ∃ rs', rs.ensure name = .ok rs' := by
  have hletters : ∀ name ∈ Text.ofString "T" :: trackedNames,
      Schema.isRegisterName name = true := by decide
  exact Registers.exists_ensure rs (Schema.normalName_ne_nil (hletters name hname))

theorem exists_initialRegisters (hp : p.Named) : ∃ rs, initialRegisters p = .ok rs := by
  obtain ⟨rs, hrs⟩ : ∃ rs, p.configure {} = .ok rs := by
    apply exists_foldlM
    intro e he rs
    exact Registers.exists_configure rs
      (Schema.normalName_ne_nil (hp e (List.mem_mergeSort.mp he))) _ _
  obtain ⟨rs', hrs'⟩ := exists_foldlM trackedNames
    (fun name hname rs => exists_ensure_usual rs (List.mem_cons_of_mem _ hname)) rs
  exact ⟨rs', bind_ok.mpr ⟨rs, hrs, hrs'⟩⟩

theorem exists_start (hp : p.Named) (occasion : Occasion) (outlet : Outlet) :
    ∃ m, start p occasion outlet = .ok m := by
  obtain ⟨rs, hrs⟩ := exists_initialRegisters hp
  obtain ⟨w, hw⟩ : ∃ w, trackedNames.foldlM (fun w name => w.track (some (.register name)))
      p.blockWriter = .ok w :=
    ⟨_, track_all (show (([] : List WordRef) ++ trackedNames.map WordRef.register).Nodup by decide)⟩
  obtain ⟨rs', hrs'⟩ :=
    exists_ensure_usual (w.resetAll { registers := rs }).2.registers List.mem_cons_self
  exact ⟨_, bind_ok.mpr ⟨rs, hrs, bind_ok.mpr ⟨w, hw, bind_ok.mpr ⟨rs', hrs', rfl⟩⟩⟩⟩

theorem step_ne_zero (n : Numbering) (separator : Text) (comments : CommentStyle) :
    (BlockWriter.new n separator comments).number.step ≠ 0 := by
  unfold BlockWriter.new
  dsimp only
  split
  · decide
  · assumption

theorem start_others {occasion : Occasion} {outlet : Outlet} (h : start p occasion outlet = .ok m) :
    m.circle = none ∧ m.vars = initialVariables ∧ m.writer.number = p.blockWriter.number := by
  obtain ⟨rs, rs', -, -, rfl⟩ := start_ok h
  exact ⟨rfl, rfl, rfl⟩

theorem Opens.intact (hcoded : p.Coded) (hzero : N 0) (h : Opens p m) : m.Intact N := by
  have hfresh := h.fresh
  obtain ⟨occasion, outlet, m₀, strict, subject, log, skip, hstart, rfl⟩ := h
  obtain ⟨hcircle, hvars, hnumber⟩ := start_others hstart
  have hinitial : initialVariables.Intact N := by
    refine ⟨fun c hc => ?_, ?_⟩
    · cases hc
    · exact hzero
  constructor
  · rw [hfresh.profile]
    exact hcoded
  · refine ⟨hfresh.registers.indexed, hfresh.has, fun hn => ?_, fun hn => ?_⟩
    · rw [(hfresh.registers.find? hn).1]
      decide
    · rw [(hfresh.registers.find? hn).1]
      exact hzero
  · refine ⟨fun n hn => ?_, ?_⟩
    · rw [hfresh.pending] at hn
      cases hn
    · change m₀.writer.number.step ≠ 0
      rw [hnumber]
      exact step_ne_zero _ _ _
  · change Memo.Intact N (if skip then m₀.vars.set Variable.skipSameTool (.flag true) else m₀.vars)
    rw [hvars]
    split
    · exact hinitial.set (by decide) (by decide)
    · exact hinitial
  · intro c hc
    cases hcircle.symm.trans hc

end Machine

end Toolpath
