import Toolpath.Console.Jobs
import Toolpath.Proofs.PhysicalLines

/-!
# Where the programs of several inputs go

Two spellings of a path lead to the same file exactly when both are rooted or neither is, and
their clean segments agree. Several inputs get one job each, in order, and no two jobs share an
output. Nothing compares an output with the inputs, so an input may be overwritten.
-/

namespace Toolpath

open Text (slash)

theorem Text.not_mem_of_mem_split {sep : UInt8} {t s : Text} (h : s ∈ split sep t) : sep ∉ s := by
  rw [split_eq_splitOn] at h
  induction t generalizing s with
  | nil =>
    obtain rfl : s = [] := by simpa using h
    exact List.not_mem_nil
  | cons b t ih =>
    obtain ⟨p, ps, hps⟩ := List.exists_cons_of_ne_nil (List.splitOn_ne_nil sep t)
    by_cases hb : b = sep
    · rcases (by simpa [List.splitOn_cons_eq_if_modifyHead, hb] using h : s = [] ∨ _) with rfl | h
      · exact List.not_mem_nil
      · exact ih h
    · rcases (by simpa [List.splitOn_cons_eq_if_modifyHead, hb, hps] using h :
        s = b :: p ∨ s ∈ ps) with rfl | h
      · simpa [Ne.symm hb] using ih (s := p) (by simp [hps])
      · exact ih (by simp [hps, h])

namespace Path

def segments (p : Text) : List Text := ((Text.split slash p).foldl (step (isRooted p)) []).reverse

/-- A segment that a clean path may have. -/
structure Plain (s : Text) : Prop where
  nonempty : s ≠ []
  whole : slash ∉ s
  moves : s ≠ dot

variable {rooted : Bool} {segs : List Text}

theorem step_plain {reached : List Text} {s : Text}
    (h : ∀ x ∈ reached, Plain x) (hs : slash ∉ s) : ∀ x ∈ step rooted reached s, Plain x := by
  have hup : Plain up := ⟨by decide, by decide, by decide⟩
  intro x hx
  unfold step at hx
  split at hx
  · exact h x hx
  next hskip =>
    split at hx
    · split at hx
      · split at hx
        · cases hx
        · exact List.mem_singleton.mp hx ▸ hup
      next last before =>
        split at hx
        · rcases List.mem_cons.mp hx with rfl | hx
          · exact hup
          · exact h x hx
        · exact h x (List.mem_cons_of_mem _ hx)
    · rcases List.mem_cons.mp hx with rfl | hx
      · simp only [Bool.or_eq_true, List.isEmpty_iff, decide_eq_true_eq, not_or] at hskip
        exact ⟨hskip.1, hs, hskip.2⟩
      · exact h x hx

theorem segments_plain (p : Text) : ∀ s ∈ segments p, Plain s := by
  have hpieces : ∀ (pieces reached : List Text), (∀ s ∈ pieces, slash ∉ s) →
      (∀ s ∈ reached, Plain s) → ∀ s ∈ pieces.foldl (step (isRooted p)) reached, Plain s := by
    intro pieces
    induction pieces with
    | nil => exact fun reached _ hreached => hreached
    | cons s pieces ih =>
      intro reached hpieces hreached
      exact ih _ (fun x hx => hpieces x (List.mem_cons_of_mem _ hx))
        (step_plain hreached (hpieces s (List.mem_cons_self ..)))
  intro s hs
  exact hpieces _ [] (fun x => Text.not_mem_of_mem_split) (by simp) s (List.mem_reverse.mp hs)

def spell (rooted : Bool) (segs : List Text) : Text :=
  let body := Text.join [slash] segs
  if rooted then slash :: body else if body.isEmpty then dot else body

theorem clean_eq (p : Text) : clean p = spell (isRooted p) (segments p) := rfl

theorem split_join (h : ∀ s ∈ segs, Plain s) (hne : segs ≠ []) :
    Text.split slash (Text.join [slash] segs) = segs := by
  rw [Text.split_eq_splitOn]
  exact List.splitOn_intercalate slash (fun s hs => (h s hs).whole) hne

theorem join_cons (s : Text) (segs : List Text) : ∃ u, Text.join [slash] (s :: segs) = s ++ u := by
  cases segs with
  | nil => exact ⟨[], rfl⟩
  | cons s' segs => exact ⟨_, List.intercalate_cons_cons.trans (List.append_assoc ..)⟩

theorem isRooted_spell (h : ∀ s ∈ segs, Plain s) : isRooted (spell rooted segs) = rooted := by
  cases rooted with
  | true => rfl
  | false =>
    cases segs with
    | nil => rfl
    | cons s segs =>
      obtain ⟨u, hu⟩ := join_cons s segs
      have hs := h s (List.mem_cons_self ..)
      obtain ⟨b, s, rfl⟩ := List.exists_cons_of_ne_nil hs.nonempty
      have hb : b ≠ slash := fun hb => hs.whole (hb ▸ List.mem_cons_self ..)
      simp [spell, hu, isRooted, hb]

theorem filter_split_spell (h : ∀ s ∈ segs, Plain s) :
    (Text.split slash (spell rooted segs)).filter (fun s => s ≠ [] ∧ s ≠ dot) = segs := by
  have hall : segs.filter (fun s => s ≠ [] ∧ s ≠ dot) = segs :=
    List.filter_eq_self.mpr fun s hs => decide_eq_true ⟨(h s hs).nonempty, (h s hs).moves⟩
  cases segs with
  | nil => cases rooted <;> decide
  | cons s segs =>
    have hsplit := split_join h (by simp)
    cases rooted with
    | true =>
      have hfront : Text.split slash (slash :: Text.join [slash] (s :: segs)) =
          [] :: s :: segs := by
        rw [← hsplit, ← List.nil_append (slash :: _), Text.split_append_cons]
        simp only [hsplit]
        rfl
      rw [spell, if_pos rfl, hfront, List.filter_cons_of_neg (by simp), hall]
    | false =>
      obtain ⟨u, hu⟩ := join_cons s segs
      have hbody : (Text.join [slash] (s :: segs)).isEmpty = false := by
        simp [hu, (h s (List.mem_cons_self ..)).nonempty]
      simp only [spell, hbody, Bool.false_eq_true, if_false, hsplit, hall]

theorem clean_eq_clean_iff (p q : Text) :
    clean p = clean q ↔ isRooted p = isRooted q ∧ segments p = segments q := by
  refine ⟨fun h => ?_, fun h => by rw [clean_eq, clean_eq, h.1, h.2]⟩
  have hrooted := congrArg isRooted h
  have hsegments := congrArg (fun t => (Text.split slash t).filter (fun s => s ≠ [] ∧ s ≠ dot)) h
  simp only [clean_eq, isRooted_spell (segments_plain _)] at hrooted
  simp only [clean_eq, filter_split_spell (segments_plain _)] at hsegments
  exact ⟨hrooted, hsegments⟩

theorem isRooted_append {d : Text} (hd : d ≠ []) (s : Text) : isRooted (d ++ s) = isRooted d := by
  obtain ⟨b, d, rfl⟩ := List.exists_cons_of_ne_nil hd
  rfl

theorem segments_append {d : Text} (hd : d ≠ []) (s : Text) :
    segments (d ++ slash :: s) =
      ((Text.split slash s).foldl (step (isRooted d)) (segments d).reverse).reverse := by
  rw [segments, Text.split_append_cons, List.foldl_append, isRooted_append hd, segments,
    List.reverse_reverse]

theorem clean_ne_nil (p : Text) : clean p ≠ [] := by
  rw [clean_eq, spell]
  split
  · simp
  · split
    · decide
    next h => simpa using h

theorem base_of_not_mem {p : Text} (hne : p ≠ []) (h : slash ∉ p) : base p = p := by
  have hall : ∀ b ∈ p.reverse, b ≠ slash := fun b hb hslash =>
    h (hslash ▸ List.mem_reverse.mp hb)
  have hstripped : p.dropWhileBack (· = slash) = p := by
    rw [Text.dropWhileBack, List.dropWhile_eq_self_iff.mpr, List.reverse_reverse]
    intro hlength
    simpa using hall _ (List.getElem_mem hlength)
  unfold base
  simp only [hstripped, List.isEmpty_iff, if_neg hne]
  rw [List.takeWhile_eq_self_iff.mpr (fun b hb => by simpa using hall b hb), List.reverse_reverse]

theorem base_cases (p : Text) : base p = [slash] ∨ slash ∉ base p := by
  unfold base
  split
  · exact .inr (by decide)
  · dsimp only
    split
    · exact .inl rfl
    · refine .inr fun h => ?_
      simpa using List.mem_takeWhile_imp (List.mem_reverse.mp h)

theorem stem_cases (p : Text) : stem p = [slash] ∨ slash ∉ stem p := by
  unfold stem
  split
  · exact .inr (by decide)
  · rcases base_cases p with h | h
    · rw [h]
      exact .inl (by decide)
    · refine .inr fun hmem => h ?_
      unfold Text.dropBack Text.dropBack? at hmem
      split at hmem
      · exact List.mem_of_mem_take hmem
      · exact hmem

def outputName (p : Text) : Text := base (stem p ++ outputExtension)

theorem outputName_cases (p : Text) :
    outputName p = outputExtension ∧ stem p = [slash] ∨
      outputName p = stem p ++ outputExtension ∧ slash ∉ outputName p := by
  rcases stem_cases p with h | h
  · refine .inl ⟨?_, h⟩
    rw [outputName, h]
    decide
  · have hwhole : slash ∉ stem p ++ outputExtension := by
      rw [List.mem_append, not_or]
      exact ⟨h, by decide⟩
    have hname : outputName p = stem p ++ outputExtension :=
      base_of_not_mem (List.append_ne_nil_of_right_ne_nil _ (by decide)) hwhole
    exact .inr ⟨hname, hname ▸ hwhole⟩

theorem suffix_outputName (p : Text) : outputExtension <:+ outputName p := by
  rcases outputName_cases p with h | h
  · exact h.1 ▸ List.suffix_refl _
  · exact h.1 ▸ List.suffix_append ..

theorem foldl_step_output (p : Text) (rooted : Bool) (reached : List Text) :
    (Text.split slash (stem p ++ outputExtension)).foldl (step rooted) reached =
      outputName p :: reached := by
  rcases outputName_cases p with ⟨hname, hstem⟩ | ⟨hname, hwhole⟩
  · rw [hname, hstem]
    rfl
  · have hne : ∀ s : Text, s.length < 3 → outputName p ≠ s := fun s hs heq =>
      absurd (suffix_outputName p).length_le (Nat.not_le.mpr (heq ▸ hs))
    rw [← hname, Text.split_of_not_mem hwhole, List.foldl_cons, List.foldl_nil]
    simp [step, hne [] (by decide), hne dot (by decide), hne up (by decide)]

def LeadsTo (p dir name : Text) : Prop :=
  isRooted p = isRooted dir ∧ segments p = segments dir ++ [name]

end Path

namespace Job

def home (directory input : Text) : Text :=
  if directory.isEmpty then Path.directory input else directory

theorem home_ne_nil (directory input : Text) : home directory input ≠ [] := by
  unfold home
  split
  · exact Path.clean_ne_nil _
  next h => simpa using h

theorem outputOf_eq (directory input : Text) : outputOf directory input =
    Path.clean (home directory input ++ slash :: (Path.stem input ++ Path.outputExtension)) := by
  change Path.join (home directory input) _ = _
  exact if_neg (by simpa using home_ne_nil directory input)

theorem outputOf_eq_clean_iff (directory input p : Text) :
    outputOf directory input = Path.clean p ↔
      Path.LeadsTo p (home directory input) (Path.outputName input) := by
  have hne := home_ne_nil directory input
  rw [outputOf_eq, Path.clean_eq_clean_iff, Path.isRooted_append hne, Path.segments_append hne,
    Path.foldl_step_output, List.reverse_cons, List.reverse_reverse]
  exact and_congr eq_comm eq_comm

theorem planOnto_ok {directory : Text} {inputs : List Text} {planned jobs : List Job}
    (h : planOnto directory planned inputs = .ok jobs) :
    jobs = planned ++ inputs.map (fun i => ⟨i, outputOf directory i⟩) ∧
      ((planned.map output).Nodup → (jobs.map output).Nodup) := by
  induction inputs generalizing planned with
  | nil =>
    cases h
    simp
  | cons i inputs ih =>
    rw [planOnto] at h
    split at h
    · cases h
    · split at h
      · cases h
      next hnew =>
        obtain ⟨hjobs, hnodup⟩ := ih h
        refine ⟨by simpa using hjobs, fun hplanned => hnodup ?_⟩
        rw [List.map_append, List.nodup_append]
        refine ⟨hplanned, by simp, ?_⟩
        simpa using hnew

theorem plan_ok {inputs : List Text} {directory : Text} {unmade : Option Text} {jobs : List Job}
    (hmany : 2 ≤ inputs.length) (h : plan inputs directory unmade = .ok jobs) :
    planOnto directory [] inputs = .ok jobs := by
  unfold plan at h
  split at h
  · exact absurd hmany (by simp)
  · split at h
    · cases h
    · exact h

/-- Several inputs get one job each, in order, and the outputs are all different. No output is an
input exactly when no input leads to a file of an output's name in that output's directory, which
is so when no input has the extension of outputs. -/
theorem inputs_kept_iff (inputs : List Text) (directory : Text) (unmade : Option Text)
    {jobs : List Job} (hmany : 2 ≤ inputs.length) (h : plan inputs directory unmade = .ok jobs) :
    jobs.map input = inputs ∧ (jobs.map output).Nodup ∧
      ((∀ j ∈ jobs, ∀ i ∈ inputs, j.output ≠ Path.clean i) ↔
        ∀ k ∈ inputs, ∀ i ∈ inputs, ¬ Path.LeadsTo i (home directory k) (Path.outputName k)) ∧
      ((∀ i ∈ inputs, ∀ s, (Path.segments i).getLast? = some s → ¬ Path.outputExtension <:+ s) →
        ∀ j ∈ jobs, ∀ i ∈ inputs, j.output ≠ Path.clean i) := by
  obtain ⟨rfl, hnodup⟩ := planOnto_ok (plan_ok hmany h)
  have hkept : (∀ j ∈ inputs.map (fun k => (⟨k, outputOf directory k⟩ : Job)), ∀ i ∈ inputs,
      j.output ≠ Path.clean i) ↔
      ∀ k ∈ inputs, ∀ i ∈ inputs, ¬ Path.LeadsTo i (home directory k) (Path.outputName k) := by
    simp only [List.forall_mem_map, ne_eq, outputOf_eq_clean_iff]
  refine ⟨by simp [Function.comp_def], hnodup List.nodup_nil, hkept, fun hextension => hkept.mpr ?_⟩
  rintro k - i hi ⟨-, hsegments⟩
  exact hextension i hi _ (by rw [hsegments, List.getLast?_concat]) (Path.suffix_outputName k)

theorem inputs_kept_iff_directory :
    let inputs : List Text := ["a/../one.apt", "nc/two.cl"]
    ∃ jobs, plan inputs "nc" none = .ok jobs ∧ jobs.map input = inputs ∧
      (jobs.map output).Nodup ∧ ∀ j ∈ jobs, ∀ i ∈ inputs, j.output ≠ Path.clean i := by
  intro inputs
  obtain ⟨hinputs, hnodup, -, hkept⟩ := inputs_kept_iff inputs "nc" none (by decide) rfl
  exact ⟨_, rfl, hinputs, hnodup, hkept (by decide +kernel)⟩

/-- An input that is called like an output is its own output. -/
theorem input_overwritten :
    ∃ jobs, plan ["a.nc", "b.apt"] [] none = .ok jobs ∧
      ∃ j ∈ jobs, ∃ i ∈ jobs.map input, j.output = Path.clean i :=
  ⟨_, rfl, by decide +kernel⟩

end Job
end Toolpath
