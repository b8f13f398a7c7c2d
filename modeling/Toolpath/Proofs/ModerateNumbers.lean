import Toolpath.Proofs.CheckedVerbs

/-!
# Numbers that stay in range

The given numbers of a command are finite when those of the command and of the machine are, and so
are the angles of the rotary axes. A computed number may leave the range of a double, but not when
all numbers are moderate: zero, or between `1e-150` and `1e150` in size.
-/

namespace Toolpath

namespace Number

/-- A number is zero, or neither huge nor tiny. -/
def isModerate (x : Float) : Bool := isFinite x && abs x ≤ 1e150 && (x == 0 || 1e-150 ≤ abs x)

variable {x : Float}

theorem isFinite_of_isModerate (h : isModerate x = true) : isFinite x = true := by
  simp only [isModerate, Bool.and_eq_true] at h
  exact h.1.1

theorem within_of_isModerate (h : isModerate x = true) : Within 500 x := by
  have hx := isFinite_of_isModerate h
  simp only [isModerate, Bool.and_eq_true, decide_eq_true_eq] at h
  have htop : Within 500 (1e150 : Float) := within_of_fits (by decide +kernel)
  have hle := (le_iff_value (isFinite_abs hx) htop.finite).mp h.1.2
  rw [value_abs hx] at hle
  exact ⟨hx, hle.trans ((le_abs_self _).trans htop.le)⟩

theorem le_abs_of_isModerate (h : isModerate x = true) (hne : value x ≠ 0) :
    2 ^ (-500 : ℤ) ≤ |value x| := by
  have hx := isFinite_of_isModerate h
  have hzero : isFinite 0 = true := by decide
  have hleast : isFinite 1e-150 = true := by decide +kernel
  simp only [isModerate, Bool.and_eq_true, Bool.or_eq_true, decide_eq_true_eq] at h
  obtain hnil | hle := h.2
  · exact absurd ((beq_iff_value hx hzero).mp hnil) hne
  · have hle := (le_iff_value hleast (isFinite_abs hx)).mp hle
    rw [value_abs hx] at hle
    have hpos : 0 ≤ value 1e-150 := value_nonneg hleast (by decide +kernel)
    have hreach : 2 ^ (-500 : ℤ) ≤ |value 1e-150| := le_abs_value_of_reaches (by decide +kernel)
    rw [abs_of_nonneg hpos] at hreach
    exact hreach.trans hle

end Number

namespace Machine

variable {N : Float → Prop} {m : Machine} {c : Command} {v : Verb} {d : DrillCycle} {once : Bool}

theorem allFinite_depths (hdp : Number.isFinite d.dp = true)
    (hfdpr : Number.isFinite d.fdpr = true) (hdam : Number.isFinite d.dam = true) :
    AllFinite d.depths := by
  have hpeck : Number.isFinite d.peck = true := by
    unfold DrillCycle.peck
    split
    · exact hdam
    · exact hfdpr
  refine allFinite_cons.mpr ⟨hdp, ?_⟩
  split
  · exact allFinite_cons.mpr ⟨hpeck, allFinite_nil⟩
  · exact allFinite_nil

theorem cycleOf?_cases (h : m.cycleOf? v c = some (d, once)) :
    d ∈ [.plain c, .deep c, .shortPlain c (m.value "Z"), .shortDeep c (m.value "Z")] := by
  cases v with
  | drillHere | deepDrillHere =>
    simp only [cycleOf?] at h
    split at h
    · cases h
    · cases h
      simp
  | cycle =>
    obtain ⟨e, he, heq⟩ := Option.map_eq_some_iff.mp h
    cases heq
    unfold repeats? at he
    split at he
    · cases he
    split at he
    · cases he
      simp
    split at he
    · cases he
      simp
    · cases he
  | _ => cases h

theorem depths_finite (hc : ∀ x ∈ c.numeric, Number.isFinite x = true)
    (h : m.cycleOf? v c = some (d, once)) : AllFinite d.depths := by
  have hzero : Number.isFinite 0 = true := by decide
  have hnumber (i : Nat) : Number.isFinite (c.number i 0) = true := Command.number_of hc hzero i
  have habs (i : Nat) : Number.isFinite (Number.abs (c.number i 0)) = true :=
    Number.isFinite_abs (hnumber i)
  have hcases := cycleOf?_cases h
  simp only [List.mem_cons, List.not_mem_nil, or_false] at hcases
  rcases hcases with rfl | rfl | rfl | rfl
  · exact allFinite_depths (hnumber 3) hzero hzero
  · exact allFinite_depths (hnumber 3) (hnumber 6) (hnumber 7)
  · exact allFinite_depths (Number.isFinite_neg (habs 0)) hzero hzero
  · exact allFinite_depths (Number.isFinite_neg (habs 0)) (habs 2) hzero

theorem cycleOf?_of_cannedOf? (h : m.cannedOf? v c = some d) :
    ∃ once, m.cycleOf? v c = some (d, once) := by
  obtain ⟨⟨e, once⟩, he, hd⟩ := Option.bind_eq_some_iff.mp h
  dsimp only at hd
  split at hd
  · cases hd
    exact ⟨once, he⟩
  · cases hd

theorem cannedOf?_depths (hc : ∀ x ∈ c.numeric, Number.isFinite x = true) (v : Verb) :
    AllFinite ((m.cannedOf? v c).elim [] DrillCycle.depths) := by
  cases hd : m.cannedOf? v c with
  | none => exact allFinite_nil
  | some d =>
    obtain ⟨once, hcycle⟩ := cycleOf?_of_cannedOf? hd
    exact depths_finite hc hcycle

theorem allFinite_map {f : Float → Float}
    (hf : ∀ x, Number.isFinite x = true → Number.isFinite (f x) = true)
    {xs : List Float} (h : AllFinite xs) : AllFinite (xs.map f) := by
  intro y hy
  obtain ⟨x, hx, rfl⟩ := List.mem_map.mp hy
  exact hf x (h x hx)

theorem speedAfter_of (hspeed : N (m.vars.float Variable.spindleSpeed 0))
    (hc : ∀ x ∈ c.numeric, N x) :
    N (m.speedAfter c) := by
  unfold speedAfter
  cases hnumeric : c.numeric with
  | nil => exact hspeed
  | cons speed rest =>
    dsimp only
    split
    · exact hspeed
    · exact hc speed (by simp [hnumeric])

theorem cycleFeed_finite (hc : ∀ x ∈ c.numeric, Number.isFinite x = true) :
    AllFinite (cycleFeed c) := by
  have hnumber (i : Nat) : AllFinite c.numeric[i]?.toList :=
    fun x hx => hc x (List.mem_of_getElem? (Option.mem_toList.mp hx))
  unfold cycleFeed
  split
  · exact allFinite_nil
  split
  · exact hnumber 2
  split
  · exact hnumber 3
  · exact allFinite_nil

theorem given_finite (hm : m.Intact fun x => Number.isFinite x = true)
    (hc : ∀ x ∈ c.numeric, Number.isFinite x = true) (v : Verb) : AllFinite (m.given v c) := by
  have hhead : AllFinite c.numeric.head?.toList :=
    fun x hx => hc x (List.mem_of_head? (Option.mem_toList.mp hx))
  unfold given
  split
  · exact hhead
  · split
    · exact allFinite_cons.mpr ⟨speedAfter_of hm.vars.speed hc, allFinite_nil⟩
    · exact allFinite_nil
  · exact allFinite_map (fun _ => Number.isFinite_round) hhead
  · split
    · exact allFinite_nil
    · exact allFinite_map (fun _ => Number.isFinite_abs) hhead
  · exact allFinite_append.mpr ⟨cycleFeed_finite hc, cannedOf?_depths hc _⟩
  · exact cannedOf?_depths hc _
  · exact cannedOf?_depths hc _
  · split
    · exact allFinite_coordinates.mpr (hm.target hc)
    · exact allFinite_nil

theorem axisAngles_finite (hc : ∀ x ∈ c.numeric, Number.isFinite x = true) :
    AllFinite (m.axisAngles c) := by
  unfold axisAngles
  split
  case h_1 i j k rest hflag hnumeric =>
    obtain ⟨ha, hb⟩ :=
      ToolAxis.isFinite_angles (hc i (by simp [hnumeric])) (hc j (by simp [hnumeric]))
      (hc k (by simp [hnumeric]))
    exact allFinite_cons.mpr ⟨ha, allFinite_cons.mpr ⟨hb, allFinite_nil⟩⟩
  case h_2 => exact allFinite_nil

theorem handed_finite_iff (hm : m.Intact fun x => Number.isFinite x = true)
    (hc : ∀ x ∈ c.numeric, Number.isFinite x = true) (v : Verb) :
    AllFinite (m.handed v c) ↔ AllFinite (m.computed v c) := by
  have hangles : AllFinite (if m.movesBy v c then m.axisAngles c else []) := by
    split
    · exact axisAngles_finite hc
    · exact allFinite_nil
  rw [handed, allFinite_append, allFinite_append]
  exact ⟨fun h => h.2, fun h => ⟨⟨given_finite hm hc v, hangles⟩, h⟩⟩

theorem dwellSeconds_finite {amount speed : Float} (hamount : Number.isModerate amount = true)
    (hspeed : Number.isModerate speed = true) :
    Number.isFinite (dwellSeconds c amount speed) = true := by
  have hzero : Number.isFinite 0 = true := by decide
  have hfinite := Number.isFinite_of_isModerate hspeed
  have hused : Number.isFinite (if speed ≤ 0 then usualSpeed else speed) = true ∧
      2 ^ (-500 : ℤ) ≤ |Number.value (if speed ≤ 0 then usualSpeed else speed)| := by
    split
    case isTrue => exact ⟨by decide, Number.le_abs_value_of_reaches (by decide)⟩
    case isFalse hpos =>
      refine ⟨hfinite, Number.le_abs_of_isModerate hspeed fun hvalue => hpos ?_⟩
      rw [Number.le_iff_value hfinite hzero, hvalue, Number.value_zero]
  apply Number.isFinite_abs
  split
  · have hminute := (Number.within_of_isModerate hamount).mul (k := 6) (y := 60)
      (Number.within_of_fits (by decide)) (by norm_num) (by norm_num)
    exact (hminute.div hused.1 hused.2 (by norm_num) (by norm_num)).finite
  · exact Number.isFinite_of_isModerate hamount

theorem reference_finite (hc : ∀ x ∈ c.numeric, Number.isModerate x = true)
    (h : m.cycleOf? v c = some (d, once)) : Number.isFinite d.reference = true := by
  have hzero : Number.isModerate 0 = true := by decide +kernel
  have htwo : Number.isModerate 2 = true := by decide +kernel
  have hsum {x y : Float} (hx : Number.isModerate x = true) (hy : Number.isModerate y = true) :
      Number.isFinite (x + y) = true :=
    ((Number.within_of_isModerate hx).add (Number.within_of_isModerate hy) (by norm_num)
      (by norm_num)).finite
  have hcases := cycleOf?_cases h
  simp only [List.mem_cons, List.not_mem_nil, or_false] at hcases
  rcases hcases with rfl | rfl | rfl | rfl
  · exact hsum (Command.number_of hc hzero 1) (Command.number_of hc htwo 2)
  · exact hsum (Command.number_of hc hzero 1) (Command.number_of hc htwo 2)
  · exact hsum hzero (Command.number_of hc htwo 1)
  · exact hsum hzero (Command.number_of hc htwo 1)

theorem numbers_finite {circle : Circle}
    (hcircle : circle.Intact fun x => Number.isModerate x = true) {start : Point}
    (hstart : ∀ a, Number.isModerate (start.along a) = true) (p : Profile) (f : Frame)
    (winding : Winding) (stop : Point) : AllFinite (circle.numbers p f winding start stop) := by
  have hsub {x y : Float} (hx : Number.isModerate x = true) (hy : Number.isModerate y = true) :
      Number.Within 501 (x - y) :=
    (Number.within_of_isModerate hx).sub (Number.within_of_isModerate hy) (by norm_num)
      (by norm_num)
  have hradius : Number.isFinite (Arc.radius f circle start) = true := by
    unfold Arc.radius
    split
    · exact (Number.hypot_within (hsub (hstart _) (hcircle.center _))
        (hsub (hstart _) (hcircle.center _)) (by norm_num) (by norm_num)).finite
    · exact Number.isFinite_of_isModerate hcircle.radius
  unfold Circle.numbers
  split
  · exact allFinite_cons.mpr ⟨hradius, allFinite_nil⟩
  · intro x hx
    obtain ⟨a, -, rfl⟩ := List.mem_map.mp hx
    exact (hsub (hcircle.center a) (hstart a)).finite

theorem computed_finite (hm : m.Intact fun x => Number.isModerate x = true)
    (hc : ∀ x ∈ c.numeric, Number.isModerate x = true) (v : Verb) : AllFinite (m.computed v c) := by
  have hreference (v : Verb) : AllFinite ((m.cannedOf? v c).elim [] fun d => [d.reference]) := by
    cases hd : m.cannedOf? v c with
    | none => exact allFinite_nil
    | some d =>
      obtain ⟨once, hcycle⟩ := cycleOf?_of_cannedOf? hd
      exact allFinite_cons.mpr ⟨reference_finite hc hcycle, allFinite_nil⟩
  have hpath (straight : Bool) (stop : Point) :
      AllFinite (m.pathNumbers straight m.position stop) := by
    unfold pathNumbers
    cases hcircle : m.circle with
    | none => exact allFinite_nil
    | some circle =>
      dsimp only
      split
      · exact allFinite_nil
      · cases Arc.winding? (Frame.named (m.vars.text Variable.plane Plane.xy.name)) circle with
        | none => exact allFinite_nil
        | some winding => exact numbers_finite (hm.circle circle hcircle) hm.along _ _ winding stop
  unfold computed
  split
  · split
    · intro x hx
      obtain ⟨amount, hamount, rfl⟩ := List.mem_map.mp hx
      exact dwellSeconds_finite (hc amount (List.mem_of_head? (Option.mem_toList.mp hamount)))
        hm.vars.speed
    · exact allFinite_nil
  · exact hreference _
  · exact hreference _
  · exact hreference _
  · split
    · exact hpath _ _
    · exact allFinite_nil

theorem handed_finite (hm : m.Intact fun x => Number.isModerate x = true)
    (hc : ∀ x ∈ c.numeric, Number.isModerate x = true) (v : Verb) : AllFinite (m.handed v c) := by
  have hm' := hm.mono fun _ => Number.isFinite_of_isModerate
  exact (handed_finite_iff hm' (fun x hx => Number.isFinite_of_isModerate (hc x hx)) v).mpr
    (computed_finite hm hc v)

end Machine
end Toolpath
