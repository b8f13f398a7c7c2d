import Toolpath.Proofs.Blocks
import Toolpath.Proofs.BoundedDoubles

/-!
# Suppressed words

A modal word that is not flagged gives no token. It is flagged by a value that differs
from the one before it, which need not be the one that was written last: the word keeps
silent exactly as long as each value is within the tolerance of the one before, and
small steps add up.
-/

namespace Toolpath

namespace Number

open Float.Model

theorem lt_infinity {x : Float} (hx : isFinite x = true) : x < infinity false := by
  have hlt : x < infinity false ↔ x.toModel.unpack.lt (.infinity .positive) = true :=
    decide_eq_true_iff
  rw [hlt]
  have hheld := held_unpack hx
  generalize x.toModel.unpack = u at hheld
  cases u with
  | infinity s => exact hheld.elim
  | notANumber => exact hheld.elim
  | zero s => rfl
  | finite s m e h => rfl

theorem abs_sub_value_le {x y t : Float} (hx : isFinite x = true) (hy : isFinite y = true)
    (ht : isFinite t = true) (h : ¬t < abs (x - y)) :
    |value x - value y| ≤ value t * (1 + 2 ^ (-52 : ℤ)) + 2 ^ (-1074 : ℤ) := by
  have hrounded := rounded_sub (held_unpack hx) (held_unpack hy)
  have hpacked : (x - y).toModel = Float.Model.pack
      (UnpackedFloat.sub Format.binary64 x.toModel.unpack y.toModel.unpack) := rfl
  obtain hkept | ⟨-, s, hlost⟩ := unpack_pack_cases hrounded.held
  · rw [← hpacked] at hkept
    have hfinite : isFinite (x - y) = true := by
      apply isFinite_of_held
      rw [hkept]
      exact hrounded.held
    have hvalue : value (x - y) = worth _ := congrArg worth hkept
    rw [lt_iff_value ht (isFinite_abs hfinite), value_abs hfinite, hvalue, not_lt] at h
    refine (sub_le_iff_le_add.mp ((abs_sub_abs_le_abs_sub _ _).trans hrounded.close)).trans ?_
    rw [add_right_comm, ← mul_add_one, add_comm (2 ^ (-52 : ℤ) : ℚ)]
    gcongr
  · rw [← hpacked] at hlost
    have hinfinite : isFinite (x - y) = false := by
      by_contra hfinite
      have hheld := held_unpack (Bool.not_eq_false _ ▸ hfinite)
      rw [hlost] at hheld
      exact hheld
    have habs : ∀ b, abs (infinity b) = infinity false := by decide
    rw [eq_infinity hinfinite (isNan_of_held hrounded.held hpacked), habs] at h
    exact absurd (lt_infinity ht) h

end Number

namespace Numeric

open Number (isFinite)

variable {n n' : Numeric} {x y : Float}

theorem magnitude_tolerance :
    Number.magnitude tolerance = .finite ⟨false, 4722366482869645, -72⟩ := by
  decide +kernel

theorem value_tolerance : Number.value tolerance = 4722366482869645 * 2 ^ (-72 : ℤ) :=
  Number.value_eq magnitude_tolerance

theorem isFinite_tolerance :
    isFinite tolerance = true := Number.isFinite_of_magnitude magnitude_tolerance

/-- The furthest that two values without a difference lie apart: the tolerance, and
what is lost when their difference is rounded. -/
def reach : ℚ := Number.value tolerance * (1 + 2 ^ (-51 : ℤ))

theorem abs_sub_le_reach (hx : isFinite x = true) (hy : isFinite y = true)
    (h : differs x y = false) :
    |Number.value x - Number.value y| ≤ reach := by
  have hstep := Number.abs_sub_value_le hx hy isFinite_tolerance (of_decide_eq_false h)
  have hleast : (2 : ℚ) ^ (-1074 : ℤ) ≤ 2 ^ (-124 : ℤ) :=
    zpow_le_zpow_right₀ one_le_two (by norm_num)
  have hroom : (2 : ℚ) ^ (-124 : ℤ) ≤ Number.value tolerance * 2 ^ (-52 : ℤ) := by
    rw [value_tolerance]
    norm_num
  calc |Number.value x - Number.value y|
      ≤ Number.value tolerance * (1 + 2 ^ (-52 : ℤ)) + Number.value tolerance * 2 ^ (-52 : ℤ) := by
        linarith
    _ = reach := by
      rw [reach]
      ring

theorem not_differs_of_le (hx : isFinite x = true) (hy : isFinite y = true)
    (h : |Number.value x - Number.value y| ≤ 2 ^ (-20 : ℤ)) : differs x y = false := by
  have hnear := Number.sub_near hx hy (h.trans (zpow_le_zpow_right₀ one_le_two (by norm_num)))
  apply decide_eq_false
  rw [Number.lt_iff_value isFinite_tolerance (Number.isFinite_abs hnear.finite),
    Number.value_abs hnear.finite, not_lt, value_tolerance]
  refine (hnear.le (-20) (by norm_num) h).trans ?_
  norm_num

/-- A word, the value of its last token, and the values set since, the latest first. -/
structure History where
  word : Numeric
  emitted : Float
  since : List Float

namespace History

variable {h h' : History}

def Silent (h : History) : Prop := (Word.numeric h.word).token.1 = []

/-- A value is set, or a token is asked for; a word that is silent gives none. -/
inductive Call : History → History → Prop
  | set {h : History} {n : Numeric} {x : Float} (hset : h.word.set x = .ok n) :
      Call h ⟨n, h.emitted, x :: h.since⟩
  | silent {h : History} {n : Numeric} (htoken : (Word.numeric h.word).token = ([], .numeric n)) :
      Call h ⟨n, h.emitted, h.since⟩
  | written {h : History} {n : Numeric} {t : Text} (ht : t ≠ [])
      (htoken : (Word.numeric h.word).token = (t, .numeric n)) : Call h ⟨n, h.word.value, []⟩

abbrev Leads : History → History → Prop := Relation.ReflTransGen Call

def trail (h : History) : List Float := h.since ++ [h.emitted]

/-- What calls keep: the word is modal, holds the last value, and is flagged unless
each value is within the tolerance of the one before. -/
structure Kept (h : History) : Prop where
  modal : h.word.modal = true
  finite : ∀ x ∈ h.trail, isFinite x = true
  value : h.trail.head? = some h.word.value
  unflagged : h.word.changed = false ↔ List.IsChain (fun x y => differs x y = false) h.trail

end History

theorem token_eq (n : Numeric) :
    (Word.numeric n).token = (if n.changed || !n.modal then n.render else [],
      .numeric n.settled) := by
  obtain ⟨address, modal, changed, value, previous, initial, format⟩ := n
  cases modal <;> cases changed <;> rfl

theorem silent_iff (h : n.modal = true) : (Word.numeric n).token.1 = [] ↔ n.changed = false := by
  have hrender : n.render ≠ [] := n.format.format_ne_nil n.value
  rw [token_eq, h]
  cases n.changed <;> simp [hrender]

theorem settled_of_modal (h : n.modal = true) : n.settled = { n with changed := false } := by
  rw [settled, if_pos h]

theorem set_ok (h : n.set x = .ok n') : isFinite x = true ∧ n' = n.hold x := by
  obtain ⟨_, hrequire, h⟩ := bind_ok.mp h
  cases h
  refine ⟨?_, rfl⟩
  by_contra hnot
  rw [requireFinite, if_neg hnot] at hrequire
  cases hrequire

namespace History

variable {h h' : History}

theorem Kept.silent_iff (hk : h.Kept) :
    h.Silent ↔ List.IsChain (fun x y => differs x y = false) h.trail :=
  (Numeric.silent_iff hk.modal).trans hk.unflagged

theorem kept_written (hmodal : n.modal = true) (hfinite : isFinite n.value = true) :
    Kept ⟨n.settled, n.value, []⟩ := by
  rw [settled_of_modal hmodal]
  refine ⟨hmodal, ?_, rfl, ?_⟩
  · simpa [trail] using hfinite
  · simp [trail]

theorem Kept.call (hk : h.Kept) (hcall : Call h h') : h'.Kept := by
  have hlast : h.word.value ∈ h.trail := List.mem_of_head? hk.value
  cases hcall with
  | @set n x hset =>
    obtain ⟨hfinite, rfl⟩ := set_ok hset
    obtain ⟨rest, hrest⟩ := List.head?_eq_some_iff.mp hk.value
    have htrail : trail ⟨h.word.hold x, h.emitted, x :: h.since⟩ = x :: h.word.value :: rest :=
      congrArg (x :: ·) hrest
    refine ⟨hk.modal, ?_, rfl, ?_⟩
    · rw [htrail, ← hrest, List.forall_mem_cons]
      exact ⟨hfinite, hk.finite⟩
    · rw [htrail, List.isChain_cons_cons, ← hrest, ← hk.unflagged, and_comm]
      exact Bool.or_eq_false_iff
  | @silent n htoken =>
    have hunflagged := (Numeric.silent_iff hk.modal).mp (congrArg Prod.fst htoken)
    rw [token_eq, settled_of_modal hk.modal] at htoken
    obtain rfl := Word.numeric.inj (congrArg Prod.snd htoken)
    exact ⟨hk.modal, hk.finite, hk.value, iff_of_true rfl (hk.unflagged.mp hunflagged)⟩
  | @written n t ht htoken =>
    rw [token_eq] at htoken
    obtain rfl := Word.numeric.inj (congrArg Prod.snd htoken)
    exact kept_written hk.modal (hk.finite _ hlast)

theorem Kept.leads (hk : h.Kept) (hleads : Leads h h') : h'.Kept := by
  induction hleads with
  | refl => exact hk
  | tail _ hcall ih => exact ih.call hcall

theorem drift_le {xs : List Float} (hfinite : ∀ z ∈ x :: xs ++ [y], isFinite z = true)
    (hchain : List.IsChain (fun x y => differs x y = false) (x :: xs ++ [y])) :
    |Number.value x - Number.value y| ≤ (xs.length + 1) * reach := by
  induction xs generalizing x with
  | nil =>
    have hstep : differs x y = false := (List.isChain_cons_cons.mp hchain).1
    have hle := abs_sub_le_reach (hfinite x (by simp)) (hfinite y (by simp)) hstep
    simpa using hle
  | cons z xs ih =>
    obtain ⟨hstep, hrest⟩ := List.isChain_cons_cons.mp hchain
    have hle := abs_sub_le_reach (hfinite x (by simp)) (hfinite z (by simp)) hstep
    have hrest := ih (fun w hw => hfinite w (List.mem_cons_of_mem x hw)) hrest
    calc |Number.value x - Number.value y|
        ≤ |Number.value x - Number.value z| + |Number.value z - Number.value y| := abs_sub_le _ _ _
      _ ≤ reach + (xs.length + 1) * reach := add_le_add hle hrest
      _ = ((z :: xs).length + 1) * reach := by
        rw [List.length_cons]
        push_cast
        ring

theorem Kept.drift_le (hk : h.Kept) (hsilent : h.Silent) :
    |Number.value h.word.value - Number.value h.emitted| ≤ h.since.length * reach := by
  have hchain := hk.silent_iff.mp hsilent
  have hvalue := hk.value
  have hfinite := hk.finite
  unfold trail at hchain hvalue hfinite
  cases hsince : h.since with
  | nil =>
    rw [hsince] at hvalue
    simp [← Option.some.inj hvalue]
  | cons x xs =>
    rw [hsince] at hvalue hchain hfinite
    rw [← Option.some.inj hvalue, List.length_cons]
    push_cast
    exact History.drift_le hfinite hchain

theorem Kept.steady (hk : h.Kept) (hsilent : h.Silent) (hfew : h.since.length ≤ 1) :
    differs h.word.value h.emitted = false := by
  have hchain := hk.silent_iff.mp hsilent
  have hvalue := hk.value
  unfold trail at hchain hvalue
  match hsince : h.since with
  | [] =>
    rw [hsince] at hvalue
    have hfinite : isFinite h.emitted = true := hk.finite _ (by simp [trail])
    rw [← Option.some.inj hvalue]
    exact not_differs_of_le hfinite hfinite (by rw [sub_self, abs_zero]; positivity)
  | [x] =>
    rw [hsince] at hvalue hchain
    rw [← Option.some.inj hvalue]
    exact (List.isChain_cons_cons.mp hchain).1
  | x :: y :: xs =>
    rw [hsince] at hfew
    simp at hfew

theorem Kept.exists_step (hk : h.Kept) (hsilent : h.Silent) (hx : isFinite x = true)
    (hstep : |Number.value x - Number.value h.word.value| ≤ 2 ^ (-20 : ℤ)) :
    Call h ⟨h.word.hold x, h.emitted, x :: h.since⟩ ∧
      Silent ⟨h.word.hold x, h.emitted, x :: h.since⟩ := by
  have hset : h.word.set x = .ok (h.word.hold x) := by
    rw [set, requireFinite, if_pos hx]
    rfl
  have hlast : isFinite h.word.value = true := hk.finite _ (List.mem_of_head? hk.value)
  have hsmall := not_differs_of_le hx hlast hstep
  refine ⟨.set hset, (Numeric.silent_iff (n := h.word.hold x) hk.modal).mpr ?_⟩
  exact Bool.or_eq_false_iff.mpr ⟨(Numeric.silent_iff hk.modal).mp hsilent, hsmall⟩

theorem Kept.exists_drift {start : History} (hk : start.Kept) (hsince : start.since = [])
    (hzero : Number.value start.emitted = 0) {k : Nat} (hbound : k < 2 ^ 53) :
    ∃ h, Leads start h ∧ h.Silent ∧ h.emitted = start.emitted ∧ h.since.length = k ∧
      Number.value h.word.value = k * 2 ^ (-20 : ℤ) := by
  induction k with
  | zero =>
    have hvalue := hk.value
    rw [trail, hsince] at hvalue
    refine ⟨start, .refl, hk.silent_iff.mpr ?_, rfl, by rw [hsince]; rfl, ?_⟩
    · rw [trail, hsince]
      exact .singleton _
    · rw [← Option.some.inj hvalue, hzero]
      simp
  | succ k ih =>
    obtain ⟨h, hleads, hsilent, hemitted, hlength, hvalue⟩ := ih (by omega)
    obtain ⟨x, hx, hgrid⟩ := Number.exists_value_grid hbound
    have hstep : |Number.value x - Number.value h.word.value| ≤ 2 ^ (-20 : ℤ) := by
      rw [hgrid, hvalue, ← sub_mul]
      push_cast
      rw [add_sub_cancel_left, one_mul, abs_of_nonneg (by positivity)]
    obtain ⟨hcall, hsilent'⟩ := (hk.leads hleads).exists_step hsilent hx hstep
    exact ⟨_, hleads.tail hcall, hsilent', hemitted, congrArg (· + 1) hlength, hgrid⟩

end History

open History (Leads)

/-- A modal word that was asked for its token, and then is set and asked again in any order, is
silent if and only if each value set since its last token is within the tolerance of the value
before it. What is suppressed lies at most as many tolerances off as values were set, and from zero
there are silent words that are `k` steps of `2 ^ -20` off for every `k` below `2 ^ 53`. -/
theorem suppressed_iff {t : Text} (hmodal : n.modal = true) (hfinite : isFinite n.value = true)
    (htoken : (Word.numeric n).token = (t, .numeric n')) :
    (∀ h, Leads ⟨n', n.value, []⟩ h →
      (h.Silent ↔ List.IsChain (fun x y => differs x y = false) h.trail) ∧
      (h.Silent → h.since.length ≤ 1 → differs h.word.value h.emitted = false) ∧
      (h.Silent → |Number.value h.word.value - Number.value h.emitted| ≤ h.since.length * reach)) ∧
    (Number.value n.value = 0 → ∀ k < 2 ^ 53, ∃ h, Leads ⟨n', n.value, []⟩ h ∧ h.Silent ∧
      h.emitted = n.value ∧ h.since.length = k ∧
      Number.value h.word.value = k * 2 ^ (-20 : ℤ)) := by
  obtain rfl : n' = n.settled := by
    rw [token_eq] at htoken
    exact (Word.numeric.inj (congrArg Prod.snd htoken)).symm
  have hkept := History.kept_written hmodal hfinite
  constructor
  · intro h hleads
    have hk := hkept.leads hleads
    exact ⟨hk.silent_iff, hk.steady, hk.drift_le⟩
  · intro hzero k hbound
    exact hkept.exists_drift rfl hzero hbound

def fresh : Numeric :=
  { address := "X", modal := true, changed := true, value := 0, previous := 0, initial := 0
    format := (NumberFormat.parse "X\x7b-##!000000000\x7d") }

theorem token_fresh :
    (Word.numeric fresh).token = (Text.ofString "X0.000000000", .numeric fresh.settled) := by
  decide +kernel

/-- A thousand silent steps. -/
theorem suppressed_iff_thousand :
    fresh.modal = true ∧ isFinite fresh.value = true ∧ Number.value fresh.value = 0 ∧
    (Word.numeric fresh).token = (Text.ofString "X0.000000000", .numeric fresh.settled) ∧
    ∃ h, Leads ⟨fresh.settled, fresh.value, []⟩ h ∧ h.Silent ∧ h.since.length = 1000 ∧
      Number.value h.word.value = 1000 * 2 ^ (-20 : ℤ) := by
  have hzero : Number.value fresh.value = 0 := by
    rw [Number.value_eq (show Number.magnitude fresh.value = .finite ⟨false, 0, -1074⟩ by decide)]
    simp [Number.signed]
  have hfinite : isFinite fresh.value = true := by decide
  obtain ⟨-, hdrift⟩ := suppressed_iff rfl hfinite token_fresh
  obtain ⟨h, hleads, hsilent, -, hlength, hvalue⟩ := hdrift hzero 1000 (by norm_num)
  exact ⟨rfl, hfinite, hzero, token_fresh, h, hleads, hsilent, hlength, by exact_mod_cast hvalue⟩

/-- Two steps below the tolerance, and the word is silent more than a tolerance off. -/
theorem suppressed_word_drifts :
    let h : History := ⟨(fresh.settled.hold 8e-7).hold 1.6e-6, fresh.value, [1.6e-6, 8e-7]⟩
    fresh.modal = true ∧
    (Word.numeric fresh).token = (Text.ofString "X0.000000000", .numeric fresh.settled) ∧
    Leads ⟨fresh.settled, fresh.value, []⟩ h ∧ h.Silent ∧
    differs h.word.value h.emitted = true := by
  intro h
  have hsilent : (Word.numeric (fresh.settled.hold 8e-7)).token =
      ([], .numeric (fresh.settled.hold 8e-7)) := by decide +kernel
  have hfirst : fresh.settled.set 8e-7 = .ok (fresh.settled.hold 8e-7) := by decide +kernel
  have hsecond : (fresh.settled.hold 8e-7).set 1.6e-6 = .ok h.word := by decide +kernel
  refine ⟨rfl, token_fresh, ?_, ?_, by decide +kernel⟩
  · exact .tail (.tail (.tail .refl (.set hfirst)) (.silent hsilent)) (.set hsecond)
  · exact (silent_iff rfl).mpr (by decide +kernel)

end Numeric
end Toolpath
