import Toolpath.Machine.State

/-!
# What a memo remembers

A memo remembers under each name what was last stored there, and nothing that
was removed. Storing or removing under one name leaves every other name alone.
-/

namespace Toolpath.Memo

variable (m : Memo) (key k : Text) (v : Value)

theorem lookup_filter (es : List (Text × Value)) :
    (es.filter fun e => e.1 != key).lookup k = if k = key then none else es.lookup k := by
  induction es with
  | nil => simp
  | cons e es ih =>
    obtain ⟨l, w⟩ := e
    by_cases hl : l = key
    · rw [List.filter_cons_of_neg (by simp [hl]), ih, List.lookup_cons]
      by_cases hk : k = key
      · simp [hk]
      · simp [hl, hk, beq_false_of_ne hk]
    · rw [List.filter_cons_of_pos (by simp [hl]), List.lookup_cons, List.lookup_cons, ih]
      by_cases hk : k = l
      · simp [hk, hl]
      · simp [beq_false_of_ne hk]

@[simp] theorem get?_remove : (m.remove key).get? k = if k = key then none else m.get? k :=
  lookup_filter key k m.entries

@[simp] theorem get?_set : (m.set key v).get? k = if k = key then some v else m.get? k := by
  have hrest := get?_remove m key k
  rw [get?] at hrest ⊢
  rw [set, List.lookup_cons, hrest]
  by_cases h : k = key
  · simp [h]
  · simp [h, beq_false_of_ne h]

end Toolpath.Memo
