import Mathlib.Data.List.Basic

/-!
# Look-ups in association lists

An entry is found unless another one with the same key stands before it.
-/
namespace SimCompiler

/-- Where no key is repeated, a look-up finds every entry. -/
theorem lookup_eq_some_iff_mem [BEq α] [LawfulBEq α] {xs : List (α × β)}
    (hnodup : (xs.map Prod.fst).Nodup) {a : α} {b : β} :
    xs.lookup a = some b ↔ (a, b) ∈ xs := by
  constructor
  · intro h
    obtain ⟨before, after, hxs, -⟩ := List.lookup_eq_some_iff.mp h
    simp [hxs]
  · intro h
    obtain ⟨before, after, hxs⟩ := List.append_of_mem h
    refine List.lookup_eq_some_iff.mpr ⟨before, after, hxs, fun x hx => ?_⟩
    rw [hxs, List.map_append, List.nodup_append] at hnodup
    have hne := hnodup.2.2 x.1 (List.mem_map_of_mem hx) a (by simp)
    simpa using hne.symm

theorem lookup_isSome_iff [BEq α] [LawfulBEq α] {xs : List (α × β)} {a : α} :
    (xs.lookup a).isSome = true ↔ ∃ b, (a, b) ∈ xs := by
  rw [Option.isSome_iff_ne_none, Ne, List.lookup_eq_none_iff]
  constructor
  · intro h
    by_contra hnone
    refine h fun x hx => ?_
    have hne : a ≠ x.1 := fun heq => hnone ⟨x.2, heq ▸ hx⟩
    simpa using hne
  · rintro ⟨b, hb⟩ h
    simpa using h _ hb

/-- Without the entries of one key, every other key is found as before. -/
theorem lookup_filter_ne [BEq α] [LawfulBEq α] [DecidableEq α] (xs : List (α × β)) (a key : α) :
    (xs.filter (·.1 ≠ key)).lookup a = if a = key then none else xs.lookup a := by
  induction xs with
  | nil => simp
  | cons x xs ih =>
    obtain ⟨k, b⟩ := x
    by_cases hk : k = key
    · rw [List.filter_cons_of_neg (by simp [hk]), ih, List.lookup_cons]
      by_cases ha : a = key
      · simp [ha]
      · have hne : (a == k) = false := by simpa [hk] using ha
        simp [ha, hne]
    · rw [List.filter_cons_of_pos (by simp [hk]), List.lookup_cons, List.lookup_cons, ih]
      by_cases ha : a = k
      · simp [ha, hk]
      · have hne : (a == k) = false := by simpa using ha
        simp [hne]

end SimCompiler
