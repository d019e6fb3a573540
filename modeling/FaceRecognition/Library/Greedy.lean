import Mathlib.Data.List.Induction
import Mathlib.Order.Lattice

/-! The greedy choice from a list: an item is kept unless it clashes with one that was kept before
it. -/
namespace Greedy
variable {α : Type*} (clash : α → α → Bool)

/-- `kept` are the items kept so far. -/
def keep : List α → List α → List α
  | kept, [] => kept
  | kept, x :: xs => if kept.any fun k => clash k x then keep kept xs else keep (kept ++ [x]) xs

variable {clash} {kept xs ys : List α} {x : α}

theorem keep_cons_of_clash (h : ∃ k ∈ kept, clash k x = true) :
    keep clash kept (x :: xs) = keep clash kept xs :=
  if_pos (List.any_eq_true.mpr h)

theorem keep_cons_of_free (h : ∀ k ∈ kept, clash k x = false) :
    keep clash kept (x :: xs) = keep clash (kept ++ [x]) xs :=
  if_neg fun hany => by
    obtain ⟨k, hk, hclash⟩ := List.any_eq_true.mp hany
    rw [h k hk] at hclash
    contradiction

theorem clash_or_free (clash : α → α → Bool) (kept : List α) (x : α) :
    (∃ k ∈ kept, clash k x = true) ∨ ∀ k ∈ kept, clash k x = false := by
  by_cases h : ∃ k ∈ kept, clash k x = true
  · exact .inl h
  · exact .inr fun k hk => Bool.eq_false_iff.mpr fun hc => h ⟨k, hk, hc⟩

theorem keep_append (kept xs ys : List α) :
    keep clash kept (xs ++ ys) = keep clash (keep clash kept xs) ys := by
  induction xs generalizing kept with
  | nil => rfl
  | cons x xs ih =>
    cases clash_or_free clash kept x with
    | inl h => rw [List.cons_append, keep_cons_of_clash h, keep_cons_of_clash h, ih]
    | inr h => rw [List.cons_append, keep_cons_of_free h, keep_cons_of_free h, ih]

/-- What is kept stays kept, and the rest is taken from the list in its order. -/
theorem keep_eq_append (clash : α → α → Bool) (kept xs : List α) :
    ∃ new, keep clash kept xs = kept ++ new ∧ new.Sublist xs := by
  induction xs generalizing kept with
  | nil => exact ⟨[], (List.append_nil _).symm, List.Sublist.refl _⟩
  | cons x xs ih =>
    cases clash_or_free clash kept x with
    | inl h =>
      obtain ⟨new, heq, hsub⟩ := ih kept
      exact ⟨new, by rw [keep_cons_of_clash h, heq], hsub.cons x⟩
    | inr h =>
      obtain ⟨new, heq, hsub⟩ := ih (kept ++ [x])
      exact ⟨x :: new, by rw [keep_cons_of_free h, heq, List.append_assoc]; rfl, hsub.cons_cons x⟩

theorem keep_sublist (xs : List α) : (keep clash [] xs).Sublist xs := by
  obtain ⟨new, heq, hsub⟩ := keep_eq_append clash [] xs
  rwa [heq]

section Ranked
variable {D : Type*} [LinearOrder D] (rank : α → D)

/-- Items below a rank do not change which of the others are kept. -/
theorem keep_filter (hxs : xs.Pairwise fun a b => rank b ≤ rank a) (least : D) :
    keep clash [] (xs.filter fun a => least ≤ rank a) =
      (keep clash [] xs).filter fun a => least ≤ rank a := by
  induction xs using List.reverseRecOn with
  | nil => rfl
  | append_singleton xs x ih =>
    obtain ⟨hinit, -, hlast⟩ := List.pairwise_append.mp hxs
    have ih := ih hinit
    rw [List.filter_append, keep_append, keep_append, ih]
    by_cases hx : least ≤ rank x
    · have hall : ∀ a ∈ keep clash [] xs, least ≤ rank a := fun a ha =>
        hx.trans (hlast a ((keep_sublist xs).subset ha) x (by simp))
      rw [List.filter_eq_self.mpr fun a ha => by simpa using hall a ha]
      have hone : [x].filter (fun a => least ≤ rank a) = [x] := by simp [hx]
      rw [hone]
      cases clash_or_free clash (keep clash [] xs) x with
      | inl h =>
        rw [keep_cons_of_clash h, keep, List.filter_eq_self.mpr fun a ha => by simpa using hall a ha]
      | inr h =>
        rw [keep_cons_of_free h, keep, List.filter_append, hone,
          List.filter_eq_self.mpr fun a ha => by simpa using hall a ha]
    · have hnone : [x].filter (fun a => least ≤ rank a) = [] := by simp [hx]
      rw [hnone]
      cases clash_or_free clash (keep clash [] xs) x with
      | inl h => rw [keep_cons_of_clash h]; rfl
      | inr h => rw [keep_cons_of_free h, keep, keep, List.filter_append, hnone, List.append_nil]

end Ranked

end Greedy
