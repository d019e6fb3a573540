import Mathlib.Data.List.Basic

/-! Runs of a labelled transition relation, and the rule that carries an invariant
from one step to a whole run. -/

inductive Run {S L : Type*} (step : S → L → S → Prop) : S → List L → S → Prop where
  | nil (s : S) : Run step s [] s
  | cons {s t u : S} {a : L} {as : List L} (h : step s a t) (hr : Run step t as u) :
      Run step s (a :: as) u

namespace Run
variable {S L : Type*} {step : S → L → S → Prop} {s t : S} {as : List L}

theorem append {u : S} {bs : List L} (h : Run step s as t) (hr : Run step t bs u) :
    Run step s (as ++ bs) u := by
  induction h with
  | nil => exact hr
  | cons h _ ih => exact .cons h (ih hr)

/-- What one step preserves, a run preserves. -/
theorem invariant {I : S → Prop} (hstep : ∀ s a t, I s → step s a t → I t)
    (h : Run step s as t) (hs : I s) : I t := by
  induction h with
  | nil => exact hs
  | cons h _ ih => exact ih (hstep _ _ _ hs h)

/-- A counted invariant: a step with a counted label raises the count by one, the others keep it. -/
theorem counted {I : Nat → S → Prop} {p : L → Bool}
    (hstep : ∀ n s a t, I n s → step s a t → I (if p a = true then n + 1 else n) t)
    (h : Run step s as t) {n : Nat} (hs : I n s) : I (n + as.countP p) t := by
  induction h generalizing n with
  | nil => simpa using hs
  | @cons s t u a as h _ ih =>
    have h1 := ih (hstep n s a t hs h)
    rw [List.countP_cons]
    split at h1
    next hp => simpa [hp, Nat.add_assoc, Nat.add_comm 1] using h1
    next hp => simpa [hp] using h1

/-- A run whose labels all satisfy `P` is a run of the steps with such labels. -/
theorem restrict {P : L → Prop} (h : Run step s as t) (hP : ∀ a ∈ as, P a) :
    Run (fun s a t => step s a t ∧ P a) s as t := by
  induction h with
  | nil s => exact .nil s
  | cons h _ ih =>
    exact .cons ⟨h, hP _ (by simp)⟩ (ih fun a ha => hP a (List.mem_cons_of_mem _ ha))

end Run
