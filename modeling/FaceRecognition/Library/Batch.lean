import Mathlib.Data.List.Basic

/-! A loop over a list of items in which a step may end the whole loop: the items after
it are not looked at. -/
namespace Batch
variable {ρ σ ε α : Type*}

/-- What a step leaves behind: its events, the state, and why the loop ends with it, if it
does. -/
structure Outcome (ρ σ ε : Type*) where
  events : List ε
  state : σ
  stop : Option ρ

def run (step : σ → α → Outcome ρ σ ε) : σ → List α → Outcome ρ σ ε
  | s, [] => ⟨[], s, none⟩
  | s, x :: xs => match (step s x).stop with
    | some r => ⟨(step s x).events, (step s x).state, some r⟩
    | none =>
      let rest := run step (step s x).state xs
      ⟨(step s x).events ++ rest.events, rest.state, rest.stop⟩

/-- Every item meets `P` in the state that the items before it leave. -/
def Each (step : σ → α → Outcome ρ σ ε) (P : σ → α → Prop) : σ → List α → Prop
  | _, [] => True
  | s, x :: xs => P s x ∧ Each step P (step s x).state xs

section Run
variable (step : σ → α → Outcome ρ σ ε)

theorem run_cons_of_stop {s : σ} {x : α} {r : ρ} (h : (step s x).stop = some r) (xs : List α) :
    run step s (x :: xs) = ⟨(step s x).events, (step s x).state, some r⟩ := by
  rw [run, h]

theorem run_cons_of_goes_on {s : σ} {x : α} (h : (step s x).stop = none) (xs : List α) :
    run step s (x :: xs) =
      ⟨(step s x).events ++ (run step (step s x).state xs).events,
        (run step (step s x).state xs).state, (run step (step s x).state xs).stop⟩ := by
  rw [run, h]

/-- Once the loop has ended, further items change nothing. -/
theorem run_append_of_stop {s : σ} {xs : List α} {r : ρ} (h : (run step s xs).stop = some r)
    (ys : List α) : run step s (xs ++ ys) = run step s xs := by
  induction xs generalizing s with
  | nil => cases h
  | cons x xs ih =>
    rw [List.cons_append]
    cases hx : (step s x).stop with
    | some r => rw [run_cons_of_stop step hx, run_cons_of_stop step hx]
    | none =>
      rw [run_cons_of_goes_on step hx] at h ⊢
      rw [ih h, run_cons_of_goes_on step hx]

theorem run_append_of_goes_on {s : σ} {xs : List α} (h : (run step s xs).stop = none)
    (ys : List α) :
    (run step s (xs ++ ys)).events =
      (run step s xs).events ++ (run step (run step s xs).state ys).events := by
  induction xs generalizing s with
  | nil => rfl
  | cons x xs ih =>
    rw [List.cons_append]
    cases hx : (step s x).stop with
    | some r =>
      rw [run_cons_of_stop step hx] at h
      cases h
    | none =>
      rw [run_cons_of_goes_on step hx] at h ⊢
      rw [run_cons_of_goes_on step hx, List.append_assoc, ← ih h]

theorem run_stop_none_iff {P : σ → α → Prop} (hP : ∀ s x, (step s x).stop = none ↔ P s x) (s : σ)
    (xs : List α) : (run step s xs).stop = none ↔ Each step P s xs := by
  induction xs generalizing s with
  | nil => simp [run, Each]
  | cons x xs ih =>
    rw [Each, ← hP]
    cases hx : (step s x).stop with
    | some r => simp [run_cons_of_stop step hx]
    | none => simp [run_cons_of_goes_on step hx, ih]

end Run

/-- Without a state the order of the items does not matter to what each has to meet. -/
theorem each_iff_forall [Subsingleton σ] (step : σ → α → Outcome ρ σ ε) (P : σ → α → Prop) (s : σ)
    (xs : List α) : Each step P s xs ↔ ∀ x ∈ xs, P s x := by
  induction xs with
  | nil => simp [Each]
  | cons x xs ih => rw [Each, Subsingleton.elim (step s x).state s, ih, List.forall_mem_cons]

/-! ### Independence -/

section Independent
variable (step : σ → α → Outcome ρ σ ε) (visible : ε → Bool)

def effects (o : Outcome ρ σ ε) : List ε := o.events.filter visible

/-- The effects of two batches together are those of the one followed by those of the other
exactly when the first one runs to its end or the second one has none. -/
theorem effects_append_iff (s : σ) (xs ys : List α) :
    effects visible (run step s (xs ++ ys)) =
        effects visible (run step s xs) ++ effects visible (run step (run step s xs).state ys) ↔
      (run step s xs).stop = none ∨ effects visible (run step (run step s xs).state ys) = [] := by
  cases h : (run step s xs).stop with
  | none =>
    rw [effects, run_append_of_goes_on step h, List.filter_append]
    simp [effects]
  | some r =>
    rw [run_append_of_stop step h]
    simp

/-- What is known of one step: when the loop goes on after it and when it has effects. -/
structure StepSpec (goesOn shows : σ → α → Prop) : Prop where
  stop_iff : ∀ s x, (step s x).stop = none ↔ goesOn s x
  silent_iff : ∀ s x, effects visible (step s x) = [] ↔ ¬ shows s x
  shows_of_goesOn : ∀ s x, goesOn s x → shows s x

variable {step visible} {goesOn shows : σ → α → Prop}

/-- A batch has no effects exactly when its first item has none. -/
theorem StepSpec.run_silent_iff (h : StepSpec step visible goesOn shows) (s : σ) (ys : List α) :
    effects visible (run step s ys) = [] ↔ ∀ y ∈ ys.head?, ¬ shows s y := by
  cases ys with
  | nil => simp [run, effects]
  | cons y ys =>
    have hy := h.silent_iff s y
    rw [effects] at hy
    cases hstop : (step s y).stop with
    | some r => simpa [run_cons_of_stop step hstop, effects] using hy
    | none =>
      have hshows : shows s y := h.shows_of_goesOn s y ((h.stop_iff s y).mp hstop)
      have hne : (step s y).events.filter visible ≠ [] := fun hnil => hy.mp hnil hshows
      rw [run_cons_of_goes_on step hstop, effects, List.filter_append, List.append_eq_nil_iff]
      exact iff_of_false (fun hnil => hne hnil.1) (fun hnot => hnot y rfl hshows)

theorem StepSpec.independent_iff (h : StepSpec step visible goesOn shows) (s : σ) (xs ys : List α) :
    effects visible (run step s (xs ++ ys)) =
        effects visible (run step s xs) ++ effects visible (run step (run step s xs).state ys) ↔
      Each step goesOn s xs ∨ ∀ y ∈ ys.head?, ¬ shows (run step s xs).state y := by
  rw [effects_append_iff, run_stop_none_iff step h.stop_iff, h.run_silent_iff]

end Independent
end Batch
