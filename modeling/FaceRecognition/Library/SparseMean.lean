import FaceRecognition.Library.GramSpan

/-! The mean of a stream of vectors, kept as a combination of a few of them. A vector near the
span of those kept is replaced by its projection; a full set makes room for a new one by giving up
the vector nearest to the span of the others. -/
namespace SparseMean
open GramSpan

/-- The vectors kept and the mean; `crowded` once one of them had to make room. -/
structure State (H : Type*) where
  vectors : Finset H
  center : H
  crowded : Bool

/-- How far a vector must be from the span of the others to be kept, where `epsilon` is for the
first one, and how many are kept. With `byStrength` the weakest one is given up, else any one. -/
structure Budget where
  tolerance : ℝ
  epsilon : ℝ
  room : Nat
  byStrength : Bool

variable {H : Type*} [NormedAddCommGroup H] [InnerProductSpace ℝ H] [DecidableEq H]

/-- The others express `w` best. -/
def IsWeakest (s : Finset H) (w : H) : Prop :=
  w ∈ s ∧ ∀ v ∈ s, residual (s.erase w) w ≤ residual (s.erase v) v

/-- The vectors kept do not express `x`, and once crowded express it less than their weakest. -/
structure Novel (b : Budget) (m : State H) (x : H) : Prop where
  tolerance : (if m.vectors = ∅ then b.epsilon else b.tolerance) < residual m.vectors x
  strength : m.crowded = true → ∀ w, IsWeakest m.vectors w →
    residual (m.vectors.erase w) w < residual m.vectors x

/-- The mean is scaled by `cs` and `x` is added with the weight `xs`. -/
inductive Step (b : Budget) (x : H) (cs xs : ℝ) (m : State H) : State H → Prop where
  | blend (hnot : ¬ Novel b m x) :
      Step b x cs xs m { m with center := cs • m.center + xs • projection m.vectors x }
  | add (hnovel : Novel b m x) (hroom : m.vectors.card < b.room) :
      Step b x cs xs m
        { m with vectors := insert x m.vectors, center := cs • m.center + xs • x }
  | replace (hnovel : Novel b m x) (hfull : b.room ≤ m.vectors.card) (w : H) (hw : w ∈ m.vectors)
      (hweakest : b.byStrength = true → IsWeakest m.vectors w) :
      Step b x cs xs m ⟨insert x (m.vectors.erase w),
        cs • projection (m.vectors.erase w) m.center + xs • x, b.byStrength⟩

/-- What is left after the vectors of a list with the weights of a mean. -/
inductive MeanRun (b : Budget) : List H → State H → Prop where
  | nil : MeanRun b [] ⟨∅, 0, false⟩
  | snoc {xs : List H} {m m' : State H} (h : MeanRun b xs m) (x : H)
      (hstep : Step b x (1 - 1 / (xs.length + 1)) (1 / (xs.length + 1)) m m') :
      MeanRun b (xs ++ [x]) m'

variable {b : Budget} {m m' : State H} {x : H} {cs xs : ℝ}

/-! ### How far it is from the exact mean -/

theorem Step.not_crowded (h : Step b x cs xs m m') (hb : b.byStrength = true)
    (hm' : m'.crowded = false) : m.crowded = false := by
  cases h with
  | blend => exact hm'
  | add => exact hm'
  | replace =>
    rw [hb] at hm'
    exact absurd hm' (by simp)

/-- Before a vector had to make room, a step adds the new vector up to the tolerance. -/
theorem Step.error_le (h : Step b x cs xs m m') (hb : b.byStrength = true)
    (hm' : m'.crowded = false) :
    ∃ e : H, m'.center = cs • m.center + xs • (x + e) ∧ ‖e‖ ≤ √(max b.tolerance b.epsilon) := by
  have hm := h.not_crowded hb hm'
  cases h with
  | blend hnot =>
    have hres : residual m.vectors x ≤ max b.tolerance b.epsilon := by
      by_contra hgt
      refine hnot ⟨?_, fun hc => absurd hc (by simp [hm])⟩
      split
      · exact (le_max_right _ _).trans_lt (not_le.mp hgt)
      · exact (le_max_left _ _).trans_lt (not_le.mp hgt)
    refine ⟨projection m.vectors x - x, by rw [add_sub_cancel], ?_⟩
    rw [residual_eq_norm] at hres
    rw [norm_sub_rev]
    exact Real.le_sqrt_of_sq_le hres
  | add => exact ⟨0, by rw [add_zero], by simp⟩
  | replace =>
    rw [hb] at hm'
    exact absurd hm' (by simp)

/-- Before a vector had to make room, the mean is as near to the exact mean as the tolerance. -/
theorem MeanRun.error_le {l : List H} (h : MeanRun b l m) (hb : b.byStrength = true)
    (hm : m.crowded = false) :
    ‖(l.length : ℝ) • m.center - l.sum‖ ≤ l.length * √(max b.tolerance b.epsilon) := by
  induction h with
  | nil => simp
  | @snoc l m m' h x hstep ih =>
    obtain ⟨e, hcenter, he⟩ := hstep.error_le hb hm
    have hn : ((l.length : ℝ) + 1) ≠ 0 := by positivity
    have hsplit : ((l ++ [x]).length : ℝ) • m'.center - (l ++ [x]).sum =
        ((l.length : ℝ) • m.center - l.sum) + e := by
      have hcs : ((l.length : ℝ) + 1) * (1 - 1 / (l.length + 1)) = l.length := by
        field_simp
        ring
      have hxs : ((l.length : ℝ) + 1) * (1 / (l.length + 1)) = 1 := by field_simp
      rw [hcenter, List.length_append, List.sum_append, List.length_singleton, List.sum_singleton,
        Nat.cast_add, Nat.cast_one, smul_add, smul_smul, smul_smul, hcs, hxs, one_smul]
      abel
    rw [hsplit]
    calc
      ‖(l.length : ℝ) • m.center - l.sum + e‖
          ≤ ‖(l.length : ℝ) • m.center - l.sum‖ + ‖e‖ := norm_add_le _ _
      _ ≤ l.length * √(max b.tolerance b.epsilon) + √(max b.tolerance b.epsilon) :=
        add_le_add (ih (hstep.not_crowded hb hm)) he
      _ = (l ++ [x]).length * √(max b.tolerance b.epsilon) := by
        rw [List.length_append, List.length_singleton, Nat.cast_add, Nat.cast_one]
        ring

end SparseMean
