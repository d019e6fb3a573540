import Mathlib.Analysis.SpecialFunctions.Trigonometric.Inverse
import Mathlib.Analysis.SpecialFunctions.Trigonometric.Arctan
import Mathlib.LinearAlgebra.Matrix.Notation
import Mathlib.Tactic.Linarith
import Mathlib.Tactic.LinearCombination

/-! Rotations of the plane about a point, as the 2x3 matrices of affine maps, and the
angle of a vector recovered from the arc cosine and the sign of one coordinate. The `y`
axis points down, so a positive angle is counter-clockwise for the viewer. -/
namespace Rotation

/-- The matrix of the rotation by `θ` about `(cx, cy)`. -/
noncomputable def about (cx cy θ : ℝ) : Matrix (Fin 2) (Fin 3) ℝ :=
  !![Real.cos θ, Real.sin θ, (1 - Real.cos θ) * cx - Real.sin θ * cy;
     -Real.sin θ, Real.cos θ, Real.sin θ * cx + (1 - Real.cos θ) * cy]

/-- The points `p` and `q` as columns in homogeneous coordinates. -/
def columns (px py qx qy : ℝ) : Matrix (Fin 3) (Fin 2) ℝ := !![px, qx; py, qy; 1, 1]

theorem about_mul_columns (cx cy θ px py qx qy : ℝ) :
    about cx cy θ * columns px py qx qy =
      !![cx + (Real.cos θ * (px - cx) + Real.sin θ * (py - cy)),
         cx + (Real.cos θ * (qx - cx) + Real.sin θ * (qy - cy));
         cy + (Real.cos θ * (py - cy) - Real.sin θ * (px - cx)),
         cy + (Real.cos θ * (qy - cy) - Real.sin θ * (qx - cx))] := by
  ext i j
  fin_cases i <;> fin_cases j <;>
    simp [about, columns, Matrix.mul_apply, Fin.sum_univ_three] <;> ring

/-- The angle of `(a, b)` from the arc cosine of `a / ‖(a, b)‖`, which loses the sign of `b`. -/
noncomputable def angle (a b : ℝ) : ℝ :=
  if 0 < b then Real.arccos (a / √(a * a + b * b)) else -Real.arccos (a / √(a * a + b * b))

section Angle
variable {a b : ℝ}

theorem norm_pos (h : a ≠ 0 ∨ b ≠ 0) : 0 < √(a * a + b * b) := by
  apply Real.sqrt_pos.mpr
  rcases h with h | h
  · have := mul_self_pos.mpr h
    nlinarith [mul_self_nonneg b]
  · have := mul_self_pos.mpr h
    nlinarith [mul_self_nonneg a]

theorem norm_mul_self (a b : ℝ) : √(a * a + b * b) * √(a * a + b * b) = a * a + b * b :=
  Real.mul_self_sqrt (by nlinarith [mul_self_nonneg a, mul_self_nonneg b])

theorem abs_le_norm (a b : ℝ) : |a| ≤ √(a * a + b * b) := by
  apply Real.le_sqrt_of_sq_le
  rw [sq_abs]
  nlinarith [mul_self_nonneg b]

theorem cos_arccos_div (h : a ≠ 0 ∨ b ≠ 0) :
    Real.cos (Real.arccos (a / √(a * a + b * b))) = a / √(a * a + b * b) := by
  have hn := norm_pos h
  obtain ⟨h1, h2⟩ := abs_le.mp (abs_le_norm a b)
  apply Real.cos_arccos
  · rw [le_div_iff₀ hn]
    linarith
  · rw [div_le_one hn]
    exact h2

theorem sin_arccos_div (h : a ≠ 0 ∨ b ≠ 0) :
    Real.sin (Real.arccos (a / √(a * a + b * b))) = |b| / √(a * a + b * b) := by
  have hn := norm_pos h
  have hne : √(a * a + b * b) ^ 2 ≠ 0 := (pow_pos hn 2).ne'
  have hsq : 1 - (a / √(a * a + b * b)) ^ 2 = (|b| / √(a * a + b * b)) ^ 2 := by
    rw [div_pow, div_pow, sq_abs, eq_div_iff hne, sub_mul, div_mul_cancel₀ _ hne, sq,
      norm_mul_self]
    ring
  rw [Real.sin_arccos, hsq, Real.sqrt_sq (div_nonneg (abs_nonneg b) hn.le)]

theorem cos_angle (h : a ≠ 0 ∨ b ≠ 0) : Real.cos (angle a b) = a / √(a * a + b * b) := by
  unfold angle
  split
  · exact cos_arccos_div h
  · rw [Real.cos_neg]
    exact cos_arccos_div h

/-- The branch on the sign of `b` restores what the arc cosine lost. -/
theorem sin_angle (h : a ≠ 0 ∨ b ≠ 0) : Real.sin (angle a b) = b / √(a * a + b * b) := by
  unfold angle
  split
  next hb => rw [sin_arccos_div h, abs_of_pos hb]
  next hb => rw [Real.sin_neg, sin_arccos_div h, abs_of_nonpos (not_lt.mp hb), neg_div, neg_neg]

/-- Rotating a segment of direction `(a, b)` about a point of its line by the angle of
`(a, b)` makes the segment horizontal; `t` is the signed distance from the point. -/
theorem level (h : a ≠ 0 ∨ b ≠ 0) (t : ℝ) :
    Real.cos (angle a b) * (t * (a / √(a * a + b * b))) +
        Real.sin (angle a b) * (t * (b / √(a * a + b * b))) = t ∧
      Real.cos (angle a b) * (t * (b / √(a * a + b * b))) -
        Real.sin (angle a b) * (t * (a / √(a * a + b * b))) = 0 := by
  have hne := mul_ne_zero (norm_pos h).ne' (norm_pos h).ne'
  have hunit : a / √(a * a + b * b) * (a / √(a * a + b * b)) +
      b / √(a * a + b * b) * (b / √(a * a + b * b)) = 1 := by
    rw [div_mul_div_comm, div_mul_div_comm, ← add_div, div_eq_one_iff_eq hne, norm_mul_self]
  rw [cos_angle h, sin_angle h]
  constructor
  · linear_combination t * hunit
  · ring

end Angle
end Rotation
