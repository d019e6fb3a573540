import Mathlib.Algebra.BigOperators.Ring.List
import Mathlib.Algebra.Order.BigOperators.Group.List
import Mathlib.LinearAlgebra.Matrix.Adjugate
import Mathlib.LinearAlgebra.Matrix.IsDiag
import Mathlib.LinearAlgebra.Matrix.Notation
import Mathlib.LinearAlgebra.Matrix.Trace
import Mathlib.Tactic.LinearCombination
import Mathlib.Tactic.FieldSimp

/-! Fitting one list of points of the plane to another by turning and scaling: the linear maps that
turn and scale are the matrices `spiral x y`, the best of them follows from two sums over the points,
and a decomposition of the correlation matrix into orthogonal and diagonal ones yields it. -/
namespace PlaneFit
open Matrix

variable {F : Type*} [Field F]

/-- The multiplication by `x + iy`. -/
def spiral (x y : F) : Matrix (Fin 2) (Fin 2) F := !![x, -y; y, x]

theorem spiral_smul (c x y : F) : c • spiral x y = spiral (c * x) (c * y) := by
  ext i j
  fin_cases i <;> fin_cases j <;> simp [spiral]

/-- The rotations are the orthogonal matrices of determinant one. -/
theorem eq_spiral_of_rotation {r : Matrix (Fin 2) (Fin 2) F} (h : rᵀ * r = 1) (hdet : r.det = 1) :
    r = spiral (r 0 0) (r 1 0) := by
  have hadj : rᵀ = r.adjugate := by
    calc rᵀ = rᵀ * (r * r.adjugate) := by rw [mul_adjugate, hdet, one_smul, mul_one]
      _ = r.adjugate := by rw [← mul_assoc, h, one_mul]
  have h00 : r 0 0 = r 1 1 := by
    have := congrFun (congrFun hadj 0) 0
    simpa [adjugate_fin_two] using this
  have h01 : r 1 0 = -r 0 1 := by
    have := congrFun (congrFun hadj 0) 1
    simpa [adjugate_fin_two] using this
  ext i j
  fin_cases i <;> fin_cases j <;> simp [spiral, h00, h01]

/-- What turns and scales in `m`, from a rotation that makes it symmetric. -/
theorem trace_smul_of_symm {r m : Matrix (Fin 2) (Fin 2) F} (horth : rᵀ * r = 1) (hdet : r.det = 1)
    (hsymm : (rᵀ * m)ᵀ = rᵀ * m) :
    (rᵀ * m).trace • r = spiral (m 0 0 + m 1 1) (m 1 0 - m 0 1) := by
  obtain ⟨a, b, hab⟩ : ∃ a b, r = spiral a b := ⟨_, _, eq_spiral_of_rotation horth hdet⟩
  rw [hab] at hsymm hdet ⊢
  have hone : a * a + b * b = 1 := by
    simpa [spiral, det_fin_two] using hdet
  have htrace : ((spiral a b)ᵀ * m).trace = a * (m 0 0 + m 1 1) + b * (m 1 0 - m 0 1) := by
    simp only [trace_fin_two, mul_apply, Fin.sum_univ_two, transpose_apply, spiral, of_apply, cons_val',
      cons_val_zero, cons_val_one, cons_val_fin_one]
    ring
  have hcross : b * (m 0 0 + m 1 1) = a * (m 1 0 - m 0 1) := by
    have h01 := congrFun (congrFun hsymm 0) 1
    simp only [mul_apply, Fin.sum_univ_two, transpose_apply, spiral, of_apply, cons_val',
      cons_val_zero, cons_val_one, cons_val_fin_one] at h01
    linear_combination -h01
  rw [spiral_smul, htrace]
  congr 1
  · linear_combination (m 0 0 + m 1 1) * hone - b * hcross
  · linear_combination (m 1 0 - m 0 1) * hone + a * hcross

theorem rotation_orthogonal {u s v : Matrix (Fin 2) (Fin 2) F} (hu : uᵀ * u = 1) (hv : vᵀ * v = 1)
    (hs : s.IsDiag) (hss : s * s = 1) : (u * s * vᵀ)ᵀ * (u * s * vᵀ) = 1 := by
  have hst : sᵀ = s := hs.isSymm
  calc (u * s * vᵀ)ᵀ * (u * s * vᵀ) = v * s * (uᵀ * u) * s * vᵀ := by
        rw [transpose_mul, transpose_mul, transpose_transpose, hst]
        simp only [mul_assoc]
    _ = v * (s * s) * vᵀ := by rw [hu, mul_one]; simp only [mul_assoc]
    _ = 1 := by rw [hss, mul_one, mul_eq_one_comm.mp hv]

/-- When `m = u d vᵀ` with orthogonal `u` and `v` and diagonal `d`, and the signs `s` make `u s vᵀ` a
rotation, then this rotation times the trace of `d s` is what turns and scales in `m`. -/
theorem trace_smul_rotation {m u d s v : Matrix (Fin 2) (Fin 2) F} (hm : u * d * vᵀ = m)
    (hu : uᵀ * u = 1) (hv : vᵀ * v = 1) (hd : d.IsDiag) (hs : s.IsDiag) (hss : s * s = 1)
    (hdet : (u * s * vᵀ).det = 1) :
    (d * s).trace • (u * s * vᵀ) = spiral (m 0 0 + m 1 1) (m 1 0 - m 0 1) := by
  have hst : sᵀ = s := hs.isSymm
  have hdt : dᵀ = d := hd.isSymm
  have hsd : s * d = d * s := by
    rw [← hs.diagonal_diag, ← hd.diagonal_diag, diagonal_mul_diagonal, diagonal_mul_diagonal]
    simp only [mul_comm]
  have hrt : (u * s * vᵀ)ᵀ = v * s * uᵀ := by
    rw [transpose_mul, transpose_mul, transpose_transpose, hst, mul_assoc]
  have hprod : (u * s * vᵀ)ᵀ * m = v * (d * s) * vᵀ := by
    calc (u * s * vᵀ)ᵀ * m = v * s * (uᵀ * u) * d * vᵀ := by rw [hrt, ← hm]; simp only [mul_assoc]
      _ = v * (d * s) * vᵀ := by rw [hu, mul_one, mul_assoc v s d, hsd]
  have hsymm : ((u * s * vᵀ)ᵀ * m)ᵀ = (u * s * vᵀ)ᵀ * m := by
    rw [hprod, transpose_mul, transpose_mul, transpose_transpose, transpose_mul, hst, hdt, hsd]
    simp only [mul_assoc]
  have htrace : ((u * s * vᵀ)ᵀ * m).trace = (d * s).trace := by
    rw [hprod, trace_mul_comm, ← mul_assoc, hv, one_mul]
  rw [← htrace]
  exact trace_smul_of_symm (rotation_orthogonal hu hv hs hss) hdet hsymm

/-! ### Least squares -/

section Sums
variable {ι : Type*} {l : List ι} {f g : ι → F × F}

/-- The sum of the squared distances. -/
def squaredError (x y : F) (w : F × F) (f g : ι → F × F) (l : List ι) : F :=
  (l.map fun i => (x * (f i).1 - y * (f i).2 + w.1 - (g i).1) ^ 2 +
    (y * (f i).1 + x * (f i).2 + w.2 - (g i).2) ^ 2).sum

/-- The sum of a list around its mean. -/
theorem sum_sub_mean [CharZero F] (h : ι → F) (hne : l ≠ []) :
    (l.map fun i => h i - (l.map h).sum / l.length).sum = 0 := by
  have hn : (l.length : F) ≠ 0 := Nat.cast_ne_zero.mpr (List.length_pos_iff.mpr hne).ne'
  have hsub : (l.map fun i => h i + -((l.map h).sum / l.length)).sum = 0 := by
    rw [List.sum_map_add, List.map_const', List.sum_replicate, nsmul_eq_mul]
    field_simp
    ring
  simpa only [sub_eq_add_neg] using hsub

structure Centred (f g : ι → F × F) (l : List ι) : Prop where
  f1 : (l.map fun i => (f i).1).sum = 0
  f2 : (l.map fun i => (f i).2).sum = 0
  g1 : (l.map fun i => (g i).1).sum = 0
  g2 : (l.map fun i => (g i).2).sum = 0

/-! The three sums over the centred points. -/

def spread (f : ι → F × F) (l : List ι) : F := (l.map fun i => (f i).1 ^ 2 + (f i).2 ^ 2).sum

def along (f g : ι → F × F) (l : List ι) : F :=
  (l.map fun i => (g i).1 * (f i).1 + (g i).2 * (f i).2).sum

def across (f g : ι → F × F) (l : List ι) : F :=
  (l.map fun i => (g i).2 * (f i).1 - (g i).1 * (f i).2).sum

theorem along_eq : along f g l =
    (l.map fun i => (g i).1 * (f i).1).sum + (l.map fun i => (g i).2 * (f i).2).sum :=
  List.sum_map_add

theorem across_eq : across f g l =
    (l.map fun i => (g i).2 * (f i).1).sum - (l.map fun i => (g i).1 * (f i).2).sum := by
  have hneg (i : ι) : (g i).2 * (f i).1 - (g i).1 * (f i).2 =
      (g i).2 * (f i).1 + -1 * ((g i).1 * (f i).2) := by ring
  rw [across]
  simp only [hneg, List.sum_map_add, List.sum_map_mul_left]
  ring

variable [LinearOrder F] [IsStrictOrderedRing F]

/-- Without spread all the points are at their mean. -/
theorem eq_zero_of_spread (h : spread f l = 0) {i : ι} (hi : i ∈ l) : f i = 0 := by
  have hle := List.single_le_sum (l := l.map fun i => (f i).1 ^ 2 + (f i).2 ^ 2)
    (fun _ hx => by obtain ⟨j, -, rfl⟩ := List.mem_map.mp hx; positivity) _ (List.mem_map_of_mem hi)
  rw [← spread, h] at hle
  ext
  · rw [Prod.fst_zero]
    nlinarith [sq_nonneg (f i).1, sq_nonneg (f i).2]
  · rw [Prod.snd_zero]
    nlinarith [sq_nonneg (f i).1, sq_nonneg (f i).2]

theorem sums_of_spread_eq_zero (h : spread f l = 0) : along f g l = 0 ∧ across f g l = 0 := by
  constructor
  · exact List.sum_eq_zero fun _ hx => by
      obtain ⟨i, hi, rfl⟩ := List.mem_map.mp hx
      simp [eq_zero_of_spread h hi]
  · exact List.sum_eq_zero fun _ hx => by
      obtain ⟨i, hi, rfl⟩ := List.mem_map.mp hx
      simp [eq_zero_of_spread h hi]

omit [LinearOrder F] [IsStrictOrderedRing F] in
/-- The sums of points that are turned and scaled. -/
theorem sums_of_moved {x y : F}
    (h : ∀ i ∈ l, g i = (x * (f i).1 - y * (f i).2, y * (f i).1 + x * (f i).2)) :
    along f g l = x * spread f l ∧ across f g l = y * spread f l := by
  rw [along, across, spread, ← List.sum_map_mul_left, ← List.sum_map_mul_left]
  constructor
  · refine congrArg List.sum (List.map_congr_left fun i hi => ?_)
    rw [h i hi]
    ring
  · refine congrArg List.sum (List.map_congr_left fun i hi => ?_)
    rw [h i hi]
    ring

/-- The residuals of the best fit are orthogonal to every change of it. -/
theorem squaredError_add (hc : Centred f g l) {x y : F} (hx : x * spread f l = along f g l)
    (hy : y * spread f l = across f g l) (x' y' : F) (w : F × F) :
    squaredError x' y' w f g l = squaredError x y 0 f g l + squaredError (x' - x) (y' - y) w f 0 l := by
  have hpoint : ∀ i, (x' * (f i).1 - y' * (f i).2 + w.1 - (g i).1) ^ 2 +
      (y' * (f i).1 + x' * (f i).2 + w.2 - (g i).2) ^ 2 =
      ((x * (f i).1 - y * (f i).2 + (0 : F × F).1 - (g i).1) ^ 2 +
        (y * (f i).1 + x * (f i).2 + (0 : F × F).2 - (g i).2) ^ 2) +
      (((x' - x) * (f i).1 - (y' - y) * (f i).2 + w.1 - ((0 : ι → F × F) i).1) ^ 2 +
        ((y' - y) * (f i).1 + (x' - x) * (f i).2 + w.2 - ((0 : ι → F × F) i).2) ^ 2) +
      ((2 * ((x' - x) * x + (y' - y) * y)) * ((f i).1 ^ 2 + (f i).2 ^ 2) +
        (-(2 * (x' - x))) * ((g i).1 * (f i).1 + (g i).2 * (f i).2) +
        (-(2 * (y' - y))) * ((g i).2 * (f i).1 - (g i).1 * (f i).2) +
        (2 * (w.1 * x + w.2 * y)) * (f i).1 + (2 * (w.2 * x - w.1 * y)) * (f i).2 +
        (-(2 * w.1)) * (g i).1 + (-(2 * w.2)) * (g i).2) := by
    intro i
    simp only [Pi.zero_apply, Prod.fst_zero, Prod.snd_zero]
    ring
  rw [squaredError, squaredError, squaredError]
  simp only [hpoint]
  simp only [List.sum_map_add, List.sum_map_mul_left, hc.f1, hc.f2, hc.g1, hc.g2]
  simp only [spread, along, across, List.sum_map_add] at hx hy
  linear_combination (2 * (x' - x)) * hx + (2 * (y' - y)) * hy

theorem squaredError_nonneg (x y : F) (w : F × F) (f g : ι → F × F) (l : List ι) :
    0 ≤ squaredError x y w f g l :=
  List.sum_nonneg fun _ h => by
    obtain ⟨i, -, rfl⟩ := List.mem_map.mp h
    positivity

theorem best_fit (hc : Centred f g l) {x y : F} (hx : x * spread f l = along f g l)
    (hy : y * spread f l = across f g l) (x' y' : F) (w : F × F) :
    squaredError x y 0 f g l ≤ squaredError x' y' w f g l := by
  rw [squaredError_add hc hx hy x' y' w]
  exact le_add_of_nonneg_right (squaredError_nonneg _ _ _ _ _ _)

end Sums

end PlaneFit
