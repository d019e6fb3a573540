import FaceRecognition.Library.PlaneFit
import Mathlib.Algebra.BigOperators.GroupWithZero.Action
import Mathlib.LinearAlgebra.Matrix.Adjugate
import Mathlib.LinearAlgebra.Matrix.Notation
import Mathlib.Tactic.Ring

/-! `dlib/geometry/point_transforms.h`: affine maps of the plane and how they are fitted to points.
The arithmetic is that of a field, and the singular value decomposition of `dlib/matrix` is a
parameter. -/
namespace FaceRecognition
open Matrix PlaneFit

variable {F : Type*} [Field F]

def lengthSquared (p : F × F) : F := p.1 * p.1 + p.2 * p.2

structure PointTransformAffine (F : Type*) where
  m : Matrix (Fin 2) (Fin 2) F
  b : F × F

/-- `m*p` -/
def timesVector (m : Matrix (Fin 2) (Fin 2) F) (p : F × F) : F × F :=
  (m 0 0 * p.1 + m 0 1 * p.2, m 1 0 * p.1 + m 1 1 * p.2)

def PointTransformAffine.apply (t : PointTransformAffine F) (p : F × F) : F × F :=
  timesVector t.m p + t.b

/-- `find_affine_transform` for three points; `pinv` of an invertible matrix is its inverse. -/
def findAffineTransform (from_points to_points : Fin 3 → F × F) : PointTransformAffine F :=
  let p : Matrix (Fin 3) (Fin 3) F :=
    Matrix.of ![fun i => (from_points i).1, fun i => (from_points i).2, fun _ => 1]
  let q : Matrix (Fin 2) (Fin 3) F := Matrix.of ![fun i => (to_points i).1, fun i => (to_points i).2]
  let m := q * (p.det⁻¹ • p.adjugate)
  ⟨m.submatrix id Fin.castSucc, (m 0 (Fin.last 2), m 1 (Fin.last 2))⟩

/-! ### The similarity transform -/

/-- What `svd` computes. -/
structure Svd (F : Type*) where
  u : Matrix (Fin 2) (Fin 2) F
  d : Matrix (Fin 2) (Fin 2) F
  v : Matrix (Fin 2) (Fin 2) F

def meanOf (points : List (F × F)) : F × F :=
  (points.sum.1 / points.length, points.sum.2 / points.length)

/-- `a*trans(b)` -/
def timesTrans (a b : F × F) : Matrix (Fin 2) (Fin 2) F := !![a.1 * b.1, a.1 * b.2; a.2 * b.1, a.2 * b.2]

def sigmaFrom (from_points : List (F × F)) : F :=
  (from_points.map fun p => lengthSquared (p - meanOf from_points)).sum / from_points.length

def covOf (from_points to_points : List (F × F)) : Matrix (Fin 2) (Fin 2) F :=
  ((from_points.zip to_points).map fun p =>
    timesTrans (p.2 - meanOf to_points) (p.1 - meanOf from_points)).sum.map (· / from_points.length)

variable [LinearOrder F]

/-- The signs that keep reflections out. -/
def signsOf (cov : Matrix (Fin 2) (Fin 2) F) (r : Svd F) : Matrix (Fin 2) (Fin 2) F :=
  if cov.det < 0 ∨ (cov.det = 0 ∧ r.u.det * r.v.det < 0) then
    if r.d 1 1 < r.d 0 0 then diagonal ![1, -1] else diagonal ![-1, 1]
  else 1

/-- `find_similarity_transform`, for lists of the same size. -/
def findSimilarityTransform (svd : Matrix (Fin 2) (Fin 2) F → Svd F)
    (from_points to_points : List (F × F)) : PointTransformAffine F :=
  let mean_from := meanOf from_points
  let mean_to := meanOf to_points
  let sigma_from := sigmaFrom from_points
  let cov := covOf from_points to_points
  let udv := svd cov
  let s := signsOf cov udv
  let r := udv.u * s * udv.vᵀ
  let c := if sigma_from ≠ 0 then 1 / sigma_from * (udv.d * s).trace else 1
  ⟨c • r, mean_to - timesVector (c • r) mean_from⟩

/-- What is promised of `svd`: orthogonal factors and nonnegative singular values in any order. -/
structure Svd.Of (r : Svd F) (m : Matrix (Fin 2) (Fin 2) F) : Prop where
  product : r.u * r.d * r.vᵀ = m
  u_orthogonal : r.uᵀ * r.u = 1
  v_orthogonal : r.vᵀ * r.v = 1
  diagonal : r.d.IsDiag
  nonneg : ∀ i, 0 ≤ r.d i i

section Signs

omit [LinearOrder F] in
theorem det_of_orthogonal {u : Matrix (Fin 2) (Fin 2) F} (h : uᵀ * u = 1) : u.det = 1 ∨ u.det = -1 := by
  apply mul_self_eq_one_iff.mp
  calc u.det * u.det = (uᵀ * u).det := by rw [det_mul, det_transpose]
    _ = 1 := by rw [h, det_one]

theorem signsOf_cases (cov : Matrix (Fin 2) (Fin 2) F) (r : Svd F) :
    (signsOf cov r).IsDiag ∧ signsOf cov r * signsOf cov r = 1 ∧
      (signsOf cov r).det = if cov.det < 0 ∨ (cov.det = 0 ∧ r.u.det * r.v.det < 0) then -1 else 1 := by
  have hone : (diagonal fun _ : Fin 2 => (1 : F)) = 1 := diagonal_one
  rw [signsOf]
  split
  · split
    · refine ⟨isDiag_diagonal _, ?_, by simp [det_diagonal]⟩
      rw [diagonal_mul_diagonal, ← hone]
      congr 1
      funext i
      fin_cases i <;> simp
    · refine ⟨isDiag_diagonal _, ?_, by simp [det_diagonal]⟩
      rw [diagonal_mul_diagonal, ← hone]
      congr 1
      funext i
      fin_cases i <;> simp
  · exact ⟨isDiag_one, mul_one 1, det_one⟩

variable [IsStrictOrderedRing F]

/-- With the signs, the orthogonal factors make a rotation and never a reflection. -/
theorem Svd.Of.det_rotation {r : Svd F} {cov : Matrix (Fin 2) (Fin 2) F} (h : r.Of cov) :
    (r.u * signsOf cov r * r.vᵀ).det = 1 := by
  have hd : r.d.det = r.d 0 0 * r.d 1 1 := by
    rw [det_fin_two, h.diagonal (by decide : (0 : Fin 2) ≠ 1), zero_mul, sub_zero]
  have hcov : cov.det = (r.u.det * r.v.det) * (r.d 0 0 * r.d 1 1) := by
    rw [← h.product, det_mul, det_mul, det_transpose, hd]
    ring
  have hprod : 0 ≤ r.d 0 0 * r.d 1 1 := mul_nonneg (h.nonneg 0) (h.nonneg 1)
  have hdet : (r.u * signsOf cov r * r.vᵀ).det = (r.u.det * r.v.det) * (signsOf cov r).det := by
    rw [det_mul, det_mul, det_transpose]
    ring
  have huv : r.u.det * r.v.det = 1 ∨ r.u.det * r.v.det = -1 := by
    rcases det_of_orthogonal h.u_orthogonal with hu | hu <;>
      rcases det_of_orthogonal h.v_orthogonal with hv | hv <;> simp [hu, hv]
  rw [hdet, (signsOf_cases cov r).2.2]
  rcases huv with huv | huv
  · rw [huv, one_mul] at hcov
    rw [if_neg, huv, one_mul]
    rintro (hneg | ⟨-, hneg⟩)
    · linarith
    · linarith
  · rw [huv] at hcov
    rw [if_pos, huv, neg_mul_neg, one_mul]
    rcases hprod.eq_or_lt with hzero | hpos
    · exact Or.inr ⟨by rw [hcov, ← hzero, mul_zero], by linarith⟩
    · exact Or.inl (by linarith)

end Signs

/-! ### The best similarity -/

/-- The sum of the squared distances between the carried points and the wanted ones. -/
def squaredErrorOf (t : PointTransformAffine F) (from_points to_points : List (F × F)) : F :=
  ((from_points.zip to_points).map fun p => lengthSquared (t.apply p.1 - p.2)).sum

section Best
variable {from_points to_points : List (F × F)}

/-- The points around their means, for each pair of points. -/
def fromMean (from_points : List (F × F)) (p : (F × F) × (F × F)) : F × F := p.1 - meanOf from_points

def toMean (to_points : List (F × F)) (p : (F × F) × (F × F)) : F × F := p.2 - meanOf to_points

omit [LinearOrder F] in
theorem sum_fst (points : List (F × F)) : points.sum.1 = (points.map Prod.fst).sum := by
  induction points with
  | nil => rfl
  | cons p points ih => rw [List.sum_cons, List.map_cons, List.sum_cons, Prod.fst_add, ih]

omit [LinearOrder F] in
theorem sum_snd (points : List (F × F)) : points.sum.2 = (points.map Prod.snd).sum := by
  induction points with
  | nil => rfl
  | cons p points ih => rw [List.sum_cons, List.map_cons, List.sum_cons, Prod.snd_add, ih]

omit [Field F] [LinearOrder F] in
theorem map_zip_fst {α : Type*} (hlen : from_points.length = to_points.length) (φ : F × F → α) :
    (from_points.zip to_points).map (fun p => φ p.1) = from_points.map φ := by
  conv_rhs => rw [← List.map_fst_zip hlen.le, List.map_map]
  rfl

omit [Field F] [LinearOrder F] in
theorem map_zip_snd {α : Type*} (hlen : from_points.length = to_points.length) (φ : F × F → α) :
    (from_points.zip to_points).map (fun p => φ p.2) = to_points.map φ := by
  conv_rhs => rw [← List.map_snd_zip hlen.ge, List.map_map]
  rfl

omit [LinearOrder F] in
theorem sum_sub_meanOf [CharZero F] {points : List (F × F)} (hne : points ≠ []) :
    (points.map fun p => (p - meanOf points).1).sum = 0 ∧
      (points.map fun p => (p - meanOf points).2).sum = 0 := by
  simp only [Prod.fst_sub, Prod.snd_sub, meanOf, sum_fst, sum_snd]
  exact ⟨sum_sub_mean Prod.fst hne, sum_sub_mean Prod.snd hne⟩

omit [LinearOrder F] in
theorem centred [CharZero F] (hlen : from_points.length = to_points.length) (hne : from_points ≠ []) :
    Centred (fromMean from_points) (toMean to_points) (from_points.zip to_points) := by
  have hne' : to_points ≠ [] := by
    rw [ne_eq, ← List.length_eq_zero_iff, ← hlen]
    exact fun h => hne (List.length_eq_zero_iff.mp h)
  obtain ⟨hf1, hf2⟩ := sum_sub_meanOf hne
  obtain ⟨hg1, hg2⟩ := sum_sub_meanOf hne'
  exact {
    f1 := (congrArg List.sum (map_zip_fst hlen fun p => (p - meanOf from_points).1)).trans hf1
    f2 := (congrArg List.sum (map_zip_fst hlen fun p => (p - meanOf from_points).2)).trans hf2
    g1 := (congrArg List.sum (map_zip_snd hlen fun p => (p - meanOf to_points).1)).trans hg1
    g2 := (congrArg List.sum (map_zip_snd hlen fun p => (p - meanOf to_points).2)).trans hg2 }

omit [LinearOrder F] in
theorem sum_entry {ι : Type*} (l : List ι) (m : ι → Matrix (Fin 2) (Fin 2) F) (i j : Fin 2) :
    (l.map m).sum i j = (l.map fun k => m k i j).sum := by
  induction l with
  | nil => rfl
  | cons k l ih => rw [List.map_cons, List.sum_cons, Matrix.add_apply, ih, List.map_cons, List.sum_cons]

omit [LinearOrder F] in
theorem sigmaFrom_eq (hlen : from_points.length = to_points.length) :
    sigmaFrom from_points =
      spread (fromMean from_points) (from_points.zip to_points) / from_points.length := by
  have hmap := map_zip_fst hlen fun p => (p - meanOf from_points).1 ^ 2 + (p - meanOf from_points).2 ^ 2
  rw [sigmaFrom, spread]
  simp only [fromMean, hmap, lengthSquared, ← sq]

omit [LinearOrder F] in
theorem covOf_along : covOf from_points to_points 0 0 + covOf from_points to_points 1 1 =
    along (fromMean from_points) (toMean to_points) (from_points.zip to_points) /
      from_points.length := by
  simp only [covOf, map_apply, sum_entry, timesTrans, of_apply, cons_val', cons_val_zero, cons_val_one,
    cons_val_fin_one, along_eq, fromMean, toMean]
  rw [add_div]

omit [LinearOrder F] in
theorem covOf_across : covOf from_points to_points 1 0 - covOf from_points to_points 0 1 =
    across (fromMean from_points) (toMean to_points) (from_points.zip to_points) /
      from_points.length := by
  simp only [covOf, map_apply, sum_entry, timesTrans, of_apply, cons_val', cons_val_zero, cons_val_one,
    cons_val_fin_one, across_eq, fromMean, toMean]
  rw [sub_div]

/-- The linear part turns and scales; its coefficients solve the equations of the best fit. -/
theorem findSimilarityTransform_m [IsStrictOrderedRing F] {svd : Matrix (Fin 2) (Fin 2) F → Svd F}
    (hlen : from_points.length = to_points.length) (hne : from_points ≠ [])
    (hsvd : (svd (covOf from_points to_points)).Of (covOf from_points to_points)) :
    ∃ x y, (findSimilarityTransform svd from_points to_points).m = spiral x y ∧
      x * spread (fromMean from_points) (from_points.zip to_points) =
        along (fromMean from_points) (toMean to_points) (from_points.zip to_points) ∧
      y * spread (fromMean from_points) (from_points.zip to_points) =
        across (fromMean from_points) (toMean to_points) (from_points.zip to_points) := by
  have hn : (from_points.length : F) ≠ 0 := Nat.cast_ne_zero.mpr (List.length_pos_iff.mpr hne).ne'
  obtain ⟨hdiag, hsq, -⟩ := signsOf_cases (covOf from_points to_points)
    (svd (covOf from_points to_points))
  have hrot := trace_smul_rotation hsvd.product hsvd.u_orthogonal hsvd.v_orthogonal hsvd.diagonal hdiag hsq
    hsvd.det_rotation
  rw [covOf_along, covOf_across] at hrot
  by_cases hspread : spread (fromMean from_points) (from_points.zip to_points) = 0
  · have hsigma : sigmaFrom from_points = 0 := by rw [sigmaFrom_eq hlen, hspread, zero_div]
    obtain ⟨halong, hacross⟩ := sums_of_spread_eq_zero (g := toMean to_points) hspread
    have hm := eq_spiral_of_rotation
      (rotation_orthogonal hsvd.u_orthogonal hsvd.v_orthogonal hdiag hsq) hsvd.det_rotation
    refine ⟨_, _, Eq.trans ?_ hm, ?_, ?_⟩
    · simp [findSimilarityTransform, hsigma]
    · rw [hspread, mul_zero, halong]
    · rw [hspread, mul_zero, hacross]
  · have hsigma : sigmaFrom from_points ≠ 0 := by
      rw [sigmaFrom_eq hlen]
      exact div_ne_zero hspread hn
    have hm : (findSimilarityTransform svd from_points to_points).m = (1 / sigmaFrom from_points) •
        ((svd (covOf from_points to_points)).d *
          signsOf (covOf from_points to_points) (svd (covOf from_points to_points))).trace •
            ((svd (covOf from_points to_points)).u *
              signsOf (covOf from_points to_points) (svd (covOf from_points to_points)) *
                (svd (covOf from_points to_points)).vᵀ) := by
      simp [findSimilarityTransform, hsigma, mul_smul]
    rw [hrot, spiral_smul, sigmaFrom_eq hlen] at hm
    refine ⟨_, _, hm, ?_, ?_⟩
    · field_simp
    · field_simp

omit [LinearOrder F] in
/-- Around the means, the error of a similarity is that of its linear part and a remaining shift. -/
theorem squaredErrorOf_spiral (x y : F) (b : F × F) :
    squaredErrorOf ⟨spiral x y, b⟩ from_points to_points =
      squaredError x y (timesVector (spiral x y) (meanOf from_points) + b - meanOf to_points)
        (fromMean from_points) (toMean to_points) (from_points.zip to_points) := by
  refine congrArg List.sum (List.map_congr_left fun p _ => ?_)
  simp only [lengthSquared, PointTransformAffine.apply, timesVector, spiral, fromMean, toMean, of_apply,
    cons_val', cons_val_zero, cons_val_one, cons_val_fin_one, Prod.fst_add, Prod.snd_add, Prod.fst_sub,
    Prod.snd_sub]
  ring

theorem findSimilarityTransform_b (svd : Matrix (Fin 2) (Fin 2) F → Svd F)
    (from_points to_points : List (F × F)) :
    (findSimilarityTransform svd from_points to_points).b = meanOf to_points -
      timesVector (findSimilarityTransform svd from_points to_points).m (meanOf from_points) := rfl

/-- The transform that is found turns, scales and shifts the points, without reflecting them, and no
other such transform has a smaller squared error. -/
theorem findSimilarityTransform_best [IsStrictOrderedRing F]
    {svd : Matrix (Fin 2) (Fin 2) F → Svd F} (hlen : from_points.length = to_points.length)
    (hne : from_points ≠ [])
    (hsvd : (svd (covOf from_points to_points)).Of (covOf from_points to_points)) :
    ∃ x y b, findSimilarityTransform svd from_points to_points = ⟨spiral x y, b⟩ ∧
      ∀ x' y' b', squaredErrorOf ⟨spiral x y, b⟩ from_points to_points ≤
        squaredErrorOf ⟨spiral x' y', b'⟩ from_points to_points := by
  obtain ⟨x, y, hm, hx, hy⟩ := findSimilarityTransform_m hlen hne hsvd
  have hb := findSimilarityTransform_b svd from_points to_points
  rw [hm] at hb
  refine ⟨x, y, _, congrArg₂ PointTransformAffine.mk hm hb, fun x' y' b' => ?_⟩
  have hshift : timesVector (spiral x y) (meanOf from_points) +
      (meanOf to_points - timesVector (spiral x y) (meanOf from_points)) - meanOf to_points = 0 := by
    abel
  rw [squaredErrorOf_spiral, squaredErrorOf_spiral, hshift]
  exact best_fit (centred hlen hne) hx hy x' y' _

/-- The decomposition of a quarter turn of the first axis, by a reflection. -/
def quarterSvd (_ : Matrix (Fin 2) (Fin 2) ℚ) : Svd ℚ := ⟨!![0, 1; 1, 0], diagonal ![1, 0], 1⟩

theorem findSimilarityTransform_best_quarter :
    ∃ x y b, findSimilarityTransform quarterSvd [(0, 0), (2, 0)] [(0, 0), (0, 2)] =
        ⟨spiral (x : ℚ) y, b⟩ ∧
      ∀ x' y' b', squaredErrorOf ⟨spiral x y, b⟩ [(0, 0), (2, 0)] [(0, 0), (0, 2)] ≤
        squaredErrorOf ⟨spiral x' y', b'⟩ [(0, 0), (2, 0)] [(0, 0), (0, 2)] := by
  refine findSimilarityTransform_best rfl (by decide) ⟨?_, ?_, ?_, isDiag_diagonal _, ?_⟩
  · decide +kernel
  · decide +kernel
  · decide +kernel
  · decide +kernel

omit [LinearOrder F] in
theorem meanOf_moved [CharZero F] (hne : from_points ≠ []) (m : Matrix (Fin 2) (Fin 2) F) (b : F × F) :
    meanOf (from_points.map fun p => timesVector m p + b) = timesVector m (meanOf from_points) + b := by
  have hn : (from_points.length : F) ≠ 0 := Nat.cast_ne_zero.mpr (List.length_pos_iff.mpr hne).ne'
  have h1 : ((from_points.map fun p => timesVector m p + b).map Prod.fst).sum =
      m 0 0 * (from_points.map Prod.fst).sum + m 0 1 * (from_points.map Prod.snd).sum +
        from_points.length * b.1 := by
    simp only [List.map_map, Function.comp_def, timesVector, Prod.fst_add, List.sum_map_add,
      List.sum_map_mul_left, List.map_const', List.sum_replicate, nsmul_eq_mul]
  have h2 : ((from_points.map fun p => timesVector m p + b).map Prod.snd).sum =
      m 1 0 * (from_points.map Prod.fst).sum + m 1 1 * (from_points.map Prod.snd).sum +
        from_points.length * b.2 := by
    simp only [List.map_map, Function.comp_def, timesVector, Prod.snd_add, List.sum_map_add,
      List.sum_map_mul_left, List.map_const', List.sum_replicate, nsmul_eq_mul]
  simp only [meanOf, sum_fst, sum_snd, h1, h2, List.length_map]
  ext
  · simp only [timesVector, Prod.fst_add]
    field_simp
  · simp only [timesVector, Prod.snd_add]
    field_simp

/-- Of different points that were turned, scaled and shifted, it finds how. -/
theorem findSimilarityTransform_moved [IsStrictOrderedRing F]
    {svd : Matrix (Fin 2) (Fin 2) F → Svd F} {x y : F} {b : F × F} {p q : F × F}
    (hp : p ∈ from_points) (hq : q ∈ from_points) (hpq : p ≠ q)
    (hto : to_points = from_points.map fun p => timesVector (spiral x y) p + b)
    (hsvd : (svd (covOf from_points to_points)).Of (covOf from_points to_points)) :
    findSimilarityTransform svd from_points to_points = ⟨spiral x y, b⟩ := by
  have hne : from_points ≠ [] := List.ne_nil_of_mem hp
  have hlen : from_points.length = to_points.length := by rw [hto, List.length_map]
  have hmean : meanOf to_points = timesVector (spiral x y) (meanOf from_points) + b := by
    rw [hto, meanOf_moved hne]
  have hturned : ∀ r ∈ from_points.zip to_points, toMean to_points r =
      (x * (fromMean from_points r).1 - y * (fromMean from_points r).2,
        y * (fromMean from_points r).1 + x * (fromMean from_points r).2) := by
    intro r hr
    have hr2 : r.2 = timesVector (spiral x y) r.1 + b := by
      rw [hto, ← List.map_id from_points, List.map_map, List.zip_map'] at hr
      obtain ⟨p, -, rfl⟩ := List.mem_map.mp hr
      rfl
    simp only [toMean, hr2, hmean, fromMean, timesVector, spiral, of_apply, cons_val', cons_val_zero,
      cons_val_one, cons_val_fin_one]
    ext
    · simp only [Prod.fst_add, Prod.fst_sub, Prod.snd_sub]
      ring
    · simp only [Prod.snd_add, Prod.fst_sub, Prod.snd_sub]
      ring
  have hspread : spread (fromMean from_points) (from_points.zip to_points) ≠ 0 := by
    intro hzero
    have hmem (p : F × F) (hp : p ∈ from_points) : p = meanOf from_points := by
      rw [← List.map_fst_zip hlen.le] at hp
      obtain ⟨r, hr, rfl⟩ := List.mem_map.mp hp
      exact sub_eq_zero.mp (eq_zero_of_spread hzero hr)
    exact hpq ((hmem p hp).trans (hmem q hq).symm)
  obtain ⟨x', y', hm, hx, hy⟩ := findSimilarityTransform_m hlen hne hsvd
  obtain ⟨halong, hacross⟩ := sums_of_moved hturned
  obtain rfl : x' = x := mul_right_cancel₀ hspread (hx.trans halong)
  obtain rfl : y' = y := mul_right_cancel₀ hspread (hy.trans hacross)
  have hb := findSimilarityTransform_b svd from_points to_points
  rw [hm, hmean, add_sub_cancel_left] at hb
  exact congrArg₂ PointTransformAffine.mk hm hb

end Best

end FaceRecognition
