import Mathlib.Analysis.InnerProductSpace.PiL2
import Mathlib.LinearAlgebra.Matrix.DotProduct

/-! Lists of reals as coordinate vectors: multiples of a list, and the cosine of the angle
between two lists with the two cases in which it takes an extreme value. -/
namespace Directions

/-- The first `n` entries of a list, filled up with zeros. -/
def coords (n : Nat) (a : List ℝ) : Fin n → ℝ := fun i => a.getD i 0

/-- The cosine of the angle between two lists; 0 when one of them is zero. -/
noncomputable def cos (n : Nat) (a b : List ℝ) : ℝ :=
  coords n a ⬝ᵥ coords n b / (√(coords n a ⬝ᵥ coords n a) * √(coords n b ⬝ᵥ coords n b))

variable {n : Nat} {a b : List ℝ}

/-! ### Coordinates -/

@[simp] theorem coords_apply (n : Nat) (a : List ℝ) (i : Fin n) : coords n a i = a.getD i 0 := rfl

theorem dotProduct_coords (n : Nat) (a b : List ℝ) :
    coords n a ⬝ᵥ coords n b = ∑ i ∈ Finset.range n, a.getD i 0 * b.getD i 0 :=
  (Finset.sum_range fun i => a.getD i 0 * b.getD i 0).symm

theorem getD_map_mul (k : ℝ) (a : List ℝ) (i : Nat) : (a.map (k * ·)).getD i 0 = k * a.getD i 0 := by
  cases h : a[i]? <;> simp [List.getD, h]

theorem coords_map (n : Nat) (k : ℝ) (a : List ℝ) : coords n (a.map (k * ·)) = k • coords n a :=
  funext fun i => getD_map_mul k a i

theorem coords_injective (ha : a.length = n) (hb : b.length = n) (h : coords n a = coords n b) :
    a = b := by
  refine List.ext_getElem (ha.trans hb.symm) fun i hi hi' => ?_
  have hcoord := congrFun h ⟨i, ha ▸ hi⟩
  simpa [hi, hi'] using hcoord

theorem coords_eq_smul_iff (ha : a.length = n) (hb : b.length = n) (k : ℝ) :
    coords n b = k • coords n a ↔ b = a.map (k * ·) := by
  rw [← coords_map]
  constructor
  · intro h
    exact coords_injective hb ((List.length_map _).trans ha) h
  · rintro rfl
    rfl

theorem coords_eq_zero_iff (ha : a.length = n) : coords n a = 0 ↔ ∀ x ∈ a, x = 0 := by
  constructor
  · intro h x hx
    obtain ⟨i, hi, rfl⟩ := List.getElem_of_mem hx
    have hcoord := congrFun h ⟨i, ha ▸ hi⟩
    simpa [hi] using hcoord
  · intro h
    ext i
    have hi : (i : Nat) < a.length := by
      rw [ha]
      exact i.isLt
    have hx := h _ (List.getElem_mem hi)
    simpa [hi] using hx

theorem sqrt_dotProduct_self_eq_zero_iff (ha : a.length = n) :
    √(coords n a ⬝ᵥ coords n a) = 0 ↔ ∀ x ∈ a, x = 0 := by
  have hnonneg : 0 ≤ coords n a ⬝ᵥ coords n a := Finset.sum_nonneg fun i _ => mul_self_nonneg _
  rw [Real.sqrt_eq_zero hnonneg, dotProduct_self_eq_zero, coords_eq_zero_iff ha]

/-! ### The cosine -/

theorem inner_toLp (u v : Fin n → ℝ) :
    inner ℝ (WithLp.toLp 2 u : EuclideanSpace ℝ (Fin n)) (WithLp.toLp 2 v) = u ⬝ᵥ v := by
  rw [EuclideanSpace.inner_toLp_toLp, star_trivial, dotProduct_comm]

theorem norm_toLp (u : Fin n → ℝ) : ‖(WithLp.toLp 2 u : EuclideanSpace ℝ (Fin n))‖ = √(u ⬝ᵥ u) := by
  rw [← inner_toLp u u, real_inner_self_eq_norm_mul_norm, Real.sqrt_mul_self (norm_nonneg _)]

theorem cos_eq_inner (n : Nat) (a b : List ℝ) :
    cos n a b = inner ℝ (WithLp.toLp 2 (coords n a) : EuclideanSpace ℝ (Fin n)) (WithLp.toLp 2 (coords n b)) /
      (‖(WithLp.toLp 2 (coords n a) : EuclideanSpace ℝ (Fin n))‖ *
        ‖(WithLp.toLp 2 (coords n b) : EuclideanSpace ℝ (Fin n))‖) := by
  rw [inner_toLp, norm_toLp, norm_toLp, cos]

theorem cos_comm (n : Nat) (a b : List ℝ) : cos n a b = cos n b a := by
  rw [cos, cos, dotProduct_comm, mul_comm]

theorem cos_mem_Icc (n : Nat) (a b : List ℝ) : -1 ≤ cos n a b ∧ cos n a b ≤ 1 := by
  rw [cos_eq_inner]
  exact abs_le.mp (abs_real_inner_div_norm_mul_norm_le_one _ _)

theorem cos_map_right (n : Nat) (a b : List ℝ) {t : ℝ} (ht : 0 < t) :
    cos n a (b.map (t * ·)) = cos n a b := by
  rw [cos, cos, coords_map, dotProduct_smul, smul_dotProduct, dotProduct_smul, smul_eq_mul, smul_eq_mul,
    smul_eq_mul, ← mul_assoc, Real.sqrt_mul (mul_self_nonneg t), Real.sqrt_mul_self ht.le, mul_left_comm,
    mul_div_mul_left _ _ ht.ne']

/-- Positive factors do not change the cosine. -/
theorem cos_map_map (n : Nat) (a b : List ℝ) {s t : ℝ} (hs : 0 < s) (ht : 0 < t) :
    cos n (a.map (s * ·)) (b.map (t * ·)) = cos n a b := by
  rw [cos_map_right n _ b ht, cos_comm, cos_map_right n b a hs, cos_comm]

theorem toLp_coords_ne_zero (ha : a.length = n) (ha0 : ∃ x ∈ a, x ≠ 0) :
    (WithLp.toLp 2 (coords n a) : EuclideanSpace ℝ (Fin n)) ≠ 0 := by
  rw [Ne, WithLp.toLp_eq_zero, coords_eq_zero_iff ha]
  push Not
  exact ha0

theorem toLp_coords_eq_smul_iff (ha : a.length = n) (hb : b.length = n) (k : ℝ) :
    (WithLp.toLp 2 (coords n b) : EuclideanSpace ℝ (Fin n)) = k • WithLp.toLp 2 (coords n a) ↔
      b = a.map (k * ·) := by
  rw [← WithLp.toLp_smul, (WithLp.toLp_injective 2).eq_iff, coords_eq_smul_iff ha hb]

theorem cos_eq_one_iff (ha : a.length = n) (hb : b.length = n) (ha0 : ∃ x ∈ a, x ≠ 0) :
    cos n a b = 1 ↔ ∃ k, 0 < k ∧ b = a.map (k * ·) := by
  rw [cos_eq_inner, real_inner_div_norm_mul_norm_eq_one_iff]
  simp only [toLp_coords_ne_zero ha ha0, ne_eq, not_false_eq_true, true_and, toLp_coords_eq_smul_iff ha hb]

theorem cos_eq_neg_one_iff (ha : a.length = n) (hb : b.length = n) (ha0 : ∃ x ∈ a, x ≠ 0) :
    cos n a b = -1 ↔ ∃ k, k < 0 ∧ b = a.map (k * ·) := by
  rw [cos_eq_inner, real_inner_div_norm_mul_norm_eq_neg_one_iff]
  simp only [toLp_coords_ne_zero ha ha0, ne_eq, not_false_eq_true, true_and, toLp_coords_eq_smul_iff ha hb]

end Directions
