import Mathlib.Analysis.InnerProductSpace.GramMatrix
import Mathlib.Analysis.InnerProductSpace.Projection.FiniteDimensional
import Mathlib.LinearAlgebra.Matrix.NonsingularInverse

/-! Finitely many vectors through their Gram matrix: its inverse gives the projections on their
span, and is kept up to date when a vector is added or left out. -/
namespace GramSpan
open Matrix

/-! ### Bordered and shortened matrices -/

section Matrices
variable {F : Type*} {n : Nat}

/-- One more row and column, the same in both directions. -/
def bordered (A : Matrix (Fin n) (Fin n) F) (b : Fin n → F) (c : F) :
    Matrix (Fin (n + 1)) (Fin (n + 1)) F :=
  Matrix.of (Fin.snoc (fun i => Fin.snoc (A i) (b i)) (Fin.snoc b c))

/-- Without row and column `i`. -/
def shortened (A : Matrix (Fin (n + 1)) (Fin (n + 1)) F) (i : Fin (n + 1)) :
    Matrix (Fin n) (Fin n) F :=
  A.submatrix i.succAbove i.succAbove

@[simp] theorem bordered_castSucc_castSucc (A : Matrix (Fin n) (Fin n) F) (b : Fin n → F) (c : F)
    (i j : Fin n) : bordered A b c i.castSucc j.castSucc = A i j := by
  simp [bordered]

@[simp] theorem bordered_castSucc_last (A : Matrix (Fin n) (Fin n) F) (b : Fin n → F) (c : F)
    (i : Fin n) : bordered A b c i.castSucc (Fin.last n) = b i := by
  simp [bordered]

@[simp] theorem bordered_last_castSucc (A : Matrix (Fin n) (Fin n) F) (b : Fin n → F) (c : F)
    (j : Fin n) : bordered A b c (Fin.last n) j.castSucc = b j := by
  simp [bordered]

@[simp] theorem bordered_last_last (A : Matrix (Fin n) (Fin n) F) (b : Fin n → F) (c : F) :
    bordered A b c (Fin.last n) (Fin.last n) = c := by
  simp [bordered]

@[simp] theorem shortened_apply (A : Matrix (Fin (n + 1)) (Fin (n + 1)) F) (i : Fin (n + 1))
    (r s : Fin n) : shortened A i r s = A (i.succAbove r) (i.succAbove s) := rfl

variable [Field F]

/-- The inverse of a bordered matrix, from the inverse `B` of the inner one: `a` is `B` times the
new column and `δ` what is left of the new corner. -/
def borderedInverse (B : Matrix (Fin n) (Fin n) F) (a : Fin n → F) (δ : F) :
    Matrix (Fin (n + 1)) (Fin (n + 1)) F :=
  bordered (Matrix.of fun i j => B i j + a i * a j / δ) (fun i => -a i / δ) (1 / δ)

/-- The inverse of a shortened matrix, from the inverse `B` of the whole one. -/
def shortenedInverse (B : Matrix (Fin (n + 1)) (Fin (n + 1)) F) (i : Fin (n + 1)) :
    Matrix (Fin n) (Fin n) F :=
  Matrix.of fun r s => shortened B i r s - B (i.succAbove r) i / B i i * B i (i.succAbove s)

theorem sum_mul_eq_one {A B : Matrix (Fin n) (Fin n) F} (h : B * A = 1) (i j : Fin n) :
    ∑ t, B i t * A t j = if i = j then 1 else 0 := by
  rw [← mul_apply, h, one_apply]

theorem borderedInverse_mul {A B : Matrix (Fin n) (Fin n) F} (hA : A.IsSymm) (h : B * A = 1)
    (b : Fin n → F) (c : F) (hδ : c - b ⬝ᵥ (B *ᵥ b) ≠ 0) :
    borderedInverse B (B *ᵥ b) (c - b ⬝ᵥ (B *ᵥ b)) * bordered A b c = 1 := by
  have hAa : A *ᵥ (B *ᵥ b) = b := by
    rw [mulVec_mulVec, mul_eq_one_comm.mp h, one_mulVec]
  have haA (j : Fin n) : ∑ t, (B *ᵥ b) t * A t j = b j := by
    calc
      ∑ t, (B *ᵥ b) t * A t j = ∑ t, A j t * (B *ᵥ b) t :=
        Finset.sum_congr rfl fun t _ => by rw [hA.apply, mul_comm]
      _ = b j := congrFun hAa j
  have hBb (i : Fin n) : ∑ t, B i t * b t = (B *ᵥ b) i := rfl
  have hab : ∑ t, (B *ᵥ b) t * b t = b ⬝ᵥ (B *ᵥ b) := dotProduct_comm _ _
  generalize hd : c - b ⬝ᵥ (B *ᵥ b) = δ at hδ ⊢
  generalize B *ᵥ b = a at *
  ext i j
  rw [mul_apply, Fin.sum_univ_castSucc]
  induction i using Fin.lastCases with
  | last =>
    induction j using Fin.lastCases with
    | last =>
      simp only [borderedInverse, bordered_last_castSucc, bordered_castSucc_last,
        bordered_last_last, one_apply_eq, neg_mul, neg_div, div_mul_eq_mul_div,
        Finset.sum_neg_distrib, ← Finset.sum_div, hab]
      field_simp
      linear_combination hd
    | cast j =>
      simp only [borderedInverse, bordered_last_castSucc, bordered_castSucc_castSucc,
        bordered_last_last, neg_mul, neg_div, div_mul_eq_mul_div, Finset.sum_neg_distrib,
        ← Finset.sum_div, haA]
      rw [one_apply_ne (Fin.castSucc_lt_last j).ne', one_mul, neg_add_cancel]
  | cast i =>
    induction j using Fin.lastCases with
    | last =>
      simp only [borderedInverse, bordered_castSucc_castSucc, bordered_castSucc_last,
        bordered_last_last, of_apply, add_mul, div_mul_eq_mul_div, mul_assoc,
        Finset.sum_add_distrib, ← Finset.sum_div, ← Finset.mul_sum, hBb, hab]
      rw [one_apply_ne (Fin.castSucc_lt_last i).ne]
      field_simp
      linear_combination -(a i * hd)
    | cast j =>
      simp only [borderedInverse, bordered_castSucc_castSucc, bordered_castSucc_last,
        bordered_last_castSucc, of_apply, add_mul, div_mul_eq_mul_div, mul_assoc,
        Finset.sum_add_distrib, ← Finset.sum_div, ← Finset.mul_sum, sum_mul_eq_one h, haA]
      rw [one_apply]
      simp only [Fin.castSucc_inj]
      ring

theorem shortenedInverse_mul {A B : Matrix (Fin (n + 1)) (Fin (n + 1)) F} (h : B * A = 1)
    {i : Fin (n + 1)} (hi : B i i ≠ 0) : shortenedInverse B i * shortened A i = 1 := by
  ext r s
  have hrow := sum_mul_eq_one h (i.succAbove r) (i.succAbove s)
  have hleft := sum_mul_eq_one h i (i.succAbove s)
  rw [Fin.sum_univ_succAbove _ i] at hrow hleft
  rw [if_neg (Fin.succAbove_ne i s).symm] at hleft
  simp only [Fin.succAbove_right_inj] at hrow
  have hrest : ∑ t, B i (i.succAbove t) * A (i.succAbove t) (i.succAbove s) =
      -(B i i * A i (i.succAbove s)) := by
    linear_combination hleft
  simp only [mul_apply, one_apply, shortenedInverse, of_apply, shortened_apply, sub_mul, mul_assoc,
    Finset.sum_sub_distrib, ← Finset.mul_sum, hrest]
  field_simp
  linear_combination hrow

end Matrices

/-! ### Families as sets -/

section Members
variable {H : Type*} [DecidableEq H] {n : Nat}

/-- The vectors of a family. -/
def members (v : Fin n → H) : Finset H := Finset.univ.image v

@[simp] theorem mem_members {v : Fin n → H} {x : H} : x ∈ members v ↔ ∃ i, v i = x := by
  simp [members]

theorem members_snoc (v : Fin n → H) (x : H) :
    members (Fin.snoc v x : Fin (n + 1) → H) = insert x (members v) := by
  ext y
  rw [Finset.mem_insert, mem_members, mem_members, Fin.exists_fin_succ']
  simp [or_comm, eq_comm]

theorem members_succAbove {v : Fin (n + 1) → H} (hv : Function.Injective v) (i : Fin (n + 1)) :
    members (v ∘ i.succAbove) = (members v).erase (v i) := by
  ext y
  rw [Finset.mem_erase, mem_members, mem_members]
  constructor
  · rintro ⟨j, rfl⟩
    exact ⟨fun h => Fin.succAbove_ne i j (hv h), _, rfl⟩
  · rintro ⟨hne, j, rfl⟩
    obtain ⟨k, rfl⟩ := Fin.exists_succAbove_eq (show j ≠ i by rintro rfl; exact hne rfl)
    exact ⟨k, rfl⟩

end Members

/-! ### Vectors -/

section Vectors
open scoped RealInnerProductSpace
variable {H : Type*} [NormedAddCommGroup H] [InnerProductSpace ℝ H]

/-- The orthogonal projection on the span of finitely many vectors. -/
noncomputable def projection (s : Finset H) (x : H) : H :=
  (Submodule.span ℝ (s : Set H)).starProjection x

/-- The squared distance to the span of finitely many vectors. -/
noncomputable def residual (s : Finset H) (x : H) : ℝ :=
  ⟪x - projection s x, x - projection s x⟫

theorem projection_mem (s : Finset H) (x : H) : projection s x ∈ Submodule.span ℝ (s : Set H) :=
  Submodule.starProjection_apply_mem _ x

theorem inner_sub_projection {s : Finset H} {w : H} (hw : w ∈ Submodule.span ℝ (s : Set H)) (x : H) :
    ⟪x - projection s x, w⟫ = 0 :=
  Submodule.starProjection_inner_eq_zero x w hw

theorem eq_projection {s : Finset H} {x p : H} (hp : p ∈ Submodule.span ℝ (s : Set H))
    (h : ∀ w ∈ s, ⟪x - p, w⟫ = 0) : p = projection s x := by
  refine (Submodule.eq_starProjection_of_mem_of_inner_eq_zero hp fun w hw => ?_).symm
  induction hw using Submodule.span_induction with
  | mem w hw => exact h w hw
  | zero => exact inner_zero_right _
  | add u w _ _ hu hw => rw [inner_add_right, hu, hw, add_zero]
  | smul c w _ hw => rw [inner_smul_right, hw, mul_zero]

theorem residual_eq_sub (s : Finset H) (x : H) : residual s x = ⟪x, x⟫ - ⟪projection s x, x⟫ := by
  have horth := inner_sub_projection (projection_mem s x) x
  rw [residual, inner_sub_right, horth, sub_zero, inner_sub_left]

theorem residual_eq_norm (s : Finset H) (x : H) : residual s x = ‖x - projection s x‖ ^ 2 :=
  real_inner_self_eq_norm_sq _

@[simp] theorem projection_empty (x : H) : projection ∅ x = 0 := by
  have hmem := projection_mem ∅ x
  rwa [Finset.coe_empty, Submodule.span_empty, Submodule.mem_bot] at hmem

@[simp] theorem residual_empty (x : H) : residual ∅ x = ⟪x, x⟫ := by
  rw [residual, projection_empty, sub_zero]

theorem residual_nonneg (s : Finset H) (x : H) : 0 ≤ residual s x := real_inner_self_nonneg

theorem residual_anti {s t : Finset H} (h : s ⊆ t) (x : H) : residual t x ≤ residual s x := by
  have hmem : projection s x ∈ Submodule.span ℝ (t : Set H) :=
    Submodule.span_mono (Finset.coe_subset.mpr h) (projection_mem s x)
  rw [residual_eq_norm, residual_eq_norm, ← sub_add_sub_cancel x (projection t x) (projection s x)]
  have hperp : ⟪x - projection t x, projection t x - projection s x⟫ = 0 :=
    inner_sub_projection (Submodule.sub_mem _ (projection_mem t x) hmem) x
  rw [norm_add_sq_real, hperp]
  linarith [sq_nonneg ‖projection t x - projection s x‖]

theorem residual_le_self (s : Finset H) (x : H) : residual s x ≤ ⟪x, x⟫ := by
  have hperp := inner_sub_projection (projection_mem s x) x
  have hnonneg : 0 ≤ ⟪projection s x, projection s x⟫ := real_inner_self_nonneg
  rw [inner_sub_left] at hperp
  rw [residual_eq_sub, real_inner_comm]
  linarith [real_inner_comm x (projection s x)]

theorem residual_eq_zero_iff {s : Finset H} {x : H} :
    residual s x = 0 ↔ x ∈ Submodule.span ℝ (s : Set H) := by
  rw [residual_eq_norm, sq_eq_zero_iff, norm_eq_zero, sub_eq_zero, eq_comm]
  exact Submodule.starProjection_eq_self_iff

variable {n : Nat}

/-- A linear combination. -/
def combo (v : Fin n → H) (a : Fin n → ℝ) : H := ∑ i, a i • v i

theorem inner_combo_right (v : Fin n → H) (a : Fin n → ℝ) (x : H) :
    ⟪x, combo v a⟫ = ∑ i, a i * ⟪x, v i⟫ := by
  simp only [combo, inner_sum, inner_smul_right]

theorem inner_combo_left (v : Fin n → H) (a : Fin n → ℝ) (x : H) :
    ⟪combo v a, x⟫ = ∑ i, a i * ⟪v i, x⟫ := by
  simp only [combo, sum_inner, real_inner_smul_left]

/-- The products of the vectors with a combination. -/
theorem gram_mulVec (v : Fin n → H) (a : Fin n → ℝ) :
    gram ℝ v *ᵥ a = fun r => ⟪v r, combo v a⟫ := by
  funext r
  rw [inner_combo_right, mulVec, dotProduct]
  exact Finset.sum_congr rfl fun i _ => mul_comm (gram ℝ v r i) (a i)

theorem combo_snoc (v : Fin n → H) (x : H) (a : Fin n → ℝ) (c : ℝ) :
    combo (Fin.snoc v x : Fin (n + 1) → H) (Fin.snoc a c : Fin (n + 1) → ℝ) =
      combo v a + c • x := by
  simp [combo, Fin.sum_univ_castSucc]

theorem combo_add (v : Fin n → H) (a b : Fin n → ℝ) :
    combo v (fun i => a i + b i) = combo v a + combo v b := by
  simp only [combo, add_smul, Finset.sum_add_distrib]

theorem combo_smul (v : Fin n → H) (c : ℝ) (a : Fin n → ℝ) :
    combo v (fun i => c * a i) = c • combo v a := by
  simp only [combo, mul_smul, Finset.smul_sum]

theorem combo_append {m : Nat} (v : Fin m → H) (w : Fin n → H) (a : Fin m → ℝ) (b : Fin n → ℝ) :
    combo (Fin.append v w) (Fin.append a b) = combo v a + combo w b := by
  simp [combo, Fin.sum_univ_add]

theorem vecMul_dotProduct {m : Nat} (v : Fin m → H) (w : Fin n → H) (a : Fin m → ℝ)
    (b : Fin n → ℝ) :
    (a ᵥ* Matrix.of fun i j => ⟪v i, w j⟫) ⬝ᵥ b = ⟪combo v a, combo w b⟫ := by
  rw [← dotProduct_mulVec, inner_combo_left]
  refine Finset.sum_congr rfl fun i _ => ?_
  rw [inner_combo_right, mulVec, dotProduct]
  exact congrArg _ (Finset.sum_congr rfl fun j _ => mul_comm _ _)

theorem gram_isSymm (v : Fin n → H) : (gram ℝ v).IsSymm :=
  Matrix.IsSymm.ext fun _ _ => real_inner_comm _ _


/-! ### The inverse of the Gram matrix -/

variable {v : Fin n → H} {B : Matrix (Fin n) (Fin n) ℝ}

theorem independent (h : B * gram ℝ v = 1) : LinearIndependent ℝ v :=
  linearIndependent_of_det_gram_ne_zero
    ((Matrix.isUnit_iff_isUnit_det _).mp (IsUnit.of_mul_eq_one_right B h)).ne_zero

/-- The diagonal entry is the squared length of a vector that is not zero. -/
theorem diag_pos (h : B * gram ℝ v = 1) (i : Fin n) : 0 < B i i := by
  have hdual (j : Fin n) : ⟪combo v (B i), v j⟫ = if i = j then 1 else 0 := by
    rw [inner_combo_left]
    exact sum_mul_eq_one h i j
  have hself : ⟪combo v (B i), combo v (B i)⟫ = B i i := by
    rw [inner_combo_right]
    simp [hdual]
  have hne : combo v (B i) ≠ 0 := by
    intro h0
    have hi := hdual i
    rw [h0, inner_zero_left, if_pos rfl] at hi
    exact zero_ne_one hi
  rw [← hself]
  exact real_inner_self_pos.mpr hne

variable [DecidableEq H]

theorem combo_mem (v : Fin n → H) (a : Fin n → ℝ) :
    combo v a ∈ Submodule.span ℝ (members v : Set H) :=
  Submodule.sum_mem _ fun i _ =>
    Submodule.smul_mem _ _ (Submodule.subset_span (mem_members.mpr ⟨i, rfl⟩))

/-- No vector is in the span of the others. -/
theorem residual_erase_pos (h : B * gram ℝ v = 1) (i : Fin n) :
    0 < residual ((members v).erase (v i)) (v i) := by
  refine (residual_nonneg _ _).lt_of_ne' fun h0 => ?_
  rw [residual_eq_zero_iff] at h0
  refine linearIndependent_iff_notMem_span.mp (independent h) i (Submodule.span_mono ?_ h0)
  intro x hx
  rw [Finset.coe_erase] at hx
  obtain ⟨hmem, hne⟩ := hx
  obtain ⟨j, rfl⟩ := mem_members.mp hmem
  exact ⟨j, ⟨trivial, fun hji => hne (by rw [Set.mem_singleton_iff.mp hji]; rfl)⟩, rfl⟩

/-- The coefficients of the projection. -/
theorem combo_mulVec (h : B * gram ℝ v = 1) (x : H) :
    combo v (B *ᵥ fun r => ⟪v r, x⟫) = projection (members v) x := by
  refine eq_projection (combo_mem v _) fun w hw => ?_
  obtain ⟨r, rfl⟩ := mem_members.mp hw
  have hsolve : gram ℝ v *ᵥ (B *ᵥ fun r => ⟪v r, x⟫) = fun r => ⟪v r, x⟫ := by
    rw [mulVec_mulVec, mul_eq_one_comm.mp h, one_mulVec]
  rw [gram_mulVec] at hsolve
  rw [inner_sub_left, real_inner_comm, real_inner_comm (v r), congrFun hsolve r, sub_self]

/-- The squared distance to the span. -/
theorem sub_dotProduct_mulVec (h : B * gram ℝ v = 1) (x : H) :
    ⟪x, x⟫ - (fun r => ⟪v r, x⟫) ⬝ᵥ (B *ᵥ fun r => ⟪v r, x⟫) = residual (members v) x := by
  rw [residual_eq_sub, ← combo_mulVec h, inner_combo_left]
  congr 1
  exact Finset.sum_congr rfl fun i _ => mul_comm _ _

end Vectors

end GramSpan
