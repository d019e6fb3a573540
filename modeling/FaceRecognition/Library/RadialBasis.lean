import Mathlib.Analysis.InnerProductSpace.Reproducing
import Mathlib.Analysis.Matrix.Order
import Mathlib.Analysis.SpecialFunctions.Exponential

/-! The radial basis kernel is the inner product of a feature space. -/
namespace RadialBasis
open scoped RealInnerProductSpace NNReal
open Matrix Filter

/-! ### Positive semidefinite matrices of any size -/

section Semidefinite
variable {X : Type*}

theorem posSemidef_of_real {K : Matrix X X ℝ} (hsymm : ∀ x y, K x y = K y x)
    (h : ∀ f : X →₀ ℝ, 0 ≤ f.sum fun x a => f.sum fun y b => a * K x y * b) : K.PosSemidef :=
  ⟨Matrix.ext fun x y => hsymm y x, fun f => by simpa using h f⟩

/-- The products of the values of a function. -/
theorem posSemidef_product (u : X → ℝ) : (Matrix.of fun x y => u x * u y).PosSemidef := by
  refine posSemidef_of_real (fun x y => mul_comm _ _) fun f => ?_
  have hsq : (f.sum fun x a => f.sum fun y b => a * (u x * u y) * b) =
      (f.sum fun x a => a * u x) * f.sum fun y b => b * u y := by
    simp only [Finsupp.sum, Finset.sum_mul_sum]
    exact Finset.sum_congr rfl fun x _ => Finset.sum_congr rfl fun y _ => by ring
  simp only [of_apply]
  rw [hsq]
  exact mul_self_nonneg _

theorem posSemidef_inner {E : Type*} [NormedAddCommGroup E] [InnerProductSpace ℝ E] (e : X → E) :
    (Matrix.of fun x y => ⟪e x, e y⟫).PosSemidef := by
  refine posSemidef_of_real (fun x y => real_inner_comm _ _) fun f => ?_
  have hsq : (f.sum fun x a => f.sum fun y b => a * ⟪e x, e y⟫ * b) =
      ⟪f.sum fun x a => a • e x, f.sum fun y b => b • e y⟫ := by
    simp only [Finsupp.sum, sum_inner, inner_sum, real_inner_smul_left, real_inner_smul_right]
    refine Finset.sum_congr rfl fun x _ => Finset.sum_congr rfl fun y _ => ?_
    rw [real_inner_comm (e y)]
    ring
  simp only [of_apply]
  rw [hsq]
  exact real_inner_self_nonneg

theorem posSemidef_pow {K : Matrix X X ℝ} (hK : K.PosSemidef) (k : Nat) :
    (Matrix.of fun x y => K x y ^ k).PosSemidef := by
  induction k with
  | zero => simpa using posSemidef_product fun _ : X => (1 : ℝ)
  | succ k ih =>
    have hmul := ih.hadamard hK
    convert! hmul using 1

/-- The entrywise exponential, as a limit of sums of powers. -/
theorem posSemidef_exp {K : Matrix X X ℝ} (hK : K.PosSemidef) :
    (Matrix.of fun x y => Real.exp (K x y)).PosSemidef := by
  have hsums (n : Nat) : (∑ k ∈ Finset.range n,
      ((k.factorial : ℝ)⁻¹ • Matrix.of fun x y => K x y ^ k)).PosSemidef :=
    posSemidef_sum _ fun k _ => (posSemidef_pow hK k).smul (by positivity)
  have hlim (x y : X) : Tendsto (fun n => ∑ k ∈ Finset.range n, (k.factorial : ℝ)⁻¹ * K x y ^ k)
      atTop (nhds (Real.exp (K x y))) := by
    rw [Real.exp_eq_exp_ℝ]
    exact (NormedSpace.exp_series_hasSum_exp' (𝕂 := ℝ) (K x y)).tendsto_sum_nat
  refine posSemidef_of_real (fun x y => ?_) fun f => ?_
  · have hxy : K x y = K y x := by simpa using (hK.isHermitian.apply x y).symm
    rw [of_apply, of_apply, hxy]
  · have htendsto : Tendsto (fun n => f.sum fun x a => f.sum fun y b =>
        a * (∑ k ∈ Finset.range n, (k.factorial : ℝ)⁻¹ * K x y ^ k) * b) atTop
        (nhds (f.sum fun x a => f.sum fun y b => a * Real.exp (K x y) * b)) :=
      tendsto_finsetSum _ fun x _ => tendsto_finsetSum _ fun y _ =>
        ((hlim x y).const_mul _).mul_const _
    refine ge_of_tendsto' htendsto fun n => ?_
    have hn := (hsums n).2 f
    simpa [Matrix.sum_apply] using hn

end Semidefinite

/-! ### The kernel and its features -/

section Features
variable {E : Type*} [NormedAddCommGroup E]

/-- `exp (-γ ‖x - y‖²)`. -/
noncomputable def kernel (γ : ℝ≥0) (x y : E) : ℝ := Real.exp (-(γ * ‖x - y‖ ^ 2))

theorem kernel_self (γ : ℝ≥0) (x : E) : kernel γ x x = 1 := by
  simp [kernel]

variable [InnerProductSpace ℝ E]

theorem posSemidef_kernel (γ : ℝ≥0) : (Matrix.of fun x y : E => kernel γ x y).PosSemidef := by
  have hinner := (posSemidef_inner fun x : E => x).smul (show 0 ≤ 2 * (γ : ℝ) by positivity)
  have hprod := (posSemidef_product fun x : E => Real.exp (-(γ * ‖x‖ ^ 2))).hadamard
    (posSemidef_exp hinner)
  have heq : (Matrix.of fun x y : E => kernel γ x y) =
      (Matrix.of fun x y : E => Real.exp (-(γ * ‖x‖ ^ 2)) * Real.exp (-(γ * ‖y‖ ^ 2))) ⊙
        Matrix.of fun x y => Real.exp (((2 * (γ : ℝ)) • Matrix.of fun x y : E => ⟪x, y⟫) x y) := by
    ext x y
    simp only [of_apply, hadamard_apply, Matrix.smul_apply, smul_eq_mul, kernel]
    rw [← Real.exp_add, ← Real.exp_add, norm_sub_sq_real]
    congr 1
    ring
  rw [heq]
  exact hprod

/-- The kernel with values in the operators of the reals. -/
noncomputable def operators (γ : ℝ≥0) : Matrix E E (ℝ →L[ℝ] ℝ) :=
  Matrix.of fun x y => kernel γ x y • 1

theorem posSemidef_operators (γ : ℝ≥0) : (operators γ : Matrix E E (ℝ →L[ℝ] ℝ)).PosSemidef := by
  have hreal := posSemidef_kernel (E := E) γ
  have hiff := (RKHS.posSemidef_tfae (K := (operators γ : Matrix E E (ℝ →L[ℝ] ℝ)))).out 0 2
  refine hiff.mpr ⟨?_, fun f => ?_⟩
  · ext x y
    have hxy := hreal.isHermitian.apply x y
    simp only [of_apply, star_trivial] at hxy
    simp [operators, hxy]
  · have hf := hreal.2 f
    rw [Finsupp.sum_comm] at hf
    simp only [of_apply, star_trivial] at hf
    simpa [operators, mul_comm, mul_left_comm, mul_assoc] using hf

instance (γ : ℝ≥0) : Fact (operators γ : Matrix E E (ℝ →L[ℝ] ℝ)).PosSemidef := ⟨posSemidef_operators γ⟩

/-- The feature space of the kernel. -/
abbrev Space (γ : ℝ≥0) (E : Type*) [NormedAddCommGroup E] [InnerProductSpace ℝ E] :=
  RKHS.OfKernel (operators γ : Matrix E E (ℝ →L[ℝ] ℝ))

noncomputable def feature (γ : ℝ≥0) (x : E) : Space γ E := RKHS.kerFun (Space γ E) x 1

theorem kernel_eq_inner (γ : ℝ≥0) (x y : E) : kernel γ x y = ⟪feature γ x, feature γ y⟫ := by
  rw [feature, feature, ← RKHS.kernel_inner, RKHS.OfKernel.kernel_ofKernel]
  simp [operators, kernel, norm_sub_rev]

end Features

end RadialBasis
