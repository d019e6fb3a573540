import FaceRecognition.KcentroidConvention

/-! `distance_function` of `dlib/svm/function.h`: a weighted sum of samples in the feature space,
with its squared norm. -/
namespace FaceRecognition
open GramSpan Matrix

/-- A `distance_function` apart from its kernel, which two that are combined must share. -/
structure DistanceFunction (S F : Type*) where
  size : Nat
  alpha : Fin size → F
  b : F
  basis_vectors : Fin size → S

namespace DistanceFunction
variable {S F : Type*} [Field F] {m n : Nat}

/-- `kernel_matrix`. -/
def kernelMatrix (kernel : S → S → F) (vect1 : Fin m → S) (vect2 : Fin n → S) :
    Matrix (Fin m) (Fin n) F :=
  Matrix.of fun r c => kernel (vect1 r) (vect2 c)

/-! ### The constructors -/

def empty : DistanceFunction S F := ⟨0, Fin.elim0, 0, Fin.elim0⟩

def ofSample (kernel : S → S → F) (samp : S) : DistanceFunction S F :=
  ⟨1, fun _ => 1, kernel samp samp, fun _ => samp⟩

/-- From weights, also from those of a `decision_function`. -/
def ofWeights (kernel : S → S → F) (alpha : Fin n → F) (basis_vectors : Fin n → S) :
    DistanceFunction S F :=
  ⟨n, alpha, (alpha ᵥ* kernelMatrix kernel basis_vectors basis_vectors) ⬝ᵥ alpha, basis_vectors⟩

/-! ### The operators -/

def mul (f : DistanceFunction S F) (val : F) : DistanceFunction S F :=
  ⟨f.size, fun i => val * f.alpha i, val * val * f.b, f.basis_vectors⟩

def div (f : DistanceFunction S F) (val : F) : DistanceFunction S F :=
  ⟨f.size, fun i => f.alpha i / val, f.b / val / val, f.basis_vectors⟩

/-- `trans(alpha)*kernel_matrix(...)*rhs.alpha`. -/
def product (kernel : S → S → F) (f rhs : DistanceFunction S F) : F :=
  (f.alpha ᵥ* kernelMatrix kernel f.basis_vectors rhs.basis_vectors) ⬝ᵥ rhs.alpha

def add (kernel : S → S → F) (f rhs : DistanceFunction S F) : DistanceFunction S F :=
  if f.size = 0 then rhs
  else if rhs.size = 0 then f
  else ⟨f.size + rhs.size, Fin.append f.alpha rhs.alpha,
    f.b + rhs.b + (2 : Nat) * product kernel f rhs,
    Fin.append f.basis_vectors rhs.basis_vectors⟩

def sub (kernel : S → S → F) (f rhs : DistanceFunction S F) : DistanceFunction S F :=
  if f.size = 0 ∧ rhs.size = 0 then empty
  else if f.size ≠ 0 ∧ rhs.size = 0 then f
  else if f.size = 0 ∧ rhs.size ≠ 0 then rhs.mul (-1)
  else ⟨f.size + rhs.size, Fin.append f.alpha fun j => -rhs.alpha j,
    f.b + rhs.b - (2 : Nat) * product kernel f rhs,
    Fin.append f.basis_vectors rhs.basis_vectors⟩

section Calls
variable [LinearOrder F] [CFloat F]

/-- `operator()` of another `distance_function`. -/
def distance (kernel : S → S → F) (f x : DistanceFunction S F) : F :=
  let temp := ∑ i, ∑ j, f.alpha i * x.alpha j * kernel (f.basis_vectors i) (x.basis_vectors j)
  let temp := f.b + x.b - (2 : Nat) * temp
  if 0 < temp then CFloat.sqrt temp else 0

end Calls

/-! ### Points of the feature space -/

open scoped RealInnerProductSpace
variable {H : Type*} [NormedAddCommGroup H] [InnerProductSpace ℝ H]
variable {kernel : S → S → ℝ} {φ : S → H}

/-- The weights stand for `v`, and `b` is its squared norm. -/
structure Represents (φ : S → H) (f : DistanceFunction S ℝ) (v : H) : Prop where
  combo_eq : combo (φ ∘ f.basis_vectors) f.alpha = v
  b_eq : f.b = ⟪v, v⟫

theorem Represents.of_size_eq {f : DistanceFunction S ℝ} {v : H} (h : f.Represents φ v)
    (hsize : f.size = 0) : v = 0 := by
  obtain ⟨size, alpha, b, basis_vectors⟩ := f
  obtain rfl : size = 0 := hsize
  rw [← h.combo_eq]
  exact Finset.sum_empty

theorem kernelMatrix_eq (hφ : IsFeatureMap kernel φ) (vect1 : Fin m → S) (vect2 : Fin n → S) :
    kernelMatrix kernel vect1 vect2 =
      Matrix.of fun i j => ⟪(φ ∘ vect1) i, (φ ∘ vect2) j⟫ := by
  ext i j
  exact hφ.kernel_eq _ _

theorem Represents.product_eq (hφ : IsFeatureMap kernel φ) {f g : DistanceFunction S ℝ} {v w : H}
    (hf : f.Represents φ v) (hg : g.Represents φ w) : product kernel f g = ⟪v, w⟫ := by
  rw [product, kernelMatrix_eq hφ, vecMul_dotProduct, hf.combo_eq, hg.combo_eq]

theorem represents_empty : (empty : DistanceFunction S ℝ).Represents φ 0 where
  combo_eq := Finset.sum_empty
  b_eq := inner_zero_left (0 : H) |>.symm

theorem Represents.mul {f : DistanceFunction S ℝ} {v : H} (h : f.Represents φ v) (val : ℝ) :
    (f.mul val).Represents φ (val • v) where
  combo_eq := (combo_smul _ _ _).trans (congrArg _ h.combo_eq)
  b_eq := by
    rw [DistanceFunction.mul, h.b_eq, real_inner_smul_left, real_inner_smul_right, mul_assoc]

theorem Represents.div {f : DistanceFunction S ℝ} {v : H} (h : f.Represents φ v) (val : ℝ) :
    (f.div val).Represents φ (val⁻¹ • v) where
  combo_eq := by
    rw [← h.combo_eq, ← combo_smul]
    simp only [DistanceFunction.div, div_eq_inv_mul]
  b_eq := by
    rw [DistanceFunction.div, h.b_eq, real_inner_smul_left, real_inner_smul_right, div_eq_inv_mul,
      div_eq_inv_mul]

omit [NormedAddCommGroup H] [InnerProductSpace ℝ H] in
theorem comp_append (φ : S → H) (v : Fin m → S) (w : Fin n → S) :
    φ ∘ Fin.append v w = Fin.append (φ ∘ v) (φ ∘ w) := by
  funext i
  induction i using Fin.addCases <;> simp

theorem Represents.add (hφ : IsFeatureMap kernel φ) {f g : DistanceFunction S ℝ} {v w : H}
    (hf : f.Represents φ v) (hg : g.Represents φ w) : (f.add kernel g).Represents φ (v + w) := by
  rw [DistanceFunction.add]
  by_cases hf0 : f.size = 0
  · rw [if_pos hf0, hf.of_size_eq hf0, zero_add]
    exact hg
  by_cases hg0 : g.size = 0
  · rw [if_neg hf0, if_pos hg0, hg.of_size_eq hg0, add_zero]
    exact hf
  rw [if_neg hf0, if_neg hg0]
  refine ⟨?_, ?_⟩
  · rw [comp_append, combo_append, hf.combo_eq, hg.combo_eq]
  · rw [hf.product_eq hφ hg, hf.b_eq, hg.b_eq, real_inner_add_add_self, Nat.cast_ofNat]
    ring

theorem Represents.sub (hφ : IsFeatureMap kernel φ) {f g : DistanceFunction S ℝ} {v w : H}
    (hf : f.Represents φ v) (hg : g.Represents φ w) : (f.sub kernel g).Represents φ (v - w) := by
  have hneg := hg.mul (-1)
  rw [neg_one_smul] at hneg
  rw [DistanceFunction.sub]
  by_cases hf0 : f.size = 0
  · rw [hf.of_size_eq hf0, zero_sub]
    by_cases hg0 : g.size = 0
    · rw [if_pos ⟨hf0, hg0⟩, hg.of_size_eq hg0, neg_zero]
      exact represents_empty
    · rw [if_neg (fun h => hg0 h.2), if_neg (fun h => h.1 hf0), if_pos ⟨hf0, hg0⟩]
      exact hneg
  by_cases hg0 : g.size = 0
  · rw [if_neg (fun h => hf0 h.1), if_pos ⟨hf0, hg0⟩, hg.of_size_eq hg0, sub_zero]
    exact hf
  rw [if_neg (fun h => hf0 h.1), if_neg (fun h => hg0 h.2), if_neg (fun h => hf0 h.1)]
  have hminus : combo (φ ∘ g.basis_vectors) (fun j => -g.alpha j) = -w := by
    rw [← hneg.combo_eq]
    simp [DistanceFunction.mul]
  refine ⟨?_, ?_⟩
  · rw [comp_append, combo_append, hf.combo_eq, hminus, ← sub_eq_add_neg]
  · rw [hf.product_eq hφ hg, hf.b_eq, hg.b_eq, real_inner_sub_sub_self, Nat.cast_ofNat]
    ring

end DistanceFunction

end FaceRecognition
