import FaceRecognition.KcentroidConvention
import FaceRecognition.Library.RadialBasis
import Mathlib.Analysis.Complex.Basic

/-! `radial_basis_kernel` of `dlib/svm/kernel.h` on samples of two coordinates, and its feature
space. -/
namespace FaceRecognition
open scoped RealInnerProductSpace NNReal

/-- `radial_basis_kernel::operator()`. -/
noncomputable def radialBasisKernel (gamma : ℝ) (a b : ℝ × ℝ) : ℝ :=
  let d := (a.1 - b.1) * (a.1 - b.1) + (a.2 - b.2) * (a.2 - b.2)
  Real.exp (-gamma * d)

/-- A sample as a point of the plane. -/
def samplePoint (s : ℝ × ℝ) : ℂ := ⟨s.1, s.2⟩

/-- A sample in the feature space. -/
noncomputable def sampleFeature (gamma : ℝ≥0) (s : ℝ × ℝ) : RadialBasis.Space gamma ℂ :=
  RadialBasis.feature gamma (samplePoint s)

theorem radialBasisKernel_eq (gamma : ℝ≥0) (a b : ℝ × ℝ) :
    radialBasisKernel gamma a b = RadialBasis.kernel gamma (samplePoint a) (samplePoint b) := by
  have hd : ‖samplePoint a - samplePoint b‖ ^ 2 =
      (a.1 - b.1) * (a.1 - b.1) + (a.2 - b.2) * (a.2 - b.2) := by
    rw [← Complex.normSq_eq_norm_sq, Complex.normSq_apply]
    rfl
  rw [RadialBasis.kernel, hd, radialBasisKernel, neg_mul]

theorem radialBasisKernel_self (gamma : ℝ≥0) (a : ℝ × ℝ) : radialBasisKernel gamma a a = 1 := by
  rw [radialBasisKernel_eq, RadialBasis.kernel_self]

theorem sampleFeature_isFeatureMap (gamma : ℝ≥0) :
    IsFeatureMap (radialBasisKernel gamma) (sampleFeature gamma) where
  kernel_eq a b := by
    rw [radialBasisKernel_eq, RadialBasis.kernel_eq_inner]
    rfl
  lt_max a := by
    have hmax : (1 : ℝ) < ScalarLimits.max := by
      have hnat : 1 < 2 ^ 1024 - 2 ^ 971 := by decide +kernel
      exact Nat.one_lt_cast.mpr hnat
    exact (radialBasisKernel_self gamma a).trans_lt hmax

end FaceRecognition
