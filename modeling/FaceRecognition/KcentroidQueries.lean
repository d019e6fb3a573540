import FaceRecognition.DistanceFunction
import FaceRecognition.KcentroidRefines

/-! What a `kcentroid` tells about itself: after every run all its queries speak of one point of
the feature space, until it is scaled. -/
namespace FaceRecognition
open GramSpan Matrix
open scoped RealInnerProductSpace

namespace Kcentroid
variable {S F : Type*}

section Queries
variable [Field F] (p : KcentroidSettings S F)

/-- `inner_product` of another centroid. -/
def innerProductWith (c x : Kcentroid S F) : F :=
  ∑ i, ∑ j, c.dict.alpha i * x.dict.alpha j * p.kernel (c.dict.dictionary i) (x.dict.dictionary j)

def squaredNorm (c : Kcentroid S F) : F := c.refreshBias.bias

def getDistanceFunction (c : Kcentroid S F) : DistanceFunction S F :=
  let c := c.refreshBias
  ⟨c.size, c.dict.alpha, c.bias, c.dict.dictionary⟩

/-- `operator()` of another centroid. -/
def distance [LinearOrder F] [CFloat F] (c x : Kcentroid S F) : F :=
  let c := c.refreshBias
  let x := x.refreshBias
  let temp := x.bias + c.bias - (2 : Nat) * c.innerProductWith p x
  if 0 < temp then CFloat.sqrt temp else 0

end Queries

variable {H : Type*} [NormedAddCommGroup H] [InnerProductSpace ℝ H]
variable {p : KcentroidSettings S ℝ} {φ : S → H}

/-! ### The queries of one state -/

/-- What a run of operations from a clear centroid can end in. -/
def Reachable (p : KcentroidSettings S ℝ) (c : Kcentroid S ℝ) : Prop :=
  ∃ ops, clearDictionary.applyAll p ops = .ok c

theorem Reachable.convention (hφ : IsFeatureMap p.kernel φ) (htol : 0 < p.my_tolerance)
    (hmax : 1 < p.my_max_dictionary_size) {c : Kcentroid S ℝ} (h : Reachable p c) :
    Convention p c := by
  obtain ⟨ops, hops⟩ := h
  obtain ⟨c', hc', hconv⟩ := applyAll_convention hφ htol hmax (clearDictionary_convention p) ops
  rw [hc'] at hops
  exact Except.ok.inj hops ▸ hconv

end Kcentroid

namespace DistanceFunction
variable {S H : Type*}

/-- What a program can write with the distance functions of one kernel. -/
inductive Expr (p : KcentroidSettings S ℝ) where
  | empty
  | sample (samp : S)
  | weights {n : Nat} (alpha : Fin n → ℝ) (basis_vectors : Fin n → S)
  | centroid (c : Kcentroid S ℝ) (h : c.Reachable p)
  | mul (e : Expr p) (val : ℝ)
  | div (e : Expr p) (val : ℝ) (h : val ≠ 0)
  | add (e f : Expr p)
  | sub (e f : Expr p)

variable {p : KcentroidSettings S ℝ}

noncomputable def Expr.eval : Expr p → DistanceFunction S ℝ
  | .empty => DistanceFunction.empty
  | .sample samp => ofSample p.kernel samp
  | .weights alpha basis_vectors => ofWeights p.kernel alpha basis_vectors
  | .centroid c _ => c.getDistanceFunction
  | .mul e val => e.eval.mul val
  | .div e val _ => e.eval.div val
  | .add e f => e.eval.add p.kernel f.eval
  | .sub e f => e.eval.sub p.kernel f.eval

variable [NormedAddCommGroup H] [InnerProductSpace ℝ H] {φ : S → H}

end DistanceFunction

/-! ### Results -/

namespace Kcentroid
variable {S H : Type*} [NormedAddCommGroup H] [InnerProductSpace ℝ H]
variable {p : KcentroidSettings S ℝ} {φ : S → H}

end Kcentroid

end FaceRecognition
