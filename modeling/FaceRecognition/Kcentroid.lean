import FaceRecognition.Calc
import FaceRecognition.Library.GramSpan

/-! `dlib/svm/kcentroid.h`: a weighted sum of samples in the feature space of a kernel. It is kept
as a combination of few of the samples, the dictionary; a sample that the dictionary can nearly
express is not added to it. -/
namespace FaceRecognition
open GramSpan Matrix

/-- `std::numeric_limits` of the scalar type. -/
class ScalarLimits (F : Type*) where
  epsilon : F
  max : F

/-- What a `kcentroid` is constructed with. -/
structure KcentroidSettings (S F : Type*) where
  kernel : S → S → F
  my_tolerance : F
  my_max_dictionary_size : Nat
  my_remove_oldest_first : Bool

/-- The members with an entry for each dictionary vector. -/
structure Dictionary (S F : Type*) (n : Nat) where
  dictionary : Fin n → S
  alpha : Fin n → F
  K_inv : Matrix (Fin n) (Fin n) F
  K : Matrix (Fin n) (Fin n) F

structure Kcentroid (S F : Type*) where
  size : Nat
  dict : Dictionary S F size
  min_strength : F
  min_vect_idx : Nat
  samples_seen : F
  bias : F
  bias_is_stale : Bool

variable {S F : Type*} {n : Nat}

section Operations
variable [Field F]

namespace Dictionary

/-- The first sample. -/
def first (x : S) (kx xscale : F) : Dictionary S F 1 where
  dictionary _ := x
  alpha _ := xscale
  K_inv := Matrix.of fun _ _ => 1 / kx
  K := Matrix.of fun _ _ => kx

/-- `k`: the kernel products of a sample with the dictionary. -/
def column (kernel : S → S → F) (d : Dictionary S F n) (x : S) : Fin n → F :=
  fun r => kernel x (d.dictionary r)

/-- A new last vector; `k` holds its kernel products with the others. -/
def add (d : Dictionary S F n) (x : S) (k : Fin n → F) (kx cscale xscale : F) :
    Dictionary S F (n + 1) :=
  let a := d.K_inv *ᵥ k
  let delta := kx - k ⬝ᵥ a
  { dictionary := Fin.snoc d.dictionary x
    alpha := Fin.snoc (fun i => d.alpha i * cscale) xscale
    K_inv := borderedInverse d.K_inv a delta
    K := bordered d.K k kx }

/-- `remove_dictionary_vector`. -/
def remove (d : Dictionary S F (n + 1)) (i : Fin (n + 1)) : Dictionary S F n where
  dictionary := d.dictionary ∘ i.succAbove
  alpha := shortenedInverse d.K_inv i *ᵥ fun r => (d.K *ᵥ d.alpha) (i.succAbove r)
  K_inv := shortenedInverse d.K_inv i
  K := shortened d.K i

/-- A sample that is expressed by the dictionary, with the coefficients `a`. -/
def blend (d : Dictionary S F n) (a : Fin n → F) (cscale xscale : F) : Dictionary S F n :=
  { d with alpha := fun i => cscale * d.alpha i + xscale * a i }

/-- The `delta` that vector `i` would have if it were removed and added again. -/
def strength (d : Dictionary S F (n + 1)) (i : Fin (n + 1)) : F :=
  let k := fun r => d.K (i.succAbove r) i
  d.K i i - k ⬝ᵥ (shortenedInverse d.K_inv i *ᵥ k)

/-- The vector at `idx` makes room for `x`. -/
def replace (d : Dictionary S F (n + 1)) (idx : Nat) (x : S) (k : Fin (n + 1) → F)
    (kx cscale xscale : F) : Except BadIndex (Dictionary S F (n + 1)) :=
  if h : idx < n + 1 then
    let i : Fin (n + 1) := ⟨idx, h⟩
    .ok ((d.remove i).add x (k ∘ i.succAbove) kx cscale xscale)
  else .error ⟨idx, n + 1⟩

/-- The `bias` that belongs to the coefficients. -/
def squaredNorm (d : Dictionary S F n) : F := ∑ i, ∑ j, d.K i j * (d.alpha i * d.alpha j)

end Dictionary

/-- The scan of `recompute_min_strength`, with the smallest value so far and its index. -/
def strengthLoop [LT F] [DecidableLT F] (strength : Fin n → F) : List (Fin n) → F × Nat → F × Nat
  | [], best => best
  | i :: is, best => strengthLoop strength is (if strength i < best.1 then (strength i, i) else best)

def Dictionary.recomputeMinStrength [LT F] [DecidableLT F] [ScalarLimits F]
    (d : Dictionary S F (n + 1)) (min_vect_idx : Nat) : F × Nat :=
  strengthLoop d.strength (List.finRange (n + 1)) (ScalarLimits.max, min_vect_idx)

end Operations

/-! ### The class -/

namespace Kcentroid

section Bias
variable [Field F]

/-- `clear_dictionary`. -/
def clearDictionary : Kcentroid S F where
  size := 0
  dict := ⟨Fin.elim0, Fin.elim0, Matrix.of Fin.elim0, Matrix.of Fin.elim0⟩
  min_strength := 0
  min_vect_idx := 0
  samples_seen := 0
  bias := 0
  bias_is_stale := false

def refreshBias (c : Kcentroid S F) : Kcentroid S F :=
  if c.bias_is_stale then { c with bias := c.dict.squaredNorm, bias_is_stale := false } else c

def innerProduct (p : KcentroidSettings S F) (c : Kcentroid S F) (x : S) : F :=
  ∑ i, c.dict.alpha i * p.kernel (c.dict.dictionary i) x

end Bias

variable [Field F] [LinearOrder F] [CFloat F] [ScalarLimits F] (p : KcentroidSettings S F)

/-- `operator()`: the distance of a sample to the sum. -/
def score (c : Kcentroid S F) (x : S) : F :=
  let c := c.refreshBias
  let kxx := p.kernel x x
  let temp := kxx + c.bias - (2 : Nat) * c.innerProduct p x
  if 0 < temp then CFloat.sqrt temp else 0

/-- `train_and_maybe_test` when the dictionary `d` is not empty. -/
def trainOnDictionary (c : Kcentroid S F) (d : Dictionary S F (n + 1)) (x : S) (cscale xscale : F) :
    Except BadIndex (Kcentroid S F) :=
  let kx := p.kernel x x
  let k := d.column p.kernel x
  let a := d.K_inv *ᵥ k
  let delta := kx - k ⬝ᵥ a
  if c.min_strength < delta ∧ p.my_tolerance < delta then
    if p.my_max_dictionary_size ≤ n + 1 then
      if p.my_remove_oldest_first then
        (d.replace 0 x k kx cscale xscale).bind fun d =>
          .ok { c with size := n + 1, dict := d, bias_is_stale := true }
      else
        let weakest :=
          if c.min_strength = 0 then d.recomputeMinStrength c.min_vect_idx
          else (c.min_strength, c.min_vect_idx)
        (d.replace weakest.2 x k kx cscale xscale).bind fun d =>
          let weakest := d.recomputeMinStrength weakest.2
          .ok { c with
            size := n + 1, dict := d, min_strength := weakest.1, min_vect_idx := weakest.2,
            bias_is_stale := true }
    else .ok { c with size := n + 2, dict := d.add x k kx cscale xscale, bias_is_stale := true }
  else .ok { c with size := n + 1, dict := d.blend a cscale xscale, bias_is_stale := true }

/-- The distance that `test_and_train` reports. -/
def testResult (c : Kcentroid S F) (x : S) : F :=
  let k := c.dict.column p.kernel x
  CFloat.sqrt (p.kernel x x + c.bias - (2 : Nat) * (c.dict.alpha ⬝ᵥ k))

/-- `train_and_maybe_test`, with its result. A first sample that is nearly zero is ignored. -/
def trainAndMaybeTest (c : Kcentroid S F) (x : S) (cscale xscale : F) (do_test : Bool) :
    Except BadIndex (F × Kcentroid S F) :=
  match c.size, c.dict with
  | 0, _ =>
    let kx := p.kernel x x
    if ScalarLimits.epsilon < |kx| then
      .ok (0, { c with size := 1, dict := .first x kx xscale, bias_is_stale := true })
    else .ok (0, c)
  | _ + 1, d =>
    let c := if do_test then c.refreshBias else c
    let test_result := if do_test then c.testResult p x else 0
    (c.trainOnDictionary p d x cscale xscale).bind fun c => .ok (test_result, c)

/-- `train` with the weights of the caller. -/
def trainScaled (c : Kcentroid S F) (x : S) (cscale xscale : F) : Except BadIndex (Kcentroid S F) :=
  (trainAndMaybeTest p { c with samples_seen := c.samples_seen + 1 } x cscale xscale false).map Prod.snd

/-- `train` with the weights of a mean. -/
def train (c : Kcentroid S F) (x : S) : Except BadIndex (Kcentroid S F) :=
  let xscale := 1 / (c.samples_seen + 1)
  trainScaled p c x (1 - xscale) xscale

/-- `test_and_train` with the weights of a mean. -/
def testAndTrain (c : Kcentroid S F) (x : S) : Except BadIndex (F × Kcentroid S F) :=
  let xscale := 1 / (c.samples_seen + 1)
  trainAndMaybeTest p { c with samples_seen := c.samples_seen + 1 } x (1 - xscale) xscale true

end Kcentroid

end FaceRecognition
