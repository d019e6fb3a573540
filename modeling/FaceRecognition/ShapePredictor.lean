import FaceRecognition.BoxOverlap
import FaceRecognition.Calc
import FaceRecognition.Library.HeapTree
import FaceRecognition.PointTransforms
import Mathlib.Algebra.Order.Floor.Ring

/-! `dlib/image_processing/shape_predictor.h`: the landmarks of a face. A cascade of regression trees
moves the initial shape; the trees compare pixels that are found relative to the current shape. A
shape is the list of its points, in coordinates where the face's rectangle is the unit square. The
arithmetic is exact, apart from the conversion to pixels. -/
namespace FaceRecognition
open HeapTree Matrix

variable {F : Type*} [Field F] [LinearOrder F]

/-! ### Trees -/

structure SplitFeature (F : Type*) where
  idx1 : Nat
  idx2 : Nat
  thresh : F

structure RegressionTree (F : Type*) where
  splits : List (SplitFeature F)
  leaf_values : List (List (F × F))

def leftChild (idx : Nat) : Nat := 2 * idx + 1

def rightChild (idx : Nat) : Nat := 2 * idx + 2

namespace RegressionTree

/-- The loop of `regression_tree::operator()`. -/
def descendLoop (splits : List (SplitFeature F)) (feature_pixel_values : List F) (i : Nat) :
    Except BadIndex Nat :=
  if h : i < splits.length then
    (access feature_pixel_values splits[i].idx1).bind fun a =>
      (access feature_pixel_values splits[i].idx2).bind fun b =>
        if splits[i].thresh < a - b then descendLoop splits feature_pixel_values (leftChild i)
        else descendLoop splits feature_pixel_values (rightChild i)
  else .ok i
  termination_by splits.length - i
  decreasing_by
    · rw [leftChild]
      omega
    · rw [rightChild]
      omega

/-- `regression_tree::operator()`: the leaf and its number. -/
def eval (t : RegressionTree F) (feature_pixel_values : List F) :
    Except BadIndex (List (F × F) × Nat) :=
  (descendLoop t.splits feature_pixel_values 0).bind fun i =>
    let i := i - t.splits.length
    (access t.leaf_values i).bind fun leaf => .ok (leaf, i)

def numLeaves (t : RegressionTree F) : Nat := t.leaf_values.length

end RegressionTree

/-! ### Pixels relative to a shape -/

/-- The scan of `nearest_shape_point`; no distance is below the initial `infinity`, which is `none`. -/
def nearestPointLoop (pt : F × F) : Nat → Nat → Option F → List (F × F) → Nat
  | _, best_idx, _, [] => best_idx
  | j, best_idx, best_dist, p :: shape =>
    let dist := lengthSquared (p - pt)
    if best_dist.all fun d => dist < d then nearestPointLoop pt (j + 1) j (some dist) shape
    else nearestPointLoop pt (j + 1) best_idx best_dist shape

def nearestShapePoint (shape : List (F × F)) (pt : F × F) : Nat := nearestPointLoop pt 0 0 none shape

/-- `create_shape_relative_encoding`: for every pixel the nearest point and the way from it. -/
def createShapeRelativeEncoding (shape pixel_coordinates : List (F × F)) :
    Except BadIndex (List (Nat × (F × F))) :=
  pixel_coordinates.mapM fun pixel =>
    let anchor := nearestShapePoint shape pixel
    (access shape anchor).bind fun location => .ok (anchor, pixel - location)

/-! ### Transforms -/

/-- `unnormalizing_tform`: from the unit square to the rectangle, without the roundings of the source. -/
def unnormalizingTform (rect : Rectangle) : PointTransformAffine F :=
  findAffineTransform ![(0, 0), (1, 0), (1, 1)]
    ![(rect.left, rect.top), (rect.right, rect.top), (rect.right, rect.bottom)]

/-- `find_tform_between_shapes(..).get_m()` -/
def findTformBetweenShapes (svd : Matrix (Fin 2) (Fin 2) F → Svd F)
    (from_shape to_shape : List (F × F)) : Except BadIndex (Matrix (Fin 2) (Fin 2) F) :=
  if from_shape.length = 1 then .ok 1
  else ((List.range from_shape.length).mapM (access to_shape)).bind fun to_points =>
    .ok (findSimilarityTransform svd from_shape to_points).m

/-! ### Images -/

/-- An image of which only the intensities are read. -/
structure GrayImage (F : Type*) where
  nr : Nat
  nc : Nat
  pixel : Fin nr → Fin nc → F

namespace GrayImage

/-- `get_rect` -/
def area (img : GrayImage F) : Rectangle := ⟨0, 0, img.nc - 1, img.nr - 1⟩

omit [Field F] [LinearOrder F] in
theorem bounds {img : GrayImage F} {p : Int × Int} (h : img.area.contains p = true) :
    p.2.toNat < img.nr ∧ p.1.toNat < img.nc := by
  have hp := Rectangle.mem_pixels.mp (Rectangle.contains_iff.mp h)
  simp only [area] at hp
  omega

/-- The value of a feature pixel: zero outside of the image. -/
def intensity (img : GrayImage F) (p : Int × Int) : F :=
  if h : img.area.contains p = true then img.pixel ⟨p.2.toNat, (bounds h).1⟩ ⟨p.1.toNat, (bounds h).2⟩
  else 0

end GrayImage

/-! ### The predictor -/

structure ShapePredictor (F : Type*) where
  initial_shape : List (F × F)
  forests : List (List (RegressionTree F))
  anchor_idx : List (List Nat)
  deltas : List (List (F × F))

structure FullObjectDetection where
  rect : Rectangle
  parts : List (Int × Int)
  deriving DecidableEq

/-- `current_shape += leaf`; a leaf of another size takes the place of the shape. -/
def addShape (current_shape leaf : List (F × F)) : List (F × F) :=
  if current_shape.length = leaf.length then List.zipWith (· + ·) current_shape leaf else leaf

section Rounding
variable [FloorRing F]

/-- The conversion to a `point` rounds. -/
def toPoint (p : F × F) : Int × Int :=
  (⌊p.1 + ((1 / 2 : ℚ) : F)⌋, ⌊p.2 + ((1 / 2 : ℚ) : F)⌋)

variable (svd : Matrix (Fin 2) (Fin 2) F → Svd F)

/-- `extract_feature_pixel_values` -/
def extractFeaturePixelValues (img : GrayImage F) (rect : Rectangle)
    (current_shape reference_shape : List (F × F)) (reference_pixel_anchor_idx : List Nat)
    (reference_pixel_deltas : List (F × F)) : Except BadIndex (List F) :=
  (findTformBetweenShapes svd reference_shape current_shape).bind fun tform =>
    let tform_to_img := unnormalizingTform rect
    (List.range reference_pixel_deltas.length).mapM fun i =>
      (access reference_pixel_deltas i).bind fun delta =>
        (access reference_pixel_anchor_idx i).bind fun anchor =>
          (access current_shape anchor).bind fun location =>
            .ok (img.intensity (toPoint (tform_to_img.apply (timesVector tform delta + location))))

namespace ShapePredictor

def numParts (sp : ShapePredictor F) : Nat := sp.initial_shape.length

/-- The constructor from the result of a training. -/
def create (initial_shape : List (F × F)) (forests : List (List (RegressionTree F)))
    (pixel_coordinates : List (List (F × F))) : Except BadIndex (ShapePredictor F) :=
  (pixel_coordinates.mapM (createShapeRelativeEncoding initial_shape)).bind fun encodings =>
    .ok ⟨initial_shape, forests, encodings.map fun e => e.map Prod.fst,
      encodings.map fun e => e.map Prod.snd⟩

/-- All the trees at one level of the cascade. -/
def treesLoop (feature_pixel_values : List F) :
    List (RegressionTree F) → List (F × F) → Except BadIndex (List (F × F))
  | [], current_shape => .ok current_shape
  | t :: trees, current_shape => (t.eval feature_pixel_values).bind fun r =>
      treesLoop feature_pixel_values trees (addShape current_shape r.1)

/-- The levels of the cascade, `iter` being the next one. -/
def cascadeLoop (sp : ShapePredictor F) (img : GrayImage F) (rect : Rectangle) :
    Nat → List (List (RegressionTree F)) → List (F × F) → Except BadIndex (List (F × F))
  | _, [], current_shape => .ok current_shape
  | iter, forest :: forests, current_shape =>
    (access sp.anchor_idx iter).bind fun anchors => (access sp.deltas iter).bind fun deltas =>
      (extractFeaturePixelValues svd img rect current_shape sp.initial_shape anchors
        deltas).bind fun values =>
          (treesLoop values forest current_shape).bind fun current_shape =>
            cascadeLoop sp img rect (iter + 1) forests current_shape

/-- The landmarks of a shape in the image. -/
def toParts (rect : Rectangle) (current_shape : List (F × F)) : FullObjectDetection :=
  let tform_to_img : PointTransformAffine F := unnormalizingTform rect
  ⟨rect, current_shape.map fun location => toPoint (tform_to_img.apply location)⟩

/-- `operator()` -/
def predict (sp : ShapePredictor F) (img : GrayImage F) (rect : Rectangle) :
    Except BadIndex FullObjectDetection :=
  (sp.cascadeLoop svd img rect 0 sp.forests sp.initial_shape).bind fun current_shape =>
    .ok (toParts rect current_shape)

/-! The second `operator()`, which also lists the leaves that were reached. -/

def treesLoopFeats (feature_pixel_values : List F) :
    List (RegressionTree F) → List (F × F) → List Nat → Nat →
      Except BadIndex (List (F × F) × List Nat × Nat)
  | [], current_shape, feats, feat_offset => .ok (current_shape, feats, feat_offset)
  | t :: trees, current_shape, feats, feat_offset => (t.eval feature_pixel_values).bind fun r =>
      treesLoopFeats feature_pixel_values trees (addShape current_shape r.1) (feats ++ [feat_offset + r.2])
        (feat_offset + t.numLeaves)

def cascadeLoopFeats (sp : ShapePredictor F) (img : GrayImage F) (rect : Rectangle) :
    Nat → List (List (RegressionTree F)) → List (F × F) → List Nat → Nat →
      Except BadIndex (List (F × F) × List Nat × Nat)
  | _, [], current_shape, feats, feat_offset => .ok (current_shape, feats, feat_offset)
  | iter, forest :: forests, current_shape, feats, feat_offset =>
    (access sp.anchor_idx iter).bind fun anchors => (access sp.deltas iter).bind fun deltas =>
      (extractFeaturePixelValues svd img rect current_shape sp.initial_shape anchors
        deltas).bind fun values =>
          (treesLoopFeats values forest current_shape feats feat_offset).bind fun r =>
            cascadeLoopFeats sp img rect (iter + 1) forests r.1 r.2.1 r.2.2

/-- `operator()` with `feats`; the value that goes with each feature is always 1. -/
def predictFeats (sp : ShapePredictor F) (img : GrayImage F) (rect : Rectangle) :
    Except BadIndex (FullObjectDetection × List Nat) :=
  (sp.cascadeLoopFeats svd img rect 0 sp.forests sp.initial_shape [] 0).bind fun r =>
    .ok (toParts rect r.1, r.2.1)

/-- `num_features` -/
def numFeatures (sp : ShapePredictor F) : Nat :=
  (sp.forests.map fun forest => (forest.map RegressionTree.numLeaves).sum).sum

end ShapePredictor

end Rounding

end FaceRecognition
