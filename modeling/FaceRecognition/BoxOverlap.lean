import Mathlib.Algebra.Order.Field.Basic
import Mathlib.Data.Finset.Prod
import Mathlib.Data.Int.ConditionallyCompleteOrder
import Mathlib.Data.Int.Interval
import Mathlib.Tactic.Linarith

/-! `dlib/geometry/rectangle.h` and `dlib/image_processing/box_overlap_testing.h`: rectangles of
pixels with their right and bottom edges included, and when two of them are taken for the same
object. -/
namespace FaceRecognition

/-- `rectangle`; it is empty when an edge is past the opposite one. -/
structure Rectangle where
  left : Int
  top : Int
  right : Int
  bottom : Int
  deriving DecidableEq

namespace Rectangle

def isEmpty (a : Rectangle) : Bool := a.bottom < a.top || a.right < a.left

def width (a : Rectangle) : Nat := if a.isEmpty then 0 else (a.right - a.left + 1).toNat

def height (a : Rectangle) : Nat := if a.isEmpty then 0 else (a.bottom - a.top + 1).toNat

def area (a : Rectangle) : Nat := a.width * a.height

/-- `operator+`: the smallest rectangle around both. -/
def hull (a rhs : Rectangle) : Rectangle :=
  if rhs.isEmpty then a
  else if a.isEmpty then rhs
  else ⟨min a.left rhs.left, min a.top rhs.top, max a.right rhs.right, max a.bottom rhs.bottom⟩

def intersect (a rhs : Rectangle) : Rectangle :=
  ⟨max a.left rhs.left, max a.top rhs.top, min a.right rhs.right, min a.bottom rhs.bottom⟩

/-- `contains` for a point `(x, y)`. -/
def contains (a : Rectangle) (p : Int × Int) : Bool :=
  !(p.1 < a.left || a.right < p.1 || p.2 < a.top || a.bottom < p.2)

/-- The pixels `(x, y)` of a rectangle. -/
noncomputable def pixels (a : Rectangle) : Finset (Int × Int) :=
  Finset.Icc a.left a.right ×ˢ Finset.Icc a.top a.bottom

theorem mem_pixels {a : Rectangle} {x y : Int} :
    (x, y) ∈ a.pixels ↔ (a.left ≤ x ∧ x ≤ a.right) ∧ a.top ≤ y ∧ y ≤ a.bottom := by
  simp [pixels]

theorem contains_iff {a : Rectangle} {p : Int × Int} : a.contains p = true ↔ p ∈ a.pixels := by
  simp [contains, pixels, Finset.mem_product, and_assoc]

end Rectangle

/-- `test_box_overlap` with its thresholds. -/
structure TestBoxOverlap (F : Type*) where
  iou_thresh : F
  percent_covered_thresh : F

variable {F : Type*} [Field F] [LinearOrder F]

/-- `operator()` -/
def TestBoxOverlap.test (t : TestBoxOverlap F) (a b : Rectangle) : Bool :=
  let inner := (a.intersect b).area
  if inner = 0 then false
  else
    let outer := (a.hull b).area
    decide (t.iou_thresh < (inner : F) / outer) ||
      decide (t.percent_covered_thresh < (inner : F) / a.area) ||
      decide (t.percent_covered_thresh < (inner : F) / b.area)

namespace TestBoxOverlap

variable [IsStrictOrderedRing F] (t : TestBoxOverlap F)

end TestBoxOverlap

end FaceRecognition
