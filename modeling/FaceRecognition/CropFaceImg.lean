import FaceRecognition.Library.Printing
import FaceRecognition.Library.Rotation
import Mathlib.Algebra.Order.Floor.Ring

/-! `crop_face_img.cpp`: the face is cut out, scaled so that the eyes have the wanted
distance, padded, rotated about the eye centre and cropped to a window. Floats are read
as exact reals; OpenCV is a parameter of the model. -/
namespace FaceRecognition
open CppString

structure Point2f where
  x : ℝ
  y : ℝ

structure Rect where
  x : Int
  y : Int
  width : Int
  height : Int
  deriving DecidableEq

/-- Conversion of a float to `int`, towards zero. -/
noncomputable def toInt (v : ℝ) : Int := if 0 ≤ v then ⌊v⌋ else ⌈v⌉

@[simp] theorem toInt_intCast (i : Int) : toInt i = i := by
  simp [toInt]

@[simp] theorem toInt_ofNat (n : Nat) [n.AtLeastTwo] : toInt ofNat(n) = ofNat(n) :=
  toInt_intCast (OfNat.ofNat n)

/-- What the crop uses of OpenCV. An operation whose assertion fails throws. -/
structure OpenCV (Mat : Type*) where
  empty : Mat
  cols : Mat → Int
  rows : Mat → Int
  channels : Mat → Int
  roi : Mat → Rect → Except StdException Mat
  clone : Mat → Mat
  grayToBgr : Mat → Except StdException Mat
  resize : Mat → Int → Int → Except StdException Mat
  /-- The first image with the second one copied into the region. -/
  copyTo : Mat → Rect → Mat → Mat
  getRotationMatrix2D : Point2f → ℝ → ℝ → Matrix (Fin 2) (Fin 3) ℝ
  warpAffine : Mat → Matrix (Fin 2) (Fin 3) ℝ → Int → Int → Nat → Mat

noncomputable def radians (degrees : ℝ) : ℝ := degrees * (Real.pi / 180)

/-- `getRotationMatrix2D(c, a, 1)` is the rotation by `a` degrees about `c`. -/
def RotatesDegrees {Mat : Type*} (cv : OpenCV Mat) : Prop :=
  ∀ c a, cv.getRotationMatrix2D c a 1 = Rotation.about c.x c.y (radians a)

def eye2cvMat (lp rp : Point2f) : Matrix (Fin 3) (Fin 2) ℝ :=
  !![lp.x, rp.x;
     lp.y, rp.y;
     1, 1]

/-! ### Cutting the face out -/

section FaceArea
variable (eyelocL eyelocR : Point2f)

noncomputable def eyeCenter : Point2f :=
  ⟨(eyelocL.x + eyelocR.x) / 2, (eyelocL.y + eyelocR.y) / 2⟩

/-- `L` in the source. -/
noncomputable def eyeDistance : ℝ :=
  √((eyelocL.x - eyelocR.x) * (eyelocL.x - eyelocR.x) +
    (eyelocL.y - eyelocR.y) * (eyelocL.y - eyelocR.y))

noncomputable def eyeDegrees : ℝ :=
  Real.arccos ((eyelocR.x - eyelocL.x) / eyeDistance eyelocL eyelocR) * (180 / Real.pi)

/-- One coordinate of `sp`. -/
noncomputable def searchStart (center tCrop : ℝ) : ℝ :=
  if center - tCrop * (1 / 2) < 0 then 0 else center - tCrop * (1 / 2)

/-- `sp` in the source. -/
noncomputable def searchOrigin : Point2f :=
  ⟨searchStart (eyeCenter eyelocL eyelocR).x (eyeDistance eyelocL eyelocR * 4),
    searchStart (eyeCenter eyelocL eyelocR).y (eyeDistance eyelocL eyelocR * 4)⟩

/-- `tCropWidth` or `tCropHeight` once it is cut at the border of the image. -/
noncomputable def cropExtent (start tCrop : ℝ) (size : Int) : ℝ :=
  if (size : ℝ) ≤ start + tCrop - 1 then size - start - 1 else tCrop

noncomputable def faceArea (cols rows : Int) : Rect :=
  let sp := searchOrigin eyelocL eyelocR
  let tCrop := eyeDistance eyelocL eyelocR * 4
  ⟨toInt sp.x, toInt sp.y, toInt (cropExtent sp.x tCrop cols), toInt (cropExtent sp.y tCrop rows)⟩

end FaceArea

/-! ### Keeping the eyes in step with the pixels -/

/-- The eyes and their centre, in the coordinates of the image at some stage. -/
structure Tracked where
  eyelocL : Point2f
  eyelocR : Point2f
  eCenter : Point2f

namespace Tracked

def offset (t : Tracked) (sp : Point2f) : Tracked where
  eyelocL := ⟨t.eyelocL.x - sp.x, t.eyelocL.y - sp.y⟩
  eyelocR := ⟨t.eyelocR.x - sp.x, t.eyelocR.y - sp.y⟩
  eCenter := ⟨t.eCenter.x - sp.x, t.eCenter.y - sp.y⟩

def scaled (t : Tracked) (scale : ℝ) : Tracked where
  eyelocL := ⟨t.eyelocL.x * scale, t.eyelocL.y * scale⟩
  eyelocR := ⟨t.eyelocR.x * scale, t.eyelocR.y * scale⟩
  eCenter := ⟨t.eCenter.x * scale, t.eCenter.y * scale⟩

def padded (t : Tracked) (d : Point2f) : Tracked where
  eyelocL := ⟨t.eyelocL.x + d.x, t.eyelocL.y + d.y⟩
  eyelocR := ⟨t.eyelocR.x + d.x, t.eyelocR.y + d.y⟩
  eCenter := ⟨t.eCenter.x + d.x, t.eCenter.y + d.y⟩

end Tracked

noncomputable def tscale : ℝ := 1.2

section Track
variable (eyelocL eyelocR : Point2f) (cropWidth : Int) (feyewidRatio : ℝ)

noncomputable def cropScale : ℝ := cropWidth * feyewidRatio / eyeDistance eyelocL eyelocR

/-- The eyes in `sImg0`. -/
noncomputable def scaledEyes : Tracked :=
  let t : Tracked := ⟨eyelocL, eyelocR, eyeCenter eyelocL eyelocR⟩
  (t.offset (searchOrigin eyelocL eyelocR)).scaled (cropScale eyelocL eyelocR cropWidth feyewidRatio)

/-- `(dx, dy)` in the source. -/
noncomputable def padding : Point2f :=
  let t := scaledEyes eyelocL eyelocR cropWidth feyewidRatio
  ⟨t.eCenter.x * tscale - t.eCenter.x, t.eCenter.y * tscale - t.eCenter.y⟩

/-- The eyes in `rotateImg`. -/
noncomputable def track : Tracked :=
  (scaledEyes eyelocL eyelocR cropWidth feyewidRatio).padded
    (padding eyelocL eyelocR cropWidth feyewidRatio)

noncomputable def trect (cols rows : Int) : Rect :=
  let d := padding eyelocL eyelocR cropWidth feyewidRatio
  ⟨toInt d.x, toInt d.y, cols, rows⟩

end Track

section Crop
variable {Mat : Type*} (cv : OpenCV Mat) (eyelocL eyelocR : Point2f)
  (cropWidth cropHeight : Int) (feyewidRatio feyehLevel : ℝ)

noncomputable def rotateMat : Matrix (Fin 2) (Fin 3) ℝ :=
  let t := track eyelocL eyelocR cropWidth feyewidRatio
  let deg := eyeDegrees eyelocL eyelocR
  cv.getRotationMatrix2D t.eCenter (-(if t.eyelocL.y < t.eyelocR.y then -deg else deg)) 1

/-- `Rot_coEye`: the eyes after the rotation, left eye in column 0. -/
noncomputable def rotCoEye : Matrix (Fin 2) (Fin 2) ℝ :=
  let t := track eyelocL eyelocR cropWidth feyewidRatio
  rotateMat cv eyelocL eyelocR cropWidth feyewidRatio * eye2cvMat t.eyelocL t.eyelocR

noncomputable def windowX : Int :=
  ⌊(track eyelocL eyelocR cropWidth feyewidRatio).eyelocL.x - cropWidth * ((1 - feyewidRatio) * 0.5)⌋

noncomputable def windowY : Int :=
  ⌊(track eyelocL eyelocR cropWidth feyewidRatio).eyelocL.y - cropHeight * feyehLevel⌋

/-- `gim`, unless the image has a number of channels that the crop does not handle. -/
def toColour (tim : Mat) : Except StdException (Option Mat) :=
  if cv.channels tim = 3 then .ok (some (cv.clone tim))
  else if cv.channels tim = 1 then (cv.grayToBgr tim).map some
  else .ok none

/-- `sImg0`. -/
noncomputable def scaleFace (gim : Mat) : Except StdException Mat :=
  let scale := cropScale eyelocL eyelocR cropWidth feyewidRatio
  cv.resize gim ⌊cv.cols gim * scale⌋ ⌊cv.rows gim * scale⌋

/-- `rotateImg` before the warp: the scaled face once more enlarged, with the face itself
copied over it so that the eye centre stays in place. The enlargement is computed from
the size that `sImg0` was asked to have. -/
noncomputable def padFace (gim sImg0 : Mat) : Except StdException Mat :=
  let scale := cropScale eyelocL eyelocR cropWidth feyewidRatio
  let nWidth := ⌊cv.cols gim * scale⌋
  let nHeight := ⌊cv.rows gim * scale⌋
  let area := trect eyelocL eyelocR cropWidth feyewidRatio (cv.cols sImg0) (cv.rows sImg0)
  (cv.resize sImg0 ⌊nWidth * tscale⌋ ⌊nHeight * tscale⌋).bind fun rotateImg =>
    (cv.roi rotateImg area).bind fun _ => .ok (cv.copyTo rotateImg area sImg0)

/-- The window is not inside the image. -/
def windowOutside (nx ny cropWidth cropHeight cols rows : Int) : Bool :=
  nx < 0 || ny < 0 || nx + cropWidth > cols || ny + cropHeight > rows

def windowReport (nx ny cropWidth cols rows : Int) : List Str :=
  ["=========".toList, "nx        : ".toList ++ printInt nx, "ny        : ".toList ++ printInt ny,
    "cropWidth : ".toList ++ printInt cropWidth, "cols      : ".toList ++ printInt cols,
    "rows      : ".toList ++ printInt rows, "=========".toList]

noncomputable def cropWindow (rotateImg : Mat) : Printing StdException Mat :=
  let nx := windowX eyelocL eyelocR cropWidth feyewidRatio
  let ny := windowY eyelocL eyelocR cropWidth cropHeight feyewidRatio feyehLevel
  let cols := cv.cols rotateImg
  let rows := cv.rows rotateImg
  if windowOutside nx ny cropWidth cropHeight cols rows then
    ⟨windowReport nx ny cropWidth cols rows, .ok cv.empty⟩
  else .quiet ((cv.roi rotateImg ⟨nx, ny, cropWidth, cropHeight⟩).map cv.clone)

end Crop

noncomputable def cropFaceImagebyEYE {Mat : Type*} (cv : OpenCV Mat) (inIm : Mat)
    (eyelocL eyelocR : Point2f) (cropWidth cropHeight : Int) (feyewidRatio feyehLevel : ℝ) :
    Printing StdException Mat :=
  Printing.bind (.quiet (cv.roi inIm (faceArea eyelocL eyelocR (cv.cols inIm) (cv.rows inIm)))) fun tim =>
  Printing.bind (.quiet (toColour cv tim)) fun colour =>
  match colour with
  | none => .pure cv.empty
  | some gim =>
    Printing.bind (.quiet (scaleFace cv eyelocL eyelocR cropWidth feyewidRatio gim)) fun sImg0 =>
    Printing.bind (.quiet (padFace cv eyelocL eyelocR cropWidth feyewidRatio gim sImg0)) fun padded =>
    cropWindow cv eyelocL eyelocR cropWidth cropHeight feyewidRatio feyehLevel
      (cv.warpAffine padded (rotateMat cv eyelocL eyelocR cropWidth feyewidRatio)
        (cv.cols padded) (cv.rows padded) 2)


/-! ### Where the eyes are tracked to -/

section TrackSpec
variable {eyelocL eyelocR : Point2f} {cropWidth : Int} {feyewidRatio : ℝ}

theorem eyeDistance_eq (eyelocL eyelocR : Point2f) : eyeDistance eyelocL eyelocR =
    √((eyelocR.x - eyelocL.x) * (eyelocR.x - eyelocL.x) +
      (eyelocR.y - eyelocL.y) * (eyelocR.y - eyelocL.y)) := by
  rw [eyeDistance]
  congr 1
  ring

theorem differ_of_ne (h : eyelocL ≠ eyelocR) :
    eyelocR.x - eyelocL.x ≠ 0 ∨ eyelocR.y - eyelocL.y ≠ 0 := by
  by_contra hc
  obtain ⟨hx, hy⟩ := not_or.mp hc
  apply h
  cases eyelocL
  cases eyelocR
  simp only [not_not, sub_eq_zero] at hx hy
  simp [hx, hy]

theorem eyeDistance_pos (h : eyelocL ≠ eyelocR) : 0 < eyeDistance eyelocL eyelocR := by
  rw [eyeDistance_eq]
  exact Rotation.norm_pos (differ_of_ne h)

/-- Every update moves both eyes and the centre alike, so the centre stays in the middle and
the vector to the right eye is half the eye line, scaled. -/
theorem track_eyelocR (eyelocL eyelocR : Point2f) (cropWidth : Int) (feyewidRatio : ℝ) :
    let t := track eyelocL eyelocR cropWidth feyewidRatio
    let s := cropScale eyelocL eyelocR cropWidth feyewidRatio
    t.eyelocR = ⟨t.eCenter.x + s * (eyelocR.x - eyelocL.x) / 2,
      t.eCenter.y + s * (eyelocR.y - eyelocL.y) / 2⟩ := by
  simp only [track, scaledEyes, Tracked.padded, Tracked.scaled, Tracked.offset, eyeCenter,
    Point2f.mk.injEq]
  constructor <;> ring

theorem track_eyelocL (eyelocL eyelocR : Point2f) (cropWidth : Int) (feyewidRatio : ℝ) :
    let t := track eyelocL eyelocR cropWidth feyewidRatio
    let s := cropScale eyelocL eyelocR cropWidth feyewidRatio
    t.eyelocL = ⟨t.eCenter.x - s * (eyelocR.x - eyelocL.x) / 2,
      t.eCenter.y - s * (eyelocR.y - eyelocL.y) / 2⟩ := by
  simp only [track, scaledEyes, Tracked.padded, Tracked.scaled, Tracked.offset, eyeCenter,
    Point2f.mk.injEq]
  constructor <;> ring

end TrackSpec

end FaceRecognition
