import FaceRecognition.CropFaceImg
import Mathlib.Tactic.NormNum
import Mathlib.Tactic.FieldSimp

/-! Where the rotation of the crop puts the eyes, and where the window puts them. -/
namespace FaceRecognition
open CppString

section Level
variable {Mat : Type*} {cv : OpenCV Mat} {eyelocL eyelocR : Point2f} {cropWidth : Int}
  {feyewidRatio : ℝ}

theorem radians_neg (degrees : ℝ) : radians (-degrees) = -radians degrees :=
  neg_mul degrees _

theorem radians_eyeDegrees (eyelocL eyelocR : Point2f) : radians (eyeDegrees eyelocL eyelocR) =
    Real.arccos ((eyelocR.x - eyelocL.x) / eyeDistance eyelocL eyelocR) := by
  have hpi := Real.pi_ne_zero
  rw [radians, eyeDegrees]
  field_simp

/-- The tracked eyes are in the same vertical order as the eyes given. -/
theorem track_lt_iff (hne : eyelocL ≠ eyelocR) (hd : 0 < cropWidth * feyewidRatio) :
    let t := track eyelocL eyelocR cropWidth feyewidRatio
    t.eyelocL.y < t.eyelocR.y ↔ 0 < eyelocR.y - eyelocL.y := by
  have hs : 0 < cropScale eyelocL eyelocR cropWidth feyewidRatio :=
    div_pos hd (eyeDistance_pos hne)
  intro t
  simp only [t, track_eyelocL, track_eyelocR]
  constructor
  · intro h
    refine pos_of_mul_pos_right ?_ hs.le
    linarith
  · intro h
    linarith [mul_pos hs h]

/-- The branch on the vertical order and the sign of the argument together turn by the
angle of the eye line. -/
theorem rotateMat_eq (hcv : RotatesDegrees cv) (hne : eyelocL ≠ eyelocR)
    (hd : 0 < cropWidth * feyewidRatio) :
    let c := (track eyelocL eyelocR cropWidth feyewidRatio).eCenter
    rotateMat cv eyelocL eyelocR cropWidth feyewidRatio =
      Rotation.about c.x c.y (Rotation.angle (eyelocR.x - eyelocL.x) (eyelocR.y - eyelocL.y)) := by
  intro c
  rw [rotateMat, hcv, Rotation.angle, ← eyeDistance_eq, ← radians_eyeDegrees]
  congr 1
  by_cases hy : 0 < eyelocR.y - eyelocL.y
  · rw [if_pos ((track_lt_iff hne hd).mpr hy), if_pos hy, neg_neg]
  · rw [if_neg (fun h => hy ((track_lt_iff hne hd).mp h)), if_neg hy, radians_neg]

theorem cropScale_mul (hne : eyelocL ≠ eyelocR) (v : ℝ) :
    cropScale eyelocL eyelocR cropWidth feyewidRatio * v / 2 =
      cropWidth * feyewidRatio / 2 * (v / eyeDistance eyelocL eyelocR) := by
  have hL := (eyeDistance_pos hne).ne'
  rw [cropScale]
  field_simp

theorem rotCoEye_of_pos (hcv : RotatesDegrees cv) (hne : eyelocL ≠ eyelocR)
    (hd : 0 < cropWidth * feyewidRatio) :
    let c := (track eyelocL eyelocR cropWidth feyewidRatio).eCenter
    let d := cropWidth * feyewidRatio
    rotCoEye cv eyelocL eyelocR cropWidth feyewidRatio =
      !![c.x - d / 2, c.x + d / 2;
         c.y, c.y] := by
  intro c d
  have hab := differ_of_ne hne
  have hplus := Rotation.level hab (d / 2)
  have hminus := Rotation.level hab (-(d / 2))
  rw [rotCoEye, rotateMat_eq hcv hne hd, track_eyelocL, track_eyelocR, eye2cvMat,
    cropScale_mul hne, cropScale_mul hne, eyeDistance_eq]
  refine (Rotation.about_mul_columns _ _ _ _ _ _ _).trans ?_
  simp only [sub_sub_cancel_left, add_sub_cancel_left, ← neg_mul]
  rw [hplus.1, hplus.2, hminus.1, hminus.2, add_zero]
  rfl

/-- Eyes at distance zero coincide with their centre, which every rotation about it fixes. -/
theorem rotCoEye_of_zero (hcv : RotatesDegrees cv) (hd : cropWidth * feyewidRatio = 0) :
    let c := (track eyelocL eyelocR cropWidth feyewidRatio).eCenter
    rotCoEye cv eyelocL eyelocR cropWidth feyewidRatio =
      !![c.x, c.x;
         c.y, c.y] := by
  intro c
  have hs : cropScale eyelocL eyelocR cropWidth feyewidRatio = 0 := by rw [cropScale, hd, zero_div]
  rw [rotCoEye, rotateMat, hcv, track_eyelocL, track_eyelocR, hs, eye2cvMat]
  refine (Rotation.about_mul_columns _ _ _ _ _ _ _).trans ?_
  simp [c]

/-- The rotation levels the eyes about their centre, at the wanted distance, whatever the
direction of the eye line and wherever the face area was cut. -/
theorem rotateMat_levels (hcv : RotatesDegrees cv) (hne : eyelocL ≠ eyelocR)
    (hd : 0 ≤ cropWidth * feyewidRatio) :
    let t := track eyelocL eyelocR cropWidth feyewidRatio
    let d := cropWidth * feyewidRatio
    rotateMat cv eyelocL eyelocR cropWidth feyewidRatio * eye2cvMat t.eyelocL t.eyelocR =
      !![t.eCenter.x - d / 2, t.eCenter.x + d / 2;
         t.eCenter.y, t.eCenter.y] := by
  intro t d
  rcases hd.eq_or_lt with hd | hd
  · have hd0 : d / 2 = 0 := by rw [show d = 0 from hd.symm, zero_div]
    rw [hd0, sub_zero, add_zero]
    exact rotCoEye_of_zero hcv hd.symm
  · exact rotCoEye_of_pos hcv hne hd

end Level

/-! ### The window -/

section Window
variable {Mat : Type*} {cv : OpenCV Mat} {eyelocL eyelocR : Point2f} {cropWidth cropHeight : Int}
  {feyewidRatio feyehLevel : ℝ}

/-- Both rotated eyes, seen from the window, are within a pixel of where they should be. -/
structure EyesPlaced (cv : OpenCV Mat) (eyelocL eyelocR : Point2f) (cropWidth cropHeight : Int)
    (feyewidRatio feyehLevel : ℝ) : Prop where
  left_x : |rotCoEye cv eyelocL eyelocR cropWidth feyewidRatio 0 0 -
    windowX eyelocL eyelocR cropWidth feyewidRatio - cropWidth * (1 - feyewidRatio) / 2| ≤ 1
  left_y : |rotCoEye cv eyelocL eyelocR cropWidth feyewidRatio 1 0 -
    windowY eyelocL eyelocR cropWidth cropHeight feyewidRatio feyehLevel - cropHeight * feyehLevel| ≤ 1
  right_x : |rotCoEye cv eyelocL eyelocR cropWidth feyewidRatio 0 1 -
    windowX eyelocL eyelocR cropWidth feyewidRatio -
      (cropWidth * (1 - feyewidRatio) / 2 + cropWidth * feyewidRatio)| ≤ 1
  right_y : |rotCoEye cv eyelocL eyelocR cropWidth feyewidRatio 1 1 -
    windowY eyelocL eyelocR cropWidth cropHeight feyewidRatio feyehLevel - cropHeight * feyehLevel| ≤ 1

/-- One coordinate of the corner of the window before rounding. `a` is half the eye distance asked
for, `c` the eye centre, which is at most `2L` away from the border of the face area, and `v`
the eye line. -/
noncomputable def windowCorner (eyelocL eyelocR : Point2f) (a c v margin : ℝ) : ℝ :=
  let len := eyeDistance eyelocL eyelocR
  tscale * ((a + a) / len) * min c (len + len) - a * (v / len) - margin

/-- The corner of the window before rounding, from the arguments of the crop. -/
noncomputable def cornerX (eyelocL eyelocR : Point2f) (cropWidth : Int) (feyewidRatio : ℝ) : ℝ :=
  windowCorner eyelocL eyelocR (cropWidth * feyewidRatio * 0.5) (eyeCenter eyelocL eyelocR).x
    (eyelocR.x - eyelocL.x) (cropWidth * ((1 - feyewidRatio) * 0.5))

noncomputable def cornerY (eyelocL eyelocR : Point2f) (cropWidth cropHeight : Int)
    (feyewidRatio feyehLevel : ℝ) : ℝ :=
  windowCorner eyelocL eyelocR (cropWidth * feyewidRatio * 0.5) (eyeCenter eyelocL eyelocR).y
    (eyelocR.y - eyelocL.y) (cropHeight * feyehLevel)

/-- The eye line is so nearly level that turning the left eye about the centre moves it by
no more than a pixel, up to the rounding of the window. -/
structure NearlyLevel (eyelocL eyelocR : Point2f) (cropWidth cropHeight : Int)
    (feyewidRatio feyehLevel : ℝ) : Prop where
  across : cropWidth * feyewidRatio / 2 *
      (1 - (eyelocR.x - eyelocL.x) / eyeDistance eyelocL eyelocR) ≤
    1 + Int.fract (cornerX eyelocL eyelocR cropWidth feyewidRatio)
  down : -1 ≤ cropWidth * feyewidRatio / 2 * ((eyelocR.y - eyelocL.y) / eyeDistance eyelocL eyelocR) +
    Int.fract (cornerY eyelocL eyelocR cropWidth cropHeight feyewidRatio feyehLevel)
  up : cropWidth * feyewidRatio / 2 * ((eyelocR.y - eyelocL.y) / eyeDistance eyelocL eyelocR) +
    Int.fract (cornerY eyelocL eyelocR cropWidth cropHeight feyewidRatio feyehLevel) ≤ 1

theorem center_sub_searchStart (c len : ℝ) : c - searchStart c (len * 4) = min c (len + len) := by
  rw [searchStart]
  split
  next h => rw [sub_zero, min_eq_left (by linarith)]
  next h =>
    rw [min_eq_right (by linarith)]
    ring

theorem track_eCenter (eyelocL eyelocR : Point2f) (cropWidth cropHeight : Int)
    (feyewidRatio feyehLevel : ℝ) :
    let a := cropWidth * feyewidRatio / 2
    let len := eyeDistance eyelocL eyelocR
    (track eyelocL eyelocR cropWidth feyewidRatio).eCenter =
      ⟨cornerX eyelocL eyelocR cropWidth feyewidRatio + a * ((eyelocR.x - eyelocL.x) / len) +
          cropWidth * (1 - feyewidRatio) / 2,
        cornerY eyelocL eyelocR cropWidth cropHeight feyewidRatio feyehLevel +
          a * ((eyelocR.y - eyelocL.y) / len) + cropHeight * feyehLevel⟩ := by
  intro a len
  rw [cornerX, cornerY, windowCorner, windowCorner, ← center_sub_searchStart,
    ← center_sub_searchStart]
  simp only [track, scaledEyes, padding, Tracked.padded, Tracked.scaled, Tracked.offset,
    searchOrigin, cropScale, Point2f.mk.injEq]
  constructor <;> ring

theorem windowX_eq (hne : eyelocL ≠ eyelocR) :
    windowX eyelocL eyelocR cropWidth feyewidRatio =
      ⌊cornerX eyelocL eyelocR cropWidth feyewidRatio⌋ := by
  rw [windowX, track_eyelocL, track_eCenter _ _ _ 0 _ 0]
  simp only [cropScale_mul hne]
  congr 1
  ring

theorem windowY_eq (hne : eyelocL ≠ eyelocR) :
    windowY eyelocL eyelocR cropWidth cropHeight feyewidRatio feyehLevel =
      ⌊cornerY eyelocL eyelocR cropWidth cropHeight feyewidRatio feyehLevel⌋ := by
  rw [windowY, track_eyelocL, track_eCenter _ _ _ cropHeight _ feyehLevel]
  simp only [cropScale_mul hne]
  congr 1
  ring

theorem abs_sub_floor_le_iff (u e : ℝ) :
    |u + e - ⌊u⌋| ≤ 1 ↔ -1 ≤ e + Int.fract u ∧ e + Int.fract u ≤ 1 := by
  have he : u + e - ⌊u⌋ = e + Int.fract u := by
    rw [Int.fract]
    ring
  rw [he, abs_le]

/-- What is left of the placement of either eye once the window is written out. -/
theorem eyesPlaced_offset (hcv : RotatesDegrees cv) (hne : eyelocL ≠ eyelocR)
    (hd : 0 < cropWidth * feyewidRatio) :
    let a := cropWidth * feyewidRatio / 2
    let len := eyeDistance eyelocL eyelocR
    let u := cornerX eyelocL eyelocR cropWidth feyewidRatio
    let v := cornerY eyelocL eyelocR cropWidth cropHeight feyewidRatio feyehLevel
    EyesPlaced cv eyelocL eyelocR cropWidth cropHeight feyewidRatio feyehLevel ↔
      |u + a * ((eyelocR.x - eyelocL.x) / len - 1) - ⌊u⌋| ≤ 1 ∧
        |v + a * ((eyelocR.y - eyelocL.y) / len) - ⌊v⌋| ≤ 1 := by
  intro a len u v
  have hentries := rotCoEye_of_pos hcv hne hd
  rw [track_eCenter eyelocL eyelocR cropWidth cropHeight feyewidRatio feyehLevel] at hentries
  have hleft : rotCoEye cv eyelocL eyelocR cropWidth feyewidRatio 0 0 - ⌊u⌋ -
      cropWidth * (1 - feyewidRatio) / 2 = u + a * ((eyelocR.x - eyelocL.x) / len - 1) - ⌊u⌋ := by
    simp only [hentries, Matrix.of_apply, Matrix.cons_val_zero, Matrix.cons_val', u, a, len]
    ring
  have hright : rotCoEye cv eyelocL eyelocR cropWidth feyewidRatio 0 1 - ⌊u⌋ -
      (cropWidth * (1 - feyewidRatio) / 2 + cropWidth * feyewidRatio) =
        u + a * ((eyelocR.x - eyelocL.x) / len - 1) - ⌊u⌋ := by
    simp only [hentries, Matrix.of_apply, Matrix.cons_val_zero, Matrix.cons_val_one, Matrix.cons_val',
      u, a, len]
    ring
  have hdown (j : Fin 2) : rotCoEye cv eyelocL eyelocR cropWidth feyewidRatio 1 j - ⌊v⌋ -
      cropHeight * feyehLevel = v + a * ((eyelocR.y - eyelocL.y) / len) - ⌊v⌋ := by
    fin_cases j <;>
      simp only [hentries, Matrix.of_apply, Matrix.cons_val_zero, Matrix.cons_val_one, Matrix.cons_val',
        Fin.zero_eta, Fin.mk_one, v, a, len] <;> ring
  constructor
  · rintro ⟨hx, hy, -, -⟩
    rw [windowX_eq hne, hleft] at hx
    rw [windowY_eq hne, hdown] at hy
    exact ⟨hx, hy⟩
  · rintro ⟨hx, hy⟩
    refine ⟨?_, ?_, ?_, ?_⟩
    · rwa [windowX_eq hne, hleft]
    · rwa [windowY_eq hne, hdown]
    · rwa [windowX_eq hne, hright]
    · rwa [windowY_eq hne, hdown]

/-- Exactly when the crop puts the eyes where it is asked to: the window is placed with the
eyes as they were before the rotation. -/
theorem eyesPlaced_iff (hcv : RotatesDegrees cv) (hne : eyelocL ≠ eyelocR)
    (hd : 0 < cropWidth * feyewidRatio) :
    EyesPlaced cv eyelocL eyelocR cropWidth cropHeight feyewidRatio feyehLevel ↔
      NearlyLevel eyelocL eyelocR cropWidth cropHeight feyewidRatio feyehLevel := by
  have hcos := (abs_le.mp (Rotation.abs_le_norm (eyelocR.x - eyelocL.x) (eyelocR.y - eyelocL.y))).2
  rw [← eyeDistance_eq, ← div_le_one (eyeDistance_pos hne)] at hcos
  refine (eyesPlaced_offset hcv hne hd).trans ?_
  -- in `x` the window can only be too far to the left
  have hturn : cropWidth * feyewidRatio / 2 *
      ((eyelocR.x - eyelocL.x) / eyeDistance eyelocL eyelocR - 1) ≤ 0 :=
    mul_nonpos_of_nonneg_of_nonpos (by linarith) (by linarith)
  have hfract := Int.fract_lt_one (cornerX eyelocL eyelocR cropWidth feyewidRatio)
  rw [abs_sub_floor_le_iff, abs_sub_floor_le_iff]
  constructor
  · rintro ⟨⟨hx, -⟩, hdown, hup⟩
    exact ⟨by linarith, hdown, hup⟩
  · rintro ⟨hx, hdown, hup⟩
    exact ⟨⟨by linarith, by linarith⟩, hdown, hup⟩

end Window

/-! ### An image of which only the size is kept -/

/-- Images as columns, rows and channels. -/
noncomputable def OpenCV.sizes : OpenCV (Int × Int × Int) where
  empty := (0, 0, 1)
  cols m := m.1
  rows m := m.2.1
  channels m := m.2.2
  roi m r :=
    if 0 ≤ r.x ∧ 0 ≤ r.width ∧ r.x + r.width ≤ m.1 ∧ 0 ≤ r.y ∧ 0 ≤ r.height ∧ r.y + r.height ≤ m.2.1 then
      .ok (r.width, r.height, m.2.2)
    else .error (.other "Assertion failed".toList)
  clone m := m
  grayToBgr m := .ok (m.1, m.2.1, 3)
  resize m w h :=
    if 0 < w ∧ 0 < h then .ok (w, h, m.2.2) else .error (.other "Assertion failed".toList)
  copyTo m _ _ := m
  getRotationMatrix2D c a _ := Rotation.about c.x c.y (radians a)
  warpAffine m _ w h _ := (w, h, m.2.2)

namespace OpenCV
variable (w h c : Int)

@[simp] theorem sizes_cols : sizes.cols (w, h, c) = w := rfl
@[simp] theorem sizes_rows : sizes.rows (w, h, c) = h := rfl
@[simp] theorem sizes_channels : sizes.channels (w, h, c) = c := rfl
@[simp] theorem sizes_clone (m : Int × Int × Int) : sizes.clone m = m := rfl
@[simp] theorem sizes_copyTo (m n : Int × Int × Int) (r : Rect) : sizes.copyTo m r n = m := rfl

theorem sizes_roi (r : Rect)
    (hr : 0 ≤ r.x ∧ 0 ≤ r.width ∧ r.x + r.width ≤ w ∧ 0 ≤ r.y ∧ 0 ≤ r.height ∧ r.y + r.height ≤ h) :
    sizes.roi (w, h, c) r = .ok (r.width, r.height, c) := if_pos hr

theorem sizes_resize {w' h' : Int} (hr : 0 < w' ∧ 0 < h') :
    sizes.resize (w, h, c) w' h' = .ok (w', h', c) := if_pos hr

end OpenCV

theorem sizes_rotatesDegrees : RotatesDegrees OpenCV.sizes := fun _ _ => rfl

section Tilted

/-- Two eyes a hundred pixels apart, tilted by sixteen degrees. -/
noncomputable def tiltedL : Point2f := ⟨452, 486⟩
noncomputable def tiltedR : Point2f := ⟨548, 514⟩

theorem tilted_ne : tiltedL ≠ tiltedR := by
  intro h
  have hx := congrArg Point2f.x h
  norm_num [tiltedL, tiltedR] at hx

theorem tilted_distance : eyeDistance tiltedL tiltedR = 100 := by
  rw [eyeDistance, Real.sqrt_eq_iff_mul_self_eq (by norm_num [tiltedL, tiltedR]) (by norm_num)]
  norm_num [tiltedL, tiltedR]

theorem tilted_extent : (0 : ℝ) < (300 : Int) * 0.4 := by norm_num

theorem tilted_searchOrigin : searchOrigin tiltedL tiltedR = ⟨300, 300⟩ := by
  rw [searchOrigin, tilted_distance]
  norm_num [searchStart, eyeCenter, tiltedL, tiltedR]

theorem tilted_faceArea : faceArea tiltedL tiltedR 1000 1000 = ⟨300, 300, 400, 400⟩ := by
  rw [faceArea, tilted_distance, tilted_searchOrigin]
  norm_num [cropExtent]

theorem tilted_scale : cropScale tiltedL tiltedR 300 0.4 = 1.2 := by
  rw [cropScale, tilted_distance]
  norm_num

theorem tilted_padding : padding tiltedL tiltedR 300 0.4 = ⟨48, 48⟩ := by
  rw [padding, scaledEyes, tilted_searchOrigin, tilted_scale]
  norm_num [Tracked.scaled, Tracked.offset, eyeCenter, tiltedL, tiltedR, tscale]

theorem tilted_track : (track tiltedL tiltedR 300 0.4).eyelocL = ⟨230.4, 271.2⟩ := by
  rw [track, tilted_padding, scaledEyes, tilted_searchOrigin, tilted_scale]
  norm_num [Tracked.padded, Tracked.scaled, Tracked.offset, tiltedL]

theorem tilted_center : (track tiltedL tiltedR 300 0.4).eCenter = ⟨288, 288⟩ := by
  rw [track, tilted_padding, scaledEyes, tilted_searchOrigin, tilted_scale]
  norm_num [Tracked.padded, Tracked.scaled, Tracked.offset, eyeCenter, tiltedL, tiltedR]

theorem tilted_window : windowX tiltedL tiltedR 300 0.4 = 140 ∧
    windowY tiltedL tiltedR 300 300 0.4 0.38 = 157 := by
  rw [windowX, windowY, tilted_track, Int.floor_eq_iff, Int.floor_eq_iff]
  norm_num

theorem tilted_cropped :
    (cropFaceImagebyEYE OpenCV.sizes (1000, 1000, 3) tiltedL tiltedR 300 300 0.4 0.38).result =
      .ok (300, 300, 3) := by
  have harea : OpenCV.sizes.roi (1000, 1000, 3) (faceArea tiltedL tiltedR 1000 1000) =
      .ok (400, 400, 3) := by
    rw [tilted_faceArea]
    exact OpenCV.sizes_roi _ _ _ _ (by decide)
  have hcolour : toColour OpenCV.sizes (400, 400, 3) = .ok (some (400, 400, 3)) := by
    rw [toColour, OpenCV.sizes_channels, if_pos rfl, OpenCV.sizes_clone]
  have hscaled : scaleFace OpenCV.sizes tiltedL tiltedR 300 0.4 (400, 400, 3) = .ok (480, 480, 3) := by
    have hfloor : ⌊((400 : Int) : ℝ) * 1.2⌋ = 480 := by norm_num
    rw [scaleFace, tilted_scale, OpenCV.sizes_cols, OpenCV.sizes_rows, hfloor]
    exact OpenCV.sizes_resize _ _ _ (by decide)
  have hpadded : padFace OpenCV.sizes tiltedL tiltedR 300 0.4 (400, 400, 3) (480, 480, 3) =
      .ok (576, 576, 3) := by
    have hfloor : ⌊((400 : Int) : ℝ) * 1.2⌋ = 480 := by norm_num
    have hfloor' : ⌊((480 : Int) : ℝ) * tscale⌋ = 576 := by norm_num [tscale]
    have htrect : trect tiltedL tiltedR 300 0.4 480 480 = ⟨48, 48, 480, 480⟩ := by
      rw [trect, tilted_padding, toInt_ofNat]
    rw [padFace, tilted_scale]
    simp only [OpenCV.sizes_cols, OpenCV.sizes_rows, hfloor, hfloor', htrect]
    rw [OpenCV.sizes_resize _ _ _ (by decide), Except.ok_bind,
      OpenCV.sizes_roi _ _ _ _ (by decide), Except.ok_bind, OpenCV.sizes_copyTo]
  have hwindow : (cropWindow OpenCV.sizes tiltedL tiltedR 300 300 0.4 0.38 (576, 576, 3)).result =
      .ok (300, 300, 3) := by
    have hinside : windowOutside 140 157 300 300 576 576 = false := by decide
    rw [cropWindow, tilted_window.1, tilted_window.2, OpenCV.sizes_cols, OpenCV.sizes_rows, hinside,
      if_neg Bool.false_ne_true, OpenCV.sizes_roi _ _ _ _ (by decide)]
    rfl
  simp only [cropFaceImagebyEYE, OpenCV.sizes_cols, OpenCV.sizes_rows, harea, hcolour, hscaled, hpadded,
    Printing.quiet_ok_bind]
  exact hwindow

/-- The crop comes out, with both eyes more than sixteen pixels too low. -/
theorem tilted_eyes_misplaced :
    RotatesDegrees OpenCV.sizes ∧ tiltedL ≠ tiltedR ∧
      (∃ img, (cropFaceImagebyEYE OpenCV.sizes (1000, 1000, 3) tiltedL tiltedR 300 300 0.4 0.38).result =
        .ok img ∧ img ≠ OpenCV.sizes.empty) ∧
      ¬ EyesPlaced OpenCV.sizes tiltedL tiltedR 300 300 0.4 0.38 := by
  refine ⟨sizes_rotatesDegrees, tilted_ne, ⟨_, tilted_cropped, by decide⟩, fun h => ?_⟩
  obtain ⟨-, hy⟩ := (eyesPlaced_offset sizes_rotatesDegrees tilted_ne tilted_extent).mp h
  obtain ⟨-, hy⟩ := (abs_sub_floor_le_iff _ _).mp hy
  have hfract := Int.fract_nonneg (cornerY tiltedL tiltedR 300 300 0.4 0.38)
  have hsin : (tiltedR.y - tiltedL.y) / eyeDistance tiltedL tiltedR = 0.28 := by
    rw [tilted_distance]
    norm_num [tiltedL, tiltedR]
  rw [hsin] at hy
  generalize Int.fract (cornerY tiltedL tiltedR 300 300 0.4 0.38) = f at hy hfract
  norm_num at hy
  linarith

/-- After the rotation the tilted eyes are level, 120 pixels apart. -/
theorem tilted_levelled :
    rotateMat OpenCV.sizes tiltedL tiltedR 300 0.4 * eye2cvMat (track tiltedL tiltedR 300 0.4).eyelocL
      (track tiltedL tiltedR 300 0.4).eyelocR = !![228, 348; 288, 288] := by
  refine (rotateMat_levels sizes_rotatesDegrees tilted_ne tilted_extent.le).trans ?_
  rw [tilted_center]
  norm_num

end Tilted

theorem nearlyLevel_of_level {eyelocL eyelocR : Point2f} (hx : eyelocL.x < eyelocR.x)
    (hy : eyelocL.y = eyelocR.y) (cropWidth cropHeight : Int) (feyewidRatio feyehLevel : ℝ) :
    NearlyLevel eyelocL eyelocR cropWidth cropHeight feyewidRatio feyehLevel := by
  have hlen : eyeDistance eyelocL eyelocR = eyelocR.x - eyelocL.x := by
    rw [eyeDistance_eq, hy, sub_self, mul_zero, add_zero, Real.sqrt_mul_self (by linarith)]
  have hcos : (eyelocR.x - eyelocL.x) / eyeDistance eyelocL eyelocR = 1 := by
    rw [hlen, div_self (by linarith)]
  have hsin : (eyelocR.y - eyelocL.y) / eyeDistance eyelocL eyelocR = 0 := by
    rw [hy, sub_self, zero_div]
  have hu := Int.fract_nonneg (cornerX eyelocL eyelocR cropWidth feyewidRatio)
  have hv := Int.fract_nonneg (cornerY eyelocL eyelocR cropWidth cropHeight feyewidRatio feyehLevel)
  have hv' := Int.fract_lt_one (cornerY eyelocL eyelocR cropWidth cropHeight feyewidRatio feyehLevel)
  constructor
  · rw [hcos, sub_self, mul_zero]
    linarith
  · rw [hsin, mul_zero]
    linarith
  · rw [hsin, mul_zero]
    linarith

/-- Level eyes are placed. -/
theorem level_eyes_placed : EyesPlaced OpenCV.sizes ⟨450, 500⟩ ⟨550, 500⟩ 300 300 0.4 0.38 := by
  have hne : (⟨450, 500⟩ : Point2f) ≠ ⟨550, 500⟩ := by
    intro h
    have hx := congrArg Point2f.x h
    norm_num at hx
  exact (eyesPlaced_iff sizes_rotatesDegrees hne (by norm_num)).mpr
    (nearlyLevel_of_level (by norm_num) (by norm_num) _ _ _ _)

end FaceRecognition
