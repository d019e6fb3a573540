import FaceRecognition.CropRegions

/-! Eyes that are far enough from every border of the image: the whole crop goes through and
returns an image of the size that was asked for, at any tilt of the head. -/
namespace FaceRecognition
open CppString

/-! ### Sizes of images -/

/-- What OpenCV documents of the sizes of its results; a region inside the image and a positive
target size pass the assertions. -/
structure OpenCV.Sized {Mat : Type*} (cv : OpenCV Mat) : Prop where
  roi : ∀ m (r : Rect), r.Inside (cv.cols m) (cv.rows m) → 0 < r.width → 0 < r.height →
    ∃ t, cv.roi m r = .ok t ∧ cv.cols t = r.width ∧ cv.rows t = r.height ∧ cv.channels t = cv.channels m
  clone : ∀ m, cv.cols (cv.clone m) = cv.cols m ∧ cv.rows (cv.clone m) = cv.rows m
  resize : ∀ m w h, 0 < cv.cols m → 0 < cv.rows m → 0 < w → 0 < h →
    ∃ t, cv.resize m w h = .ok t ∧ cv.cols t = w ∧ cv.rows t = h
  copyTo : ∀ m r s, cv.cols (cv.copyTo m r s) = cv.cols m ∧ cv.rows (cv.copyTo m r s) = cv.rows m
  warpAffine : ∀ m a w h f, cv.cols (cv.warpAffine m a w h f) = w ∧ cv.rows (cv.warpAffine m a w h f) = h
  empty : cv.cols cv.empty = 0

theorem sizes_sized : OpenCV.sizes.Sized where
  roi _ _ h hw hh := ⟨_, if_pos ⟨h.left, hw.le, h.right, h.top, hh.le, h.bottom⟩, rfl, rfl, rfl⟩
  clone _ := ⟨rfl, rfl⟩
  resize _ _ _ _ _ hw hh := ⟨_, if_pos ⟨hw, hh⟩, rfl, rfl⟩
  copyTo _ _ _ := ⟨rfl, rfl⟩
  warpAffine _ _ _ _ _ := ⟨rfl, rfl⟩
  empty := rfl

section Pipeline
variable {Mat : Type*} {cv : OpenCV Mat} {inIm : Mat} {eyelocL eyelocR : Point2f}
  {cropWidth cropHeight : Int} {feyewidRatio feyehLevel : ℝ}

/-- With valid regions nothing throws before the window is cut. -/
theorem crop_of_regionsValid (hcv : cv.Sized) (hch : cv.channels inIm = 3)
    (h : RegionsValid eyelocL eyelocR cropWidth feyewidRatio (cv.cols inIm) (cv.rows inIm))
    (cropHeight : Int) (feyehLevel : ℝ) :
    let size := paddedSize eyelocL eyelocR cropWidth feyewidRatio (cv.cols inIm) (cv.rows inIm)
    ∃ rotateImg, cv.cols rotateImg = size.width ∧ cv.rows rotateImg = size.height ∧
      cropFaceImagebyEYE cv inIm eyelocL eyelocR cropWidth cropHeight feyewidRatio feyehLevel =
        cropWindow cv eyelocL eyelocR cropWidth cropHeight feyewidRatio feyehLevel rotateImg := by
  intro size
  obtain ⟨tim, htim, htc, htr, htch⟩ := hcv.roi inIm _ h.face_inside h.face_width h.face_height
  obtain ⟨hgc, hgr⟩ := hcv.clone tim
  have hcolour : toColour cv tim = .ok (some (cv.clone tim)) := by
    rw [toColour, if_pos (htch.trans hch)]
  rw [htc] at hgc
  rw [htr] at hgr
  obtain ⟨sImg0, hs, hsc, hsr⟩ := hcv.resize (cv.clone tim) _ _ (hgc ▸ h.face_width)
    (hgr ▸ h.face_height) h.scaled_width h.scaled_height
  have hscale : scaleFace cv eyelocL eyelocR cropWidth feyewidRatio (cv.clone tim) = .ok sImg0 := by
    rw [scaleFace, hgc, hgr]
    exact hs
  obtain ⟨big, hb, hbc, hbr⟩ := hcv.resize sImg0 _ _ (hsc ▸ h.scaled_width) (hsr ▸ h.scaled_height)
    h.padded_width h.padded_height
  have hpaste := h.paste_inside
  rw [← hbc, ← hbr] at hpaste
  obtain ⟨part, hpart, -⟩ := hcv.roi big _ hpaste h.scaled_width h.scaled_height
  have hpad : padFace cv eyelocL eyelocR cropWidth feyewidRatio (cv.clone tim) sImg0 =
      .ok (cv.copyTo big (pasteArea eyelocL eyelocR cropWidth feyewidRatio (cv.cols inIm) (cv.rows inIm))
        sImg0) := by
    rw [padFace, hgc, hgr, hsc, hsr]
    change (cv.resize sImg0 size.width size.height).bind _ = _
    rw [hb, Except.ok_bind]
    change (cv.roi big (pasteArea eyelocL eyelocR cropWidth feyewidRatio (cv.cols inIm)
      (cv.rows inIm))).bind _ = _
    rw [hpart, Except.ok_bind]
    rfl
  obtain ⟨hcc, hcr⟩ := hcv.copyTo big
    (pasteArea eyelocL eyelocR cropWidth feyewidRatio (cv.cols inIm) (cv.rows inIm)) sImg0
  obtain ⟨hwc, hwr⟩ := hcv.warpAffine
    (cv.copyTo big (pasteArea eyelocL eyelocR cropWidth feyewidRatio (cv.cols inIm) (cv.rows inIm)) sImg0)
    (rotateMat cv eyelocL eyelocR cropWidth feyewidRatio) size.width size.height 2
  refine ⟨_, hwc, hwr, ?_⟩
  simp only [cropFaceImagebyEYE, htim, hcolour, hscale, hpad, Printing.quiet_ok_bind, hcc, hcr, hbc, hbr]
  rfl

/-- A window inside the image is cut out silently. -/
theorem cropWindow_of_inside (hcv : cv.Sized) (rotateImg : Mat) (hw : 0 < cropWidth) (hh : 0 < cropHeight)
    (h : windowOutside (windowX eyelocL eyelocR cropWidth feyewidRatio)
      (windowY eyelocL eyelocR cropWidth cropHeight feyewidRatio feyehLevel) cropWidth cropHeight
      (cv.cols rotateImg) (cv.rows rotateImg) = false) :
    ∃ img, cropWindow cv eyelocL eyelocR cropWidth cropHeight feyewidRatio feyehLevel rotateImg =
      ⟨[], .ok img⟩ ∧ cv.cols img = cropWidth ∧ cv.rows img = cropHeight := by
  have hinside := h
  simp only [windowOutside, Bool.or_eq_false_iff, decide_eq_false_iff_not, not_lt] at hinside
  obtain ⟨⟨⟨hx, hy⟩, hr⟩, hb⟩ := hinside
  obtain ⟨temp, ht, htc, htr, -⟩ := hcv.roi rotateImg
    ⟨windowX eyelocL eyelocR cropWidth feyewidRatio,
      windowY eyelocL eyelocR cropWidth cropHeight feyewidRatio feyehLevel, cropWidth, cropHeight⟩
    ⟨hx, by simpa using hr, hy, by simpa using hb⟩ hw hh
  obtain ⟨hcc, hcr⟩ := hcv.clone temp
  refine ⟨cv.clone temp, ?_, hcc.trans htc, hcr.trans htr⟩
  simp only [cropWindow, h, Bool.false_eq_true, if_false, ht]
  rfl

end Pipeline

/-! ### Well inside the image -/

section WellInside
variable {eyelocL eyelocR : Point2f} {cols rows : Int}

/-- The eye centre is two eye distances or more away from every border. -/
structure WellInside (eyelocL eyelocR : Point2f) (cols rows : Int) : Prop where
  left : 2 * eyeDistance eyelocL eyelocR ≤ (eyeCenter eyelocL eyelocR).x
  top : 2 * eyeDistance eyelocL eyelocR ≤ (eyeCenter eyelocL eyelocR).y
  right : (eyeCenter eyelocL eyelocR).x + 2 * eyeDistance eyelocL eyelocR ≤ cols
  bottom : (eyeCenter eyelocL eyelocR).y + 2 * eyeDistance eyelocL eyelocR ≤ rows

/-- On either axis the whole area of four eye distances is cut out, and what is lost by truncating
it and by rounding down after scaling leaves 558 pixels. -/
theorem axis_wellInside {c len : ℝ} {n : Int} (hlen : 8 ≤ len) (hc : 2 * len ≤ c) (hcn : c + 2 * len ≤ n) :
    AxisValid c (searchStart c (len * 4)) (len * 4) (120 / len) n ∧
      558 ≤ paddedLength (scaledLength (cutLength (searchStart c (len * 4)) (len * 4) n) (120 / len)) := by
  have hlen0 : 0 < len := by linarith
  have hn : 2 ≤ n := by
    have hr : (2 : ℝ) ≤ n := by linarith
    exact_mod_cast hr
  have hcut : cutLength (searchStart c (len * 4)) (len * 4) n = ⌊len * 4⌋ := by
    refine cutLength_of_room (by linarith) ?_
    rw [searchStart_of_ge hc]
    linarith
  have hscaled : 465 ≤ scaledLength ⌊len * 4⌋ (120 / len) := by
    have hfloor := Int.sub_one_lt_floor (len * 4)
    rw [scaledLength, Int.le_floor, mul_div_assoc', le_div_iff₀ hlen0]
    push_cast
    linarith
  constructor
  · refine (axisValid_iff hn (by linarith) (by linarith) (by linarith)).mpr ⟨?_, .inr (.inl ?_)⟩ <;>
      linarith
  · have hpad := (paste_end_iff 93 (scaledLength ⌊len * 4⌋ (120 / len))).mpr (by omega)
    rw [hcut]
    omega

theorem regionsValid_wellInside (hlen : 8 ≤ eyeDistance eyelocL eyelocR)
    (h : WellInside eyelocL eyelocR cols rows) : RegionsValid eyelocL eyelocR 300 0.4 cols rows := by
  rw [regionsValid_iff_axes, cropScale_300]
  exact ⟨(axis_wellInside hlen h.left h.right).1, (axis_wellInside hlen h.top h.bottom).1⟩

theorem paddedSize_wellInside (hlen : 8 ≤ eyeDistance eyelocL eyelocR)
    (h : WellInside eyelocL eyelocR cols rows) :
    558 ≤ (paddedSize eyelocL eyelocR 300 0.4 cols rows).width ∧
      558 ≤ (paddedSize eyelocL eyelocR 300 0.4 cols rows).height := by
  simp only [paddedSize, scaledSize, cropScale_300]
  exact ⟨(axis_wellInside hlen h.left h.right).2, (axis_wellInside hlen h.top h.bottom).2⟩

/-- The tracked centre of a face that is cut out whole. -/
theorem track_center_wellInside (hlen : 0 < eyeDistance eyelocL eyelocR)
    (h : WellInside eyelocL eyelocR cols rows) :
    (track eyelocL eyelocR 300 0.4).eCenter = ⟨288, 288⟩ := by
  have hx := center_sub_searchStart (eyeCenter eyelocL eyelocR).x (eyeDistance eyelocL eyelocR)
  have hy := center_sub_searchStart (eyeCenter eyelocL eyelocR).y (eyeDistance eyelocL eyelocR)
  rw [min_eq_right (by linarith [h.left])] at hx
  rw [min_eq_right (by linarith [h.top])] at hy
  simp only [track, scaledEyes, padding, Tracked.padded, Tracked.scaled, Tracked.offset, searchOrigin,
    cropScale_300, hx, hy, tscale, Point2f.mk.injEq]
  constructor <;> field_simp <;> norm_num

/-- After scaling either eye is 60 pixels away from the centre, whatever the direction. -/
theorem abs_half_line_le (hlen : 0 < eyeDistance eyelocL eyelocR) {v : ℝ}
    (hv : |v| ≤ eyeDistance eyelocL eyelocR) : |cropScale eyelocL eyelocR 300 0.4 * v / 2| ≤ 60 := by
  have hscale : |cropScale eyelocL eyelocR 300 0.4 * v / 2| = 60 * (|v| / eyeDistance eyelocL eyelocR) := by
    rw [cropScale_300, abs_div, abs_mul, abs_div, abs_of_pos hlen]
    norm_num
    ring
  have hone : |v| / eyeDistance eyelocL eyelocR ≤ 1 := (div_le_one hlen).mpr hv
  rw [hscale]
  linarith

theorem window_wellInside (hlen : 0 < eyeDistance eyelocL eyelocR)
    (h : WellInside eyelocL eyelocR cols rows) :
    (138 ≤ windowX eyelocL eyelocR 300 0.4 ∧ windowX eyelocL eyelocR 300 0.4 ≤ 258) ∧
      114 ≤ windowY eyelocL eyelocR 300 300 0.4 0.38 ∧ windowY eyelocL eyelocR 300 300 0.4 0.38 ≤ 234 := by
  obtain ⟨hlx, hly⟩ := abs_line_le eyelocL eyelocR
  obtain ⟨hx1, hx2⟩ := abs_le.mp (abs_half_line_le hlen hlx)
  obtain ⟨hy1, hy2⟩ := abs_le.mp (abs_half_line_le hlen hly)
  rw [windowX, windowY, track_eyelocL, track_center_wellInside hlen h]
  refine ⟨⟨Int.le_floor.mpr ?_, Int.lt_add_one_iff.mp (Int.floor_lt.mpr ?_)⟩, Int.le_floor.mpr ?_,
    Int.lt_add_one_iff.mp (Int.floor_lt.mpr ?_)⟩ <;> push_cast <;> linarith

/-- A face well inside the picture is always cropped, at any tilt of the head. -/
theorem wellInside_cropped {Mat : Type*} {cv : OpenCV Mat} (hcv : cv.Sized) {inIm : Mat}
    (hch : cv.channels inIm = 3) (hlen : 8 ≤ eyeDistance eyelocL eyelocR)
    (h : WellInside eyelocL eyelocR (cv.cols inIm) (cv.rows inIm)) :
    let size := paddedSize eyelocL eyelocR 300 0.4 (cv.cols inIm) (cv.rows inIm)
    RegionsValid eyelocL eyelocR 300 0.4 (cv.cols inIm) (cv.rows inIm) ∧
      windowOutside (windowX eyelocL eyelocR 300 0.4) (windowY eyelocL eyelocR 300 300 0.4 0.38) 300 300
        size.width size.height = false ∧
      ∃ img, cropFaceImagebyEYE cv inIm eyelocL eyelocR 300 300 0.4 0.38 = ⟨[], .ok img⟩ ∧
        cv.cols img = 300 ∧ cv.rows img = 300 ∧ img ≠ cv.empty := by
  intro size
  have hregions := regionsValid_wellInside hlen h
  have hsize : 558 ≤ size.width ∧ 558 ≤ size.height := paddedSize_wellInside hlen h
  obtain ⟨⟨hx1, hx2⟩, hy1, hy2⟩ := window_wellInside (by linarith) h
  have hwindow : windowOutside (windowX eyelocL eyelocR 300 0.4)
      (windowY eyelocL eyelocR 300 300 0.4 0.38) 300 300 size.width size.height = false := by
    simp only [windowOutside, Bool.or_eq_false_iff, decide_eq_false_iff_not]
    refine ⟨⟨⟨?_, ?_⟩, ?_⟩, ?_⟩ <;> omega
  obtain ⟨rotateImg, hcols, hrows, hcrop⟩ := crop_of_regionsValid hcv hch hregions 300 0.38
  have hinside : windowOutside (windowX eyelocL eyelocR 300 0.4)
      (windowY eyelocL eyelocR 300 300 0.4 0.38) 300 300 (cv.cols rotateImg) (cv.rows rotateImg) =
        false := by
    rw [hcols, hrows]
    exact hwindow
  obtain ⟨img, hout, hic, hir⟩ := cropWindow_of_inside hcv rotateImg (by norm_num) (by norm_num) hinside
  refine ⟨hregions, hwindow, img, hcrop.trans hout, hic, hir, ?_⟩
  rintro rfl
  rw [hcv.empty] at hic
  norm_num at hic

theorem tilted_wellInside : WellInside tiltedL tiltedR 1000 1000 := by
  constructor <;> rw [tilted_distance] <;> norm_num [eyeCenter, tiltedL, tiltedR]

/-- Two eyes tilted by sixteen degrees in the middle of a large image. -/
theorem tilted_wellInside_cropped :
    ∃ img, cropFaceImagebyEYE OpenCV.sizes (1000, 1000, 3) tiltedL tiltedR 300 300 0.4 0.38 = ⟨[], .ok img⟩ ∧
      OpenCV.sizes.cols img = 300 ∧ OpenCV.sizes.rows img = 300 ∧ img ≠ OpenCV.sizes.empty :=
  (wellInside_cropped sizes_sized (OpenCV.sizes_channels 1000 1000 3)
    (by rw [tilted_distance]; norm_num) tilted_wellInside).2.2

end WellInside

end FaceRecognition
