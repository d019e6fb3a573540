import FaceRecognition.EyePlacement

/-! The regions that the crop cuts out and pastes into, one axis at a time: a coordinate of
the face area, its length after truncation, the length after scaling, the length after
padding and the place where the scaled face is pasted. -/
namespace FaceRecognition
open CppString

/-! ### One axis -/

section Axis

theorem toInt_of_nonneg {v : ℝ} (h : 0 ≤ v) : toInt v = ⌊v⌋ := if_pos h

/-- `oWidth` or `oHeight`. -/
noncomputable def cutLength (start tCrop : ℝ) (size : Int) : Int := toInt (cropExtent start tCrop size)

/-- `nWidth` or `nHeight`. -/
noncomputable def scaledLength (o : Int) (scale : ℝ) : Int := ⌊o * scale⌋

/-- A side of `rotateImg`. -/
noncomputable def paddedLength (n : Int) : Int := ⌊n * tscale⌋

/-- `dx` or `dy`, from the eye centre in the face area. -/
noncomputable def padOffset (center scale : ℝ) : ℝ := center * scale * tscale - center * scale

/-- Along one axis: the cut is not empty and inside the image, the resize targets are positive and
the pasted face is inside the padded image. -/
structure AxisValid (center start tCrop scale : ℝ) (size : Int) : Prop where
  cut_pos : 0 < cutLength start tCrop size
  cut_start : 0 ≤ toInt start
  cut_end : toInt start + cutLength start tCrop size ≤ size
  scaled_pos : 0 < scaledLength (cutLength start tCrop size) scale
  padded_pos : 0 < paddedLength (scaledLength (cutLength start tCrop size) scale)
  paste_start : 0 ≤ toInt (padOffset (center - start) scale)
  paste_end : toInt (padOffset (center - start) scale) + scaledLength (cutLength start tCrop size) scale ≤
    paddedLength (scaledLength (cutLength start tCrop size) scale)

variable {c len : ℝ} {n : Int}

theorem searchStart_nonneg (c t : ℝ) : 0 ≤ searchStart c t := by
  rw [searchStart]
  split
  next => exact le_refl 0
  next h => exact not_lt.mp h

theorem searchStart_of_le (h : c ≤ 2 * len) : searchStart c (len * 4) = 0 := by
  rw [searchStart]
  split
  next => rfl
  next hlt => linarith

theorem searchStart_of_ge (h : 2 * len ≤ c) : searchStart c (len * 4) = c - 2 * len := by
  rw [searchStart, if_neg (by linarith)]
  ring

/-- The face area before truncation ends before the image does. -/
theorem start_add_cropExtent_lt (start t : ℝ) (n : Int) : start + cropExtent start t n < n + 1 := by
  rw [cropExtent]
  split
  next => linarith
  next h => linarith [not_le.mp h]

theorem cutLength_of_room {start t : ℝ} (ht : 0 ≤ t) (h : start + t - 1 < n) :
    cutLength start t n = ⌊t⌋ := by
  rw [cutLength, cropExtent, if_neg (not_le.mpr h), toInt_of_nonneg ht]

theorem cutLength_of_clamped {start t : ℝ} (hs : start ≤ n - 1) (h : (n : ℝ) ≤ start + t - 1) :
    cutLength start t n = ⌊(n : ℝ) - start - 1⌋ := by
  rw [cutLength, cropExtent, if_pos h, toInt_of_nonneg (by linarith)]

/-- The padding is a fifth of the scaled length or more exactly when the face fits. -/
theorem paste_end_iff (p N : Int) : p + N ≤ paddedLength N ↔ 5 * p ≤ N := by
  rw [paddedLength, Int.le_floor, tscale]
  constructor
  · intro h
    have hr : (5 : ℝ) * p ≤ N := by
      push_cast at h
      linarith
    exact_mod_cast hr
  · intro h
    have hr : (5 : ℝ) * p ≤ N := by exact_mod_cast h
    push_cast
    linarith

theorem padOffset_eq (m len : ℝ) : padOffset m (120 / len) = 24 * (m / len) := by
  rw [padOffset, tscale]
  ring

theorem paddedLength_pos {N : Int} (h : 0 < N) : 0 < paddedLength N := by
  have hfit : 0 + N ≤ paddedLength N := (paste_end_iff 0 N).mpr (by omega)
  omega

theorem scaledLength_pos_iff (hlen : 0 < len) (o : Int) :
    0 < scaledLength o (120 / len) ↔ len ≤ 120 * o := by
  rw [scaledLength, Int.floor_pos, mul_div_assoc', le_div_iff₀ hlen]
  constructor <;> intro h <;> linarith

theorem paste_iff (hlen : 0 < len) {m : ℝ} (hm : 0 ≤ m) (o : Int) :
    toInt (padOffset m (120 / len)) + scaledLength o (120 / len) ≤
        paddedLength (scaledLength o (120 / len)) ↔ ⌊24 * (m / len)⌋ * len ≤ 24 * o := by
  have hpad : 0 ≤ 24 * (m / len) := by positivity
  rw [paste_end_iff, padOffset_eq, toInt_of_nonneg hpad, scaledLength, Int.le_floor,
    mul_div_assoc' (o : ℝ) 120 len, le_div_iff₀ hlen]
  push_cast
  constructor <;> intro h <;> linarith

/-- A centre near the border of the image is pasted inside when the cut reaches it. -/
theorem paste_of_le (hlen : 0 < len) {m : ℝ} (hm : 0 ≤ m) {o : Int} (h : m ≤ o) :
    toInt (padOffset m (120 / len)) + scaledLength o (120 / len) ≤
      paddedLength (scaledLength o (120 / len)) := by
  refine (paste_iff hlen hm o).mpr ?_
  calc (⌊24 * (m / len)⌋ : ℝ) * len ≤ 24 * (m / len) * len :=
        mul_le_mul_of_nonneg_right (Int.floor_le _) hlen.le
    _ = 24 * m := by rw [mul_assoc, div_mul_cancel₀ m hlen.ne']
    _ ≤ 24 * o := by linarith

/-- Away from the border the padding is 48 pixels, so the cut has to reach the centre exactly. -/
theorem paste_far_iff (hlen : 0 < len) (o : Int) :
    toInt (padOffset (2 * len) (120 / len)) + scaledLength o (120 / len) ≤
      paddedLength (scaledLength o (120 / len)) ↔ 2 * len ≤ o := by
  have hfloor : ⌊24 * (2 * len / len)⌋ = 48 := by
    rw [mul_div_assoc, div_self hlen.ne']
    norm_num
  rw [paste_iff hlen (by linarith), hfloor]
  push_cast
  constructor <;> intro h <;> linarith

/-- When the face fits on an axis: the eyes are not too far apart for the image, and unless the
area reaches the near border or ends before the far one, the centre keeps from the far border
what `2 * len` lacks to a whole number of pixels. -/
structure AxisFits (c len : ℝ) (n : Int) : Prop where
  wide : len ≤ 120 * (n - 1)
  room : c ≤ 2 * len ∨ c + 2 * len - 1 < n ∨ c + (⌈2 * len⌉ - 2 * len) ≤ n - 1

/-- How long the cut is in the four positions of the face area. -/
theorem cutLength_cases (hn : 2 ≤ n) (hlen : 1 ≤ len) (hcn : c ≤ n - 1) :
    (searchStart c (len * 4) + len * 4 - 1 < n ∧ cutLength (searchStart c (len * 4)) (len * 4) n = ⌊len * 4⌋) ∨
    ((n : ℝ) ≤ searchStart c (len * 4) + len * 4 - 1 ∧ c ≤ 2 * len ∧
      cutLength (searchStart c (len * 4)) (len * 4) n = n - 1) ∨
    ((n : ℝ) ≤ searchStart c (len * 4) + len * 4 - 1 ∧ 2 * len < c ∧
      cutLength (searchStart c (len * 4)) (len * 4) n = ⌊(n : ℝ) - 1 - c + 2 * len⌋) := by
  by_cases hroom : searchStart c (len * 4) + len * 4 - 1 < n
  · exact .inl ⟨hroom, cutLength_of_room (by linarith) hroom⟩
  · have hn' : (2 : ℝ) ≤ n := by exact_mod_cast hn
    right
    rcases le_or_gt c (2 * len) with hc | hc
    · refine .inl ⟨not_lt.mp hroom, hc, ?_⟩
      rw [searchStart_of_le hc] at hroom ⊢
      rw [cutLength_of_clamped (by linarith) (not_lt.mp hroom), Int.floor_eq_iff]
      push_cast
      constructor <;> linarith
    · refine .inr ⟨not_lt.mp hroom, hc, ?_⟩
      rw [searchStart_of_ge hc.le] at hroom ⊢
      rw [cutLength_of_clamped (by linarith) (not_lt.mp hroom)]
      congr 1
      ring

theorem searchStart_le (hn : 1 ≤ n) (hlen : 0 ≤ len) (hcn : c ≤ n - 1) :
    searchStart c (len * 4) ≤ n - 1 := by
  have hn' : (1 : ℝ) ≤ n := by exact_mod_cast hn
  rcases le_or_gt c (2 * len) with h | h
  · rw [searchStart_of_le h]
    linarith
  · rw [searchStart_of_ge h.le]
    linarith

theorem cropExtent_nonneg {start t : ℝ} (ht : 0 ≤ t) (hs : start ≤ n - 1) : 0 ≤ cropExtent start t n := by
  rw [cropExtent]
  split
  next => linarith
  next => exact ht

/-- Truncation keeps the cut inside the image. -/
theorem cut_end {start t : ℝ} (hs : 0 ≤ start) (he : 0 ≤ cropExtent start t n) :
    toInt start + cutLength start t n ≤ n := by
  have h1 := Int.floor_le start
  have h2 := Int.floor_le (cropExtent start t n)
  have hlt := start_add_cropExtent_lt start t n
  rw [cutLength, toInt_of_nonneg hs, toInt_of_nonneg he]
  refine Int.lt_add_one_iff.mp ?_
  have hr : (⌊start⌋ : ℝ) + ⌊cropExtent start t n⌋ < n + 1 := by linarith
  exact_mod_cast hr

/-- Only on an axis that is cut to the whole image can scaling leave less than a pixel. -/
theorem scaled_wide_iff (hn : 2 ≤ n) (hlen : 1 ≤ len) (hcn : c ≤ n - 1) :
    len ≤ 120 * cutLength (searchStart c (len * 4)) (len * 4) n ↔ len ≤ 120 * (n - 1) := by
  have hn' : (2 : ℝ) ≤ n := by exact_mod_cast hn
  have hstart := searchStart_nonneg c (len * 4)
  rcases cutLength_cases hn hlen hcn with ⟨hroom, ho⟩ | ⟨-, -, ho⟩ | ⟨-, hc, ho⟩
  · have hfloor := Int.sub_one_lt_floor (len * 4)
    rw [ho]
    constructor <;> intro _ <;> linarith
  · rw [ho]
    push_cast
    exact Iff.rfl
  · have hfloor := Int.sub_one_lt_floor ((n : ℝ) - 1 - c + 2 * len)
    rw [ho]
    constructor <;> intro _ <;> linarith

theorem paste_room_iff (hn : 2 ≤ n) (hlen : 1 ≤ len) (hc : 0 ≤ c) (hcn : c ≤ n - 1) :
    let start := searchStart c (len * 4)
    let o := cutLength start (len * 4) n
    toInt (padOffset (c - start) (120 / len)) + scaledLength o (120 / len) ≤
        paddedLength (scaledLength o (120 / len)) ↔
      c ≤ 2 * len ∨ c + 2 * len - 1 < n ∨ c + (⌈2 * len⌉ - 2 * len) ≤ n - 1 := by
  intro start o
  have hlen0 : 0 < len := by linarith
  have hfloor := Int.sub_one_lt_floor (len * 4)
  rcases le_or_gt c (2 * len) with hnear | hfar
  · -- the cut starts at the border and reaches the centre
    have hco : c ≤ o := by
      rcases cutLength_cases hn hlen hcn with ⟨-, ho⟩ | ⟨-, -, ho⟩ | ⟨-, hgt, -⟩
      · rw [show o = _ from ho]
        linarith
      · rw [show o = _ from ho]
        push_cast
        exact hcn
      · linarith
    have hstart : start = 0 := searchStart_of_le hnear
    rw [hstart, sub_zero]
    exact iff_of_true (paste_of_le hlen0 hc hco) (.inl hnear)
  · have hstart : start = c - 2 * len := searchStart_of_ge hfar.le
    have hm : c - start = 2 * len := by
      rw [hstart]
      ring
    rw [hm, paste_far_iff hlen0]
    rcases cutLength_cases hn hlen hcn with ⟨hroom, ho⟩ | ⟨-, hle, -⟩ | ⟨hclamp, -, ho⟩
    · rw [show o = _ from ho]
      rw [show searchStart c (len * 4) = _ from hstart] at hroom
      exact iff_of_true (by linarith) (.inr (.inl (by linarith)))
    · linarith
    · rw [show searchStart c (len * 4) = _ from hstart] at hclamp
      rw [show o = _ from ho, ← Int.ceil_le, Int.le_floor]
      constructor
      · intro h
        exact .inr (.inr (by linarith))
      · rintro (h | h | h) <;> linarith

theorem axisValid_iff (hn : 2 ≤ n) (hlen : 1 ≤ len) (hc : 0 ≤ c) (hcn : c ≤ n - 1) :
    AxisValid c (searchStart c (len * 4)) (len * 4) (120 / len) n ↔ AxisFits c len n := by
  have hlen0 : 0 < len := by linarith
  have hstart := searchStart_nonneg c (len * 4)
  have hwide := scaled_wide_iff hn hlen hcn
  have hpaste := paste_room_iff hn hlen hc hcn
  constructor
  · intro h
    exact ⟨hwide.mp ((scaledLength_pos_iff hlen0 _).mp h.scaled_pos), hpaste.mp h.paste_end⟩
  · intro h
    have hscaled := (scaledLength_pos_iff hlen0 _).mpr (hwide.mpr h.wide)
    have hextent := cropExtent_nonneg (by linarith : 0 ≤ len * 4) (searchStart_le (by omega) hlen0.le hcn)
    refine ⟨?_, ?_, cut_end hstart hextent, hscaled, paddedLength_pos hscaled, ?_, hpaste.mpr h.room⟩
    · have hpos : (0 : ℝ) < cutLength (searchStart c (len * 4)) (len * 4) n := by
        linarith [hwide.mpr h.wide]
      exact_mod_cast hpos
    · rw [toInt_of_nonneg hstart]
      exact Int.floor_nonneg.mpr hstart
    · have hm : 0 ≤ c - searchStart c (len * 4) := by
        rw [center_sub_searchStart]
        exact le_min hc (by linarith)
      have hpad : 0 ≤ padOffset (c - searchStart c (len * 4)) (120 / len) := by
        rw [padOffset_eq]
        positivity
      rw [toInt_of_nonneg hpad]
      exact Int.floor_nonneg.mpr hpad

end Axis

/-! ### Both axes -/

/-- `cv::Size`. -/
structure Size where
  width : Int
  height : Int

/-- What `Mat(m, roi)` asserts. -/
structure Rect.Inside (r : Rect) (cols rows : Int) : Prop where
  left : 0 ≤ r.x
  right : r.x + r.width ≤ cols
  top : 0 ≤ r.y
  bottom : r.y + r.height ≤ rows

section Regions
variable (eyelocL eyelocR : Point2f) (cropWidth : Int) (feyewidRatio : ℝ) (cols rows : Int)

/-- The size of `sImg0`. -/
noncomputable def scaledSize : Size :=
  let area := faceArea eyelocL eyelocR cols rows
  let scale := cropScale eyelocL eyelocR cropWidth feyewidRatio
  ⟨scaledLength area.width scale, scaledLength area.height scale⟩

/-- The size of `rotateImg`. -/
noncomputable def paddedSize : Size :=
  let s := scaledSize eyelocL eyelocR cropWidth feyewidRatio cols rows
  ⟨paddedLength s.width, paddedLength s.height⟩

noncomputable def pasteArea : Rect :=
  let s := scaledSize eyelocL eyelocR cropWidth feyewidRatio cols rows
  trect eyelocL eyelocR cropWidth feyewidRatio s.width s.height

/-- No assertion about a region or a size fails while the face is cut out, scaled and pasted. -/
structure RegionsValid : Prop where
  face_width : 0 < (faceArea eyelocL eyelocR cols rows).width
  face_height : 0 < (faceArea eyelocL eyelocR cols rows).height
  face_inside : (faceArea eyelocL eyelocR cols rows).Inside cols rows
  scaled_width : 0 < (scaledSize eyelocL eyelocR cropWidth feyewidRatio cols rows).width
  scaled_height : 0 < (scaledSize eyelocL eyelocR cropWidth feyewidRatio cols rows).height
  padded_width : 0 < (paddedSize eyelocL eyelocR cropWidth feyewidRatio cols rows).width
  padded_height : 0 < (paddedSize eyelocL eyelocR cropWidth feyewidRatio cols rows).height
  paste_inside : (pasteArea eyelocL eyelocR cropWidth feyewidRatio cols rows).Inside
    (paddedSize eyelocL eyelocR cropWidth feyewidRatio cols rows).width
    (paddedSize eyelocL eyelocR cropWidth feyewidRatio cols rows).height

/-- The point is a pixel position of the image. -/
structure Point2f.InImage (p : Point2f) (cols rows : Int) : Prop where
  x_nonneg : 0 ≤ p.x
  x_le : p.x ≤ cols - 1
  y_nonneg : 0 ≤ p.y
  y_le : p.y ≤ rows - 1

variable {eyelocL eyelocR cropWidth feyewidRatio cols rows}

/-- The two axes do not depend on each other. -/
theorem regionsValid_iff_axes : RegionsValid eyelocL eyelocR cropWidth feyewidRatio cols rows ↔
    AxisValid (eyeCenter eyelocL eyelocR).x (searchOrigin eyelocL eyelocR).x
      (eyeDistance eyelocL eyelocR * 4) (cropScale eyelocL eyelocR cropWidth feyewidRatio) cols ∧
    AxisValid (eyeCenter eyelocL eyelocR).y (searchOrigin eyelocL eyelocR).y
      (eyeDistance eyelocL eyelocR * 4) (cropScale eyelocL eyelocR cropWidth feyewidRatio) rows := by
  constructor
  · rintro ⟨hfw, hfh, hface, hsw, hsh, hpw, hph, hpaste⟩
    exact ⟨⟨hfw, hface.left, hface.right, hsw, hpw, hpaste.left, hpaste.right⟩,
      ⟨hfh, hface.top, hface.bottom, hsh, hph, hpaste.top, hpaste.bottom⟩⟩
  · rintro ⟨⟨hfw, hl, hr, hsw, hpw, hpl, hpr⟩, hfh, ht, hb, hsh, hph, hpt, hpb⟩
    exact ⟨hfw, hfh, ⟨hl, hr, ht, hb⟩, hsw, hsh, hpw, hph, ⟨hpl, hpr, hpt, hpb⟩⟩

theorem cropScale_300 (eyelocL eyelocR : Point2f) :
    cropScale eyelocL eyelocR 300 0.4 = 120 / eyeDistance eyelocL eyelocR := by
  rw [cropScale]
  norm_num

theorem abs_line_le (eyelocL eyelocR : Point2f) :
    |eyelocR.x - eyelocL.x| ≤ eyeDistance eyelocL eyelocR ∧
      |eyelocR.y - eyelocL.y| ≤ eyeDistance eyelocL eyelocR := by
  rw [eyeDistance_eq]
  refine ⟨Rotation.abs_le_norm _ _, ?_⟩
  rw [add_comm]
  exact Rotation.abs_le_norm _ _

theorem eyeCenter_inImage (hL : eyelocL.InImage cols rows) (hR : eyelocR.InImage cols rows) :
    (0 ≤ (eyeCenter eyelocL eyelocR).x ∧ (eyeCenter eyelocL eyelocR).x ≤ cols - 1) ∧
      0 ≤ (eyeCenter eyelocL eyelocR).y ∧ (eyeCenter eyelocL eyelocR).y ≤ rows - 1 := by
  have hx0 := add_nonneg hL.x_nonneg hR.x_nonneg
  have hy0 := add_nonneg hL.y_nonneg hR.y_nonneg
  have hx1 := add_le_add hL.x_le hR.x_le
  have hy1 := add_le_add hL.y_le hR.y_le
  simp only [eyeCenter]
  refine ⟨⟨?_, ?_⟩, ?_, ?_⟩ <;> linarith

/-- Exactly when no assertion fires for eyes inside the image, with the arguments that the main
of `crop` passes. -/
theorem regionsValid_iff (hcols : 2 ≤ cols) (hrows : 2 ≤ rows) (hL : eyelocL.InImage cols rows)
    (hR : eyelocR.InImage cols rows) (hlen : 1 ≤ eyeDistance eyelocL eyelocR) :
    RegionsValid eyelocL eyelocR 300 0.4 cols rows ↔
      AxisFits (eyeCenter eyelocL eyelocR).x (eyeDistance eyelocL eyelocR) cols ∧
      AxisFits (eyeCenter eyelocL eyelocR).y (eyeDistance eyelocL eyelocR) rows := by
  obtain ⟨⟨hx0, hx1⟩, hy0, hy1⟩ := eyeCenter_inImage hL hR
  rw [regionsValid_iff_axes, cropScale_300]
  exact and_congr (axisValid_iff hcols hlen hx0 hx1) (axisValid_iff hrows hlen hy0 hy1)

/-- Eyes well inside a large image. -/
theorem regionsValid_inside : RegionsValid ⟨450, 500⟩ ⟨550, 500⟩ 300 0.4 1000 1000 := by
  have hlen : eyeDistance ⟨450, 500⟩ ⟨550, 500⟩ = 100 := by
    rw [eyeDistance, Real.sqrt_eq_iff_mul_self_eq (by norm_num) (by norm_num)]
    norm_num
  refine (regionsValid_iff (by norm_num) (by norm_num) ?_ ?_ (by rw [hlen]; norm_num)).mpr ?_
  · constructor <;> norm_num
  · constructor <;> norm_num
  · rw [hlen]
    refine ⟨⟨by norm_num, .inr (.inl ?_)⟩, by norm_num, .inr (.inl ?_)⟩ <;> norm_num [eyeCenter]

/-- Eyes above each other in the last column: the padded image is too narrow for the face. -/
theorem last_column_not_valid :
    (⟨999, 500⟩ : Point2f).InImage 1000 1000 ∧ (⟨999, 3061 / 6⟩ : Point2f).InImage 1000 1000 ∧
      1 ≤ eyeDistance ⟨999, 500⟩ ⟨999, 3061 / 6⟩ ∧
      ¬ RegionsValid ⟨999, 500⟩ ⟨999, 3061 / 6⟩ 300 0.4 1000 1000 := by
  have hlen : eyeDistance ⟨999, 500⟩ ⟨999, 3061 / 6⟩ = 61 / 6 := by
    rw [eyeDistance, Real.sqrt_eq_iff_mul_self_eq (by norm_num) (by norm_num)]
    norm_num
  refine ⟨by constructor <;> norm_num, by constructor <;> norm_num, by rw [hlen]; norm_num, fun h => ?_⟩
  have haxis := (regionsValid_iff_axes.mp h).1
  have hx : (eyeCenter ⟨999, 500⟩ ⟨999, 3061 / 6⟩).x = 999 := by norm_num [eyeCenter]
  have hsp : (searchOrigin ⟨999, 500⟩ ⟨999, 3061 / 6⟩).x = searchStart 999 (61 / 6 * 4) := by
    rw [searchOrigin, hlen, hx]
  rw [hx, hsp, hlen, cropScale_300, hlen,
    axisValid_iff (by norm_num) (by norm_num) (by norm_num) (by norm_num)] at haxis
  have hceil : ⌈2 * (61 / 6 : ℝ)⌉ = 21 := by
    rw [Int.ceil_eq_iff]
    norm_num
  rcases haxis.room with h | h | h
  · norm_num at h
  · norm_num at h
  · rw [hceil] at h
    norm_num at h

end Regions

end FaceRecognition
