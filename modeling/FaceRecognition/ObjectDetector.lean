import FaceRecognition.BoxOverlap
import FaceRecognition.Library.Greedy
import Mathlib.Algebra.Order.Group.Defs
import Mathlib.Data.List.Flatten

/-! `dlib/image_processing/object_detector.h` with the scan of `scan_fhog_pyramid.h`: every filter
reports the places where its response reaches its threshold, and of the reports that overlap the most
confident one is kept. The differences to the threshold are exact. -/
namespace FaceRecognition

/-- `std::sort` from the highest rank down; it is free in the order of equal ranks. -/
structure SortDown {α D : Type*} [LE D] (rank : α → D) where
  sort : List α → List α
  perm : ∀ l, (sort l).Perm l
  sorted : ∀ l, (sort l).Pairwise fun a b => rank b ≤ rank a

/-- A sort that keeps the order of equal ranks. -/
def SortDown.stable {α D : Type*} [LinearOrder D] (rank : α → D) : SortDown rank where
  sort l := l.mergeSort fun a b => decide (rank b ≤ rank a)
  perm l := l.mergeSort_perm _
  sorted l := by
    have htrans (a b c : α) (hab : decide (rank b ≤ rank a) = true)
        (hbc : decide (rank c ≤ rank b) = true) : decide (rank c ≤ rank a) = true := by
      simpa using (of_decide_eq_true hbc).trans (of_decide_eq_true hab)
    have htotal (a b : α) : (decide (rank b ≤ rank a) || decide (rank a ≤ rank b)) = true := by
      simpa using le_total (rank b) (rank a)
    exact (List.pairwise_mergeSort htrans htotal l).imp of_decide_eq_true

/-- `rect_detection` -/
structure RectDetection (D : Type*) where
  detection_confidence : D
  weight_index : Nat
  rect : Rectangle
  deriving DecidableEq

/-- A detector with its weight vectors. `threshold` is the last entry of one; `responses` are the
saliencies of the image for it, over all levels of the pyramid, with the rectangle that each place
stands for. -/
structure ObjectDetector (Img W D : Type*) [LE D] where
  boxes_overlap : TestBoxOverlap D
  w : List W
  threshold : W → D
  responses : Img → W → List (D × Rectangle)
  sortPairs : SortDown fun r : D × Rectangle => r.1
  sortDetections : SortDown fun d : RectDetection D => d.detection_confidence

namespace ObjectDetector
variable {Img W D : Type*} [Field D] [LinearOrder D] (o : ObjectDetector Img W D)

/-- `scanner.detect` -/
def detect (img : Img) (w : W) (thresh : D) : List (D × Rectangle) :=
  o.sortPairs.sort ((o.responses img w).filter fun r => thresh ≤ r.1)

/-- The detections of the filter with index `i`. -/
def filterDetections (img : Img) (adjust_threshold : D) (w : W) (i : Nat) : List (RectDetection D) :=
  (o.detect img w (o.threshold w + adjust_threshold)).map fun d => ⟨d.1 - o.threshold w, i, d.2⟩

/-- `dets_accum` as it is filled. -/
def accumulated (img : Img) (adjust_threshold : D) : List (RectDetection D) :=
  o.w.zipIdx.flatMap fun (w, i) => o.filterDetections img adjust_threshold w i

/-- `dets_accum` as the suppression sees it. -/
def ranked (img : Img) (adjust_threshold : D) : List (RectDetection D) :=
  if 1 < o.w.length then o.sortDetections.sort (o.accumulated img adjust_threshold)
  else o.accumulated img adjust_threshold

def overlapsAnyBox (t : TestBoxOverlap D) (rects : List (RectDetection D)) (rect : Rectangle) : Bool :=
  rects.any fun r => t.test r.rect rect

/-- The loop that does the non-max suppression. -/
def suppressLoop (t : TestBoxOverlap D) : List (RectDetection D) → List (RectDetection D) →
    List (RectDetection D)
  | final_dets, [] => final_dets
  | final_dets, d :: dets =>
    if overlapsAnyBox t final_dets d.rect then suppressLoop t final_dets dets
    else suppressLoop t (final_dets ++ [d]) dets

/-- `operator()` -/
def detections (img : Img) (adjust_threshold : D) : List (RectDetection D) :=
  suppressLoop o.boxes_overlap [] (o.ranked img adjust_threshold)

/-! ### The accumulated detections -/

/-- A place where the response of the filter reaches its threshold. -/
def IsCandidate (img : Img) (adjust_threshold : D) (d : RectDetection D) : Prop :=
  ∃ w, o.w[d.weight_index]? = some w ∧
    (d.detection_confidence + o.threshold w, d.rect) ∈ o.responses img w ∧
    adjust_threshold ≤ d.detection_confidence

variable [IsStrictOrderedRing D] {o} {img : Img} {adjust_threshold : D} {d : RectDetection D}

theorem mem_filterDetections {w : W} {i : Nat} :
    d ∈ o.filterDetections img adjust_threshold w i ↔ d.weight_index = i ∧
      (d.detection_confidence + o.threshold w, d.rect) ∈ o.responses img w ∧
      adjust_threshold ≤ d.detection_confidence := by
  rw [filterDetections, detect, List.mem_map]
  constructor
  · rintro ⟨r, hr, rfl⟩
    obtain ⟨hmem, hthresh⟩ := List.mem_filter.mp ((o.sortPairs.perm _).mem_iff.mp hr)
    have hthresh : o.threshold w + adjust_threshold ≤ r.1 := by simpa using hthresh
    simp only [sub_add_cancel]
    exact ⟨trivial, hmem, by linarith⟩
  · rintro ⟨rfl, hmem, hadjust⟩
    refine ⟨_, (o.sortPairs.perm _).mem_iff.mpr (List.mem_filter.mpr ⟨hmem, ?_⟩), ?_⟩
    · simpa [add_comm] using hadjust
    · simp

omit [IsStrictOrderedRing D] in
theorem mem_ranked : d ∈ o.ranked img adjust_threshold ↔ d ∈ o.accumulated img adjust_threshold := by
  rw [ranked]
  split
  · exact (o.sortDetections.perm _).mem_iff
  · rfl

theorem mem_accumulated :
    d ∈ o.accumulated img adjust_threshold ↔ o.IsCandidate img adjust_threshold d := by
  rw [accumulated, List.mem_flatMap]
  constructor
  · rintro ⟨⟨w, i⟩, hw, hd⟩
    obtain ⟨rfl, hmem, hadjust⟩ := mem_filterDetections.mp hd
    exact ⟨w, List.mem_zipIdx_iff_getElem?.mp hw, hmem, hadjust⟩
  · rintro ⟨w, hw, hmem, hadjust⟩
    exact ⟨(w, d.weight_index), List.mem_zipIdx_iff_getElem?.mpr hw,
      mem_filterDetections.mpr ⟨rfl, hmem, hadjust⟩⟩

theorem filterDetections_sorted (w : W) (i : Nat) :
    (o.filterDetections img adjust_threshold w i).Pairwise fun a b =>
      b.detection_confidence ≤ a.detection_confidence := by
  rw [filterDetections, List.pairwise_map]
  exact (o.sortPairs.sorted _).imp fun h => by simpa using h

/-- The most confident ones come first; with one filter they are in this order already. -/
theorem ranked_sorted : (o.ranked img adjust_threshold).Pairwise fun a b =>
    b.detection_confidence ≤ a.detection_confidence := by
  rw [ranked]
  split
  next => exact o.sortDetections.sorted _
  next hw =>
    cases hws : o.w with
    | nil => simp [accumulated, hws]
    | cons w ws =>
      cases ws with
      | nil => simpa [accumulated, hws] using filterDetections_sorted w 0
      | cons w' ws => simp [hws] at hw

/-! ### The suppression -/

omit [IsStrictOrderedRing D] in
theorem suppressLoop_eq_keep (t : TestBoxOverlap D) (final_dets dets : List (RectDetection D)) :
    suppressLoop t final_dets dets =
      Greedy.keep (fun k d : RectDetection D => t.test k.rect d.rect) final_dets dets := by
  induction dets generalizing final_dets with
  | nil => rfl
  | cons d dets ih =>
    rw [suppressLoop, Greedy.keep, overlapsAnyBox, ih, ih]

/-- Two filters, each with a response to the same square of pixels; the squares are shifted by one
pixel. -/
def twoFilters : ObjectDetector Unit ℤ ℚ where
  boxes_overlap := ⟨1 / 2, 1⟩
  w := [0, 1]
  threshold w := w
  responses _ w := [(w + w + 1, ⟨w, 0, w + 9, 9⟩)]
  sortPairs := .stable _
  sortDetections := .stable _

theorem filterDetections_perm {higher : D} (h : adjust_threshold ≤ higher) (w : W) (i : Nat) :
    (o.filterDetections img higher w i).Perm
      ((o.filterDetections img adjust_threshold w i).filter fun d =>
        higher ≤ d.detection_confidence) := by
  rw [filterDetections, filterDetections, List.filter_map]
  apply List.Perm.map
  refine (o.sortPairs.perm _).trans (.trans ?_ ((o.sortPairs.perm _).filter _).symm)
  rw [List.filter_filter]
  apply List.Perm.of_eq
  apply List.filter_congr
  intro r _
  rw [Bool.eq_iff_iff]
  simp only [Function.comp_apply, decide_eq_true_eq, Bool.and_eq_true]
  constructor
  · intro hr
    exact ⟨by linarith, by linarith⟩
  · intro hr
    linarith

theorem ranked_perm {higher : D} (h : adjust_threshold ≤ higher) :
    (o.ranked img higher).Perm
      ((o.ranked img adjust_threshold).filter fun d => higher ≤ d.detection_confidence) := by
  have hranked (adjust : D) : (o.ranked img adjust).Perm (o.accumulated img adjust) := by
    rw [ranked]
    split
    · exact o.sortDetections.perm _
    · exact .refl _
  refine (hranked higher).trans (.trans ?_ ((hranked adjust_threshold).filter _).symm)
  rw [accumulated, accumulated, List.filter_flatMap]
  exact List.Perm.flatMap_left _ fun wi _ => filterDetections_perm h wi.1 wi.2

/-- When no two candidates are equally confident, a higher threshold only leaves out what is below
it: it neither brings back a suppressed detection nor suppresses another one. -/
theorem detections_raise (o : ObjectDetector Img W D) (img : Img) {adjust_threshold higher : D}
    (h : adjust_threshold ≤ higher)
    (hties : ∀ a b, o.IsCandidate img adjust_threshold a → o.IsCandidate img adjust_threshold b →
      a.detection_confidence = b.detection_confidence → a = b) :
    o.detections img higher =
      (o.detections img adjust_threshold).filter fun d => higher ≤ d.detection_confidence := by
  have hranked : o.ranked img higher =
      (o.ranked img adjust_threshold).filter fun d => higher ≤ d.detection_confidence := by
    apply List.Perm.eq_of_pairwise _ ranked_sorted
      (ranked_sorted.sublist List.filter_sublist) (ranked_perm h)
    intro a b ha hb hle hge
    have ha := (List.mem_filter.mp ((ranked_perm h).subset ha)).1
    have hb := (List.mem_filter.mp hb).1
    exact hties a b (mem_accumulated.mp (mem_ranked.mp ha)) (mem_accumulated.mp (mem_ranked.mp hb))
      (le_antisymm hge hle)
  rw [detections, detections, suppressLoop_eq_keep, suppressLoop_eq_keep, hranked]
  exact Greedy.keep_filter _ ranked_sorted higher

theorem detections_raise_two :
    twoFilters.detections () 2 =
      (twoFilters.detections () 0).filter fun d => 2 ≤ d.detection_confidence := by
  refine detections_raise twoFilters () (by norm_num) ?_
  have hform : ∀ d, twoFilters.IsCandidate () 0 d →
      d = ⟨1, 0, 0, 0, 9, 9⟩ ∨ d = ⟨2, 1, 1, 0, 10, 9⟩ := by
    rintro ⟨confidence, index, rect⟩ ⟨w, hw, hmem, -⟩
    obtain ⟨hconfidence, rfl⟩ := Prod.mk.inj (List.mem_singleton.mp hmem)
    have hconfidence : confidence = w + 1 := by
      have : confidence + w = w + w + 1 := hconfidence
      linarith
    subst hconfidence
    match index, hw with
    | 0, hw =>
      obtain rfl : 0 = w := Option.some.inj hw
      left
      norm_num
    | 1, hw =>
      obtain rfl : 1 = w := Option.some.inj hw
      right
      norm_num
  intro a b ha hb hab
  cases hform a ha with
  | inl ha => cases hform b hb with
    | inl hb => rw [ha, hb]
    | inr hb => simp [ha, hb] at hab
  | inr ha => cases hform b hb with
    | inl hb => simp [ha, hb] at hab
    | inr hb => rw [ha, hb]

end ObjectDetector

end FaceRecognition
