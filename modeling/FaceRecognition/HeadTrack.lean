import FaceRecognition.Kkmeans
import FaceRecognition.Library.BinaryFloat
import Mathlib.Algebra.BigOperators.Group.Finset.Basic
import Mathlib.Algebra.Order.BigOperators.Group.List
import Mathlib.Data.Nat.Sqrt

/-! The focus computation of `head_track`: the poses of the faces in one image are
clustered, the largest cluster is counted and its share is printed into a buffer. -/
namespace FaceRecognition
open CppString BinaryFloat Format

variable {C S D : Type*}

/-! ### From the faces to the text -/

/-- `kc_num` for so many detected faces. -/
def kcNum (faces : Nat) : Nat :=
  let kc_num := Nat.sqrt (faces / 2)
  if kc_num < 2 then 2 else kc_num

/-- `initial_centers` as they reach `train`. -/
def initialCenters [LT D] [DecidableLT D] [Add D] [Sub D] [Mul D] [OfNat D 2] (o : KernelOps C S D)
    (samples : List S) : Except BadIndex (List S) :=
  let kc_num := kcNum samples.length
  if kc_num < samples.length then pickInitialCenters o kc_num samples else .ok samples

/-- The labels that the trained object gives the samples; `kc` is the centroid that every
center starts as. -/
def clusterLabels [LT D] [DecidableLT D] [Add D] [Sub D] [Mul D] [OfNat D 2] (o : KernelOps C S D)
    (kc : C) (samples : List S) : Except BadIndex (List Nat) :=
  (initialCenters o samples).bind fun initial_centers =>
    (doTrain o (List.replicate (kcNum samples.length) kc) samples initial_centers).bind fun centers =>
      kkmeansLabels o centers samples

/-- `focus_count[label]++` for every label. -/
def countLoop : List Nat → List Nat → Except BadIndex (List Nat)
  | focus_count, [] => .ok focus_count
  | focus_count, label :: labels => (access focus_count label).bind fun c =>
      countLoop (focus_count.set label (c + 1)) labels

def focusCount (kc_num : Nat) (labels : List Nat) : Except BadIndex (List Nat) :=
  countLoop (List.replicate kc_num 0) labels

def maxLoop : Nat → List Nat → Nat
  | max, [] => max
  | max, c :: counts => maxLoop (if max < c then c else max) counts

def focusMax (focus_count : List Nat) : Except BadIndex Nat :=
  (access focus_count 0).bind fun c => .ok (maxLoop c focus_count.tail)

/-- The size of the buffer `percent`. -/
def percentSize : Nat := 6

/-- `(float)max/samples.size()*100`: every step is rounded to `float`. -/
def focusShare (max faces : Nat) : ℚ :=
  float.nearest (float.nearest (float.nearest max / float.nearest faces) * 100)

/-- What `sprintf` writes to the buffer, the terminating NUL apart. -/
def percentText (max faces : Nat) : Str :=
  let share := focusShare max faces
  fixed2 share.num.toNat share.den

/-! ### The number of clusters and the initial centers -/

theorem kcNum_bounds {n : Nat} (h : 2 ≤ n) : 2 ≤ kcNum n ∧ kcNum n ≤ n := by
  have hsqrt := Nat.sqrt_le_self (n / 2)
  rw [kcNum]
  split <;> omega

section Initial
variable [LT D] [DecidableLT D] [Add D] [Sub D] [Mul D] [OfNat D 2] (o : KernelOps C S D)

/-- Either branch yields as many centers as there are clusters. -/
theorem initialCenters_ok {samples : List S} (h : 2 ≤ samples.length) :
    ∃ centers, initialCenters o samples = .ok centers ∧ centers.length = kcNum samples.length := by
  obtain ⟨h2, hle⟩ := kcNum_bounds h
  by_cases hlt : kcNum samples.length < samples.length
  · obtain ⟨centers, hc, hlen⟩ := pickInitialCenters_ok o (show 0 < samples.length by omega)
      (show 0 < kcNum samples.length by omega)
    exact ⟨centers, by rw [initialCenters, if_pos hlt, hc], hlen⟩
  · exact ⟨samples, by rw [initialCenters, if_neg hlt], by omega⟩

/-- What the trained object returns is a label for every face, below the number of centers. -/
theorem clusterLabels_ok (kc : C) {samples : List S} (h : 2 ≤ samples.length) :
    ∃ labels, clusterLabels o kc samples = .ok labels ∧ labels.length = samples.length ∧
      ∀ l ∈ labels, l < kcNum samples.length := by
  obtain ⟨h2, -⟩ := kcNum_bounds h
  obtain ⟨initial, hi, hilen⟩ := initialCenters_ok o h
  have hrep : (List.replicate (kcNum samples.length) kc).length = kcNum samples.length :=
    List.length_replicate
  obtain ⟨centers, hc, hclen⟩ := doTrain_ok o samples (by omega) (hilen.trans hrep.symm)
  rw [hrep] at hclen
  obtain ⟨labels, hl, hlen, hlt⟩ := kkmeansLabels_ok o (show 0 < centers.length by omega) samples
  refine ⟨labels, ?_, hlen, hclen ▸ hlt⟩
  rw [clusterLabels, hi, Except.ok_bind, hc, Except.ok_bind, hl]

end Initial

/-! ### Counting -/

/-- Every increment is in range and adds the label to its entry. -/
theorem countLoop_eq {kc_num : Nat} (count : Nat → Nat) {labels : List Nat}
    (h : ∀ l ∈ labels, l < kc_num) :
    countLoop ((List.range kc_num).map count) labels =
      .ok ((List.range kc_num).map fun i => count i + labels.count i) := by
  induction labels generalizing count with
  | nil => simp [countLoop]
  | cons label labels ih =>
    obtain ⟨hlt, hrest⟩ := List.forall_mem_cons.mp h
    have hset : ((List.range kc_num).map count).set label (count label + 1) =
        (List.range kc_num).map (Function.update count label (count label + 1)) := by
      refine List.ext_getElem (by simp) fun i hi _ => ?_
      by_cases hil : label = i
      · simp [hil]
      · simp [List.getElem_set_of_ne hil, Function.update_of_ne (Ne.symm hil)]
    rw [countLoop, access_of_lt (by simpa using hlt), Except.ok_bind, List.getElem_map,
      List.getElem_range, hset, ih _ hrest]
    congr 1
    refine List.map_congr_left fun i _ => ?_
    by_cases hil : label = i
    · subst hil
      rw [Function.update_self, List.count_cons_self]
      omega
    · rw [Function.update_of_ne (Ne.symm hil), List.count_cons_of_ne hil]

theorem focusCount_eq {kc_num : Nat} {labels : List Nat} (h : ∀ l ∈ labels, l < kc_num) :
    focusCount kc_num labels = .ok ((List.range kc_num).map labels.count) := by
  have hzero : List.replicate kc_num 0 = (List.range kc_num).map fun _ => 0 := by simp
  rw [focusCount, hzero, countLoop_eq _ h]
  simp

/-- Each face is counted once. -/
theorem sum_count {kc_num : Nat} {labels : List Nat} (h : ∀ l ∈ labels, l < kc_num) :
    ((List.range kc_num).map labels.count).sum = labels.length := by
  have hsum := Multiset.sum_count_eq_card (s := Finset.range kc_num) (m := (labels : Multiset Nat))
    (by simpa using h)
  rw [Finset.sum_eq_multiset_sum, Finset.range_val, ← Multiset.coe_range] at hsum
  simpa using hsum

theorem maxLoop_spec (max : Nat) (counts : List Nat) :
    maxLoop max counts ∈ max :: counts ∧ ∀ c ∈ max :: counts, c ≤ maxLoop max counts := by
  induction counts generalizing max with
  | nil => simp [maxLoop]
  | cons c counts ih =>
    rw [maxLoop]
    by_cases hc : max < c
    · obtain ⟨hmem, hle⟩ := ih c
      obtain ⟨hfirst, hrest⟩ := List.forall_mem_cons.mp hle
      rw [if_pos hc]
      exact ⟨List.mem_cons_of_mem max hmem, List.forall_mem_cons.mpr ⟨by omega, hle⟩⟩
    · obtain ⟨hmem, hle⟩ := ih max
      obtain ⟨hfirst, hrest⟩ := List.forall_mem_cons.mp hle
      rw [if_neg hc]
      refine ⟨?_, List.forall_mem_cons.mpr ⟨hfirst, List.forall_mem_cons.mpr ⟨by omega, hrest⟩⟩⟩
      rcases List.mem_cons.mp hmem with h | h
      · simp [h]
      · simp [h]

/-- The maximum is one of the counts and bounds them all. -/
theorem focusMax_ok {counts : List Nat} (h : 0 < counts.length) :
    ∃ max, focusMax counts = .ok max ∧ max ∈ counts ∧ ∀ c ∈ counts, c ≤ max := by
  cases counts with
  | nil => simp at h
  | cons c counts =>
    obtain ⟨hmem, hle⟩ := maxLoop_spec c counts
    exact ⟨_, rfl, hmem, hle⟩

/-- The share of the largest cluster is between the average and the whole. -/
theorem max_bounds {counts : List Nat} {max : Nat} (hmem : max ∈ counts)
    (hle : ∀ c ∈ counts, c ≤ max) :
    (counts.sum + counts.length - 1) / counts.length ≤ max ∧ max ≤ counts.sum := by
  have hlen := List.length_pos_of_mem hmem
  have hsum : counts.sum ≤ counts.length * max := by
    simpa using List.sum_le_card_nsmul counts max hle
  refine ⟨?_, List.single_le_sum (by simp) max hmem⟩
  rw [Nat.div_le_iff_le_mul_add_pred hlen]
  omega

/-! ### The share of the largest cluster -/

/-- The sizes are far below the largest `float`, so that none of the roundings leaves the range. -/
theorem focusShare_in_range {max faces : Nat} (hle : max ≤ faces) (hpos : 0 < faces)
    (hsize : faces ≤ 2 ^ 64) :
    float.round max = .finite (float.nearest max) ∧ float.round faces = .finite (float.nearest faces) ∧
      float.round (float.nearest max / float.nearest faces) =
        .finite (float.nearest (float.nearest max / float.nearest faces)) ∧
      float.round (float.nearest (float.nearest max / float.nearest faces) * 100) =
        .finite (focusShare max faces) := by
  have hnat {n : Nat} (hn : n ≤ 2 ^ 64) : float.round n = .finite (float.nearest n) :=
    round_of_le (Nat.cast_nonneg n) (k := 64) (by exact_mod_cast hn) (by decide) (by decide)
  have hden : (0 : ℚ) < float.nearest faces := by
    rw [nearest_natCast]
    exact_mod_cast ofNat_pos hpos
  have hnum : 0 ≤ float.nearest max := nearest_nonneg (Nat.cast_nonneg max)
  have hratio : float.nearest max / float.nearest faces ≤ 2 ^ (0 : Int) := by
    rw [zpow_zero, div_le_one hden, nearest_natCast, nearest_natCast]
    exact_mod_cast ofNat_mono hle
  have hratio0 := div_nonneg hnum hden.le
  have hshare : float.nearest (float.nearest max / float.nearest faces) ≤ 2 ^ (0 : Int) := by
    rcases hratio0.eq_or_lt with heq | hlt
    · rw [← heq, nearest_zero]
      norm_num
    · exact nearest_le_zpow hlt hratio (by decide)
  rw [zpow_zero] at hshare
  refine ⟨hnat (hle.trans hsize), hnat hsize, round_of_le hratio0 hratio (by decide) (by decide), ?_⟩
  refine round_of_le (mul_nonneg (nearest_nonneg hratio0) (by norm_num)) (k := 7) ?_ (by decide) (by decide)
  linarith

/-- So many of the faces are not printed as `100.00`. From 2^24 on the numbers are compared with the
digits of a `float` only. -/
def ShareFits (count faces : Nat) : Prop := 33554432 * float.ofNat count ≤ 33552753 * float.ofNat faces

instance (count faces : Nat) : Decidable (ShareFits count faces) := inferInstanceAs (Decidable (_ ≤ _))

theorem ShareFits.mono {count max faces : Nat} (h : ShareFits max faces) (hle : count ≤ max) :
    ShareFits count faces :=
  (Nat.mul_le_mul_left _ (ofNat_mono hle)).trans h

theorem focusShare_nonneg (max faces : Nat) : 0 ≤ focusShare max faces :=
  nearest_nonneg (mul_nonneg (nearest_nonneg
    (div_nonneg (nearest_nonneg (Nat.cast_nonneg max)) (nearest_nonneg (Nat.cast_nonneg faces)))) (by norm_num))

/-- 16776376 / 2^24 is the largest quotient whose product with a hundred is rounded to a `float` below
99.995, and 13106544 / 2^17 is the largest one of these. -/
theorem focusShare_lt_iff (max : Nat) {faces : Nat} (h : 0 < faces) :
    focusShare max faces < 19999 / 200 ↔ ShareFits max faces := by
  have hden : (0 : ℚ) < float.ofNat faces := by exact_mod_cast ofNat_pos h
  have hratio : (float.ofNat max : ℚ) / float.ofNat faces ≤ ((16776376 : Int) + 1 / 2) * 2 ^ (-24 : Int) ↔
      ShareFits max faces := by
    rw [div_le_iff₀ hden, ShareFits, ← Nat.cast_le (α := ℚ)]
    push_cast
    norm_num
    constructor <;> intro h <;> linarith
  rw [focusShare, nearest_natCast, nearest_natCast, ← hratio]
  rcases (div_nonneg (Nat.cast_nonneg (float.ofNat max)) hden.le).eq_or_lt with hzero | hpos
  · rw [← hzero, nearest_zero, zero_mul, nearest_zero]
    norm_num
  have hquotient :=
    @nearest_of_even float 16776376 (-24) (by decide) (by decide) (by decide) (by decide) _ hpos
  have hshare (hq : 0 < float.nearest ((float.ofNat max : ℚ) / float.ofNat faces)) :=
    @nearest_of_even float 13106544 (-17) (by decide) (by decide) (by decide) (by decide) _
      (mul_pos hq (by norm_num : (0 : ℚ) < 100))
  rcases hquotient with ⟨hle, hnear⟩ | ⟨hgt, hnear⟩
  · refine iff_of_true ?_ hle
    have hnonneg : 0 ≤ float.nearest ((float.ofNat max : ℚ) / float.ofNat faces) := nearest_nonneg hpos.le
    rcases hnonneg.eq_or_lt with hq | hq
    · rw [← hq, zero_mul, nearest_zero]
      norm_num
    · rcases hshare hq with ⟨-, hbelow⟩ | ⟨habove, -⟩
      · refine hbelow.trans_lt ?_
        norm_num
      · norm_num at hnear habove
        linarith
  · refine iff_of_false (not_lt.mpr ?_) (not_le.mpr hgt)
    have hq : 0 < float.nearest ((float.ofNat max : ℚ) / float.ofNat faces) :=
      lt_of_lt_of_le (by norm_num) hnear
    rcases hshare hq with ⟨hbelow, -⟩ | ⟨-, habove⟩
    · norm_num at hnear hbelow
      linarith
    · refine le_trans ?_ habove
      norm_num

/-- The text of a number has at most two digits before the point unless it is rounded to a hundred. -/
theorem percentText_fits_iff (max : Nat) {faces : Nat} (h : 0 < faces) :
    (percentText max faces).length + 1 ≤ percentSize ↔ ShareFits max faces := by
  have hfit := fixed2_length_le_iff (a := (focusShare max faces).num.toNat) (focusShare max faces).den_pos
  have hnum : (((focusShare max faces).num.toNat : Int) : ℚ) = (focusShare max faces).num := by
    rw [Int.toNat_of_nonneg (Rat.num_nonneg.mpr (focusShare_nonneg max faces))]
  have hlt : focusShare max faces < 19999 / 200 ↔
      200 * (focusShare max faces).num.toNat < 19999 * (focusShare max faces).den := by
    have hden : (0 : ℚ) < (focusShare max faces).den := by exact_mod_cast (focusShare max faces).den_pos
    conv_lhs => rw [← Rat.num_div_den (focusShare max faces), ← hnum]
    rw [div_lt_div_iff₀ hden (by norm_num), mul_comm]
    exact_mod_cast Iff.rfl
  rw [← focusShare_lt_iff max h, hlt, ← hfit, percentText, percentSize, Nat.succ_le_succ_iff]

/-! ### What the program promises of the focus -/

/-- The counts and the maximum of labels that are all below the number of clusters. -/
theorem focus_spec {kc_num : Nat} {labels : List Nat} (hkc : 0 < kc_num) (h : ∀ l ∈ labels, l < kc_num) :
    ∃ max, focusMax ((List.range kc_num).map labels.count) = .ok max ∧
      (labels.length + kc_num - 1) / kc_num ≤ max ∧ max ≤ labels.length ∧
      ∀ {faces : Nat}, 0 < faces → ((percentText max faces).length + 1 ≤ percentSize ↔
        ∀ l, ShareFits (labels.count l) faces) := by
  have hpos : 0 < ((List.range kc_num).map labels.count).length := by simpa using hkc
  obtain ⟨max, hmax, hmem, hbound⟩ := focusMax_ok hpos
  obtain ⟨hlow, hhigh⟩ := max_bounds hmem hbound
  rw [List.length_map, List.length_range, sum_count h] at hlow
  rw [sum_count h] at hhigh
  refine ⟨max, hmax, hlow, hhigh, fun {faces} hfaces => (percentText_fits_iff max hfaces).trans ?_⟩
  constructor
  · intro hfit l
    have hl : labels.count l ≤ max := by
      by_cases hmem : l ∈ labels
      · exact hbound _ (List.mem_map_of_mem (List.mem_range.mpr (h l hmem)))
      · rw [List.count_eq_zero.mpr hmem]
        exact Nat.zero_le max
    exact hfit.mono hl
  · intro hall
    obtain ⟨l, -, rfl⟩ := List.mem_map.mp hmem
    exact hall l

end FaceRecognition
