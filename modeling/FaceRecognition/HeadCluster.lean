import FaceRecognition.HeadMain
import FaceRecognition.KkmeansTraining
import FaceRecognition.KcentroidRefines

/-! The clustering of `head_track` with the centroids that it is really given: each face is labelled
with the nearest mean in the feature space, each mean is the sparse mean of its faces. The arithmetic,
the exponential and the square roots are exact, where the program computes with `double`. -/
namespace FaceRecognition
open GramSpan SparseMean Kcentroid
open scoped RealInnerProductSpace NNReal

/-! ### The centroids -/

/-- The width of `kernel_type(0.1)`. -/
noncomputable def focusGamma : ℝ≥0 := ⟨0.1, by norm_num⟩

/-- `kcentroid<kernel_type> kc(kernel_type(0.1),0.01,kc_num)`. -/
noncomputable def focusSettings (kc_num : Nat) : KcentroidSettings Sample ℝ where
  kernel := radialBasisKernel focusGamma
  my_tolerance := 0.01
  my_max_dictionary_size := kc_num
  my_remove_oldest_first := false

/-- A pose in the feature space. -/
noncomputable def focusFeature : Sample → RadialBasis.Space focusGamma ℂ := sampleFeature focusGamma

theorem focusFeature_isFeatureMap (kc_num : Nat) :
    IsFeatureMap (focusSettings kc_num).kernel focusFeature := sampleFeature_isFeatureMap focusGamma

theorem focusTolerance_pos (kc_num : Nat) : 0 < (focusSettings kc_num).my_tolerance := by
  norm_num [focusSettings]

theorem two_le_kcNum (faces : Nat) : 2 ≤ kcNum faces := by
  rw [kcNum]
  split <;> omega

/-- A centroid for an image with so many faces, in a state that the class can be in. -/
structure FocusCentroid (faces : Nat) where
  centroid : Kcentroid Sample ℝ
  convention : Convention (focusSettings (kcNum faces)) centroid

namespace FocusCentroid
variable {faces : Nat}

noncomputable def fresh : FocusCentroid faces := ⟨clearDictionary, clearDictionary_convention _⟩

theorem train_ok (c : FocusCentroid faces) (x : Sample) :
    ∃ c', c.centroid.train (focusSettings (kcNum faces)) x = .ok c' ∧
      Convention (focusSettings (kcNum faces)) c' :=
  apply_convention (focusFeature_isFeatureMap _) (focusTolerance_pos _) (two_le_kcNum faces)
    c.convention (.train x)

noncomputable def train (c : FocusCentroid faces) (x : Sample) : FocusCentroid faces :=
  ⟨(c.train_ok x).choose, (c.train_ok x).choose_spec.2⟩

theorem train_eq (c : FocusCentroid faces) (x : Sample) :
    c.centroid.train (focusSettings (kcNum faces)) x = .ok (c.train x).centroid :=
  (c.train_ok x).choose_spec.1

theorem applyAll_train (c : FocusCentroid faces) (xs : List Sample) :
    c.centroid.applyAll (focusSettings (kcNum faces)) (xs.map .train) =
      .ok (xs.foldl train c).centroid := by
  induction xs generalizing c with
  | nil => rfl
  | cons x xs ih =>
    have hx : c.centroid.apply (focusSettings (kcNum faces)) (.train x) = .ok (c.train x).centroid :=
      c.train_eq x
    rw [List.map_cons, applyAll, hx, Except.ok_bind, List.foldl_cons, ih]

noncomputable def score (c : FocusCentroid faces) (x : Sample) : ℝ :=
  c.centroid.score (focusSettings (kcNum faces)) x

open Classical in
/-- A centroid as the sparse mean that it holds. -/
noncomputable def mean (c : FocusCentroid faces) : State (RadialBasis.Space focusGamma ℂ) :=
  abstracted focusFeature c.centroid

theorem score_eq (c : FocusCentroid faces) (x : Sample) :
    c.score x = ‖focusFeature x - c.mean.center‖ :=
  score_eq_norm (focusFeature_isFeatureMap _) c.convention x

open Classical in
theorem mean_foldl (xs : List Sample) :
    MeanRun (budget (focusSettings (kcNum faces))) (xs.map focusFeature)
      (xs.foldl train (fresh : FocusCentroid faces)).mean := by
  obtain ⟨c, hc, -, -, hrun⟩ := trainAll_meanRun (focusFeature_isFeatureMap _)
    (focusTolerance_pos (kcNum faces)) (two_le_kcNum faces) xs
  have hfold := applyAll_train (fresh : FocusCentroid faces) xs
  have hcc : c = (xs.foldl train (fresh : FocusCentroid faces)).centroid := by
    rw [← Except.ok.injEq (ε := BadIndex), ← hc, ← hfold]
    rfl
  rw [mean, ← hcc]
  exact hrun

end FocusCentroid

/-- What the clustering of an image with so many faces works with, over the real numbers. -/
noncomputable def focusOps (faces : Nat) (infinity : ℝ)
    (sort : List (CenterScore ℝ) → List (CenterScore ℝ)) (sort_perm : ∀ l, (sort l).Perm l)
    (stale : Nat → Nat) : KernelOps (FocusCentroid faces) Sample ℝ where
  kernel := radialBasisKernel focusGamma
  infinity := infinity
  sort := sort
  sort_perm := sort_perm
  clearDictionary _ := .fresh
  train := FocusCentroid.train
  score := FocusCentroid.score
  stale := stale

/-! ### The clusters -/

/-- Vectors labelled with the nearest of several means, the first one of equally near ones. -/
structure Labelled {H : Type*} [NormedAddCommGroup H] (vectors : List H) (labels : List Nat)
    (means : List H) : Prop where
  length_eq : labels.length = vectors.length
  lt : ∀ l ∈ labels, l < means.length
  nearest : ∀ v l, (v, l) ∈ vectors.zip labels → ∀ j m m', means[l]? = some m →
    means[j]? = some m' → ‖v - m‖ ≤ ‖v - m'‖ ∧ (j < l → ‖v - m‖ < ‖v - m'‖)

section Clusters
variable (infinity : ℝ) (sort : List (CenterScore ℝ) → List (CenterScore ℝ))
  (sort_perm : ∀ l, (sort l).Perm l) (stale : Nat → Nat) {faces : Nat}

theorem labels_labelled {centers : List (FocusCentroid faces)} (h : 0 < centers.length)
    (samples : List Sample) :
    Labelled (samples.map focusFeature)
      (samples.map (nearest (focusOps faces infinity sort sort_perm stale) centers))
      (centers.map fun c => c.mean.center) where
  length_eq := by simp
  lt l hl := by
    obtain ⟨s, -, rfl⟩ := List.mem_map.mp hl
    rw [List.length_map]
    exact (nearest_isNearest _ h s).lt
  nearest v l hvl j m m' hm hm' := by
    rw [List.zip_map', List.mem_map] at hvl
    obtain ⟨s, -, hs⟩ := hvl
    obtain ⟨rfl, rfl⟩ := Prod.mk.inj hs
    have hnear := nearest_isNearest (focusOps faces infinity sort sort_perm stale) h s
    obtain ⟨hj, rfl⟩ := List.getElem?_eq_some_iff.mp hm'
    obtain ⟨hl, rfl⟩ := List.getElem?_eq_some_iff.mp hm
    rw [List.length_map] at hj
    simp only [List.getElem_map, ← FocusCentroid.score_eq]
    exact ⟨hnear.le _ (List.getElem_mem hj), fun hjl => hnear.first j hjl⟩

theorem classOf_map {A B : Type*} (f : A → B) (j : Nat) (labels : List Nat) (samples : List A) :
    (classOf j labels samples).map f = classOf j labels (samples.map f) := by
  induction labels generalizing samples with
  | nil => rfl
  | cons l labels ih =>
    cases samples with
    | nil => rfl
    | cons s samples =>
      have hrest := ih samples
      by_cases hlj : l = j
      · simpa [classOf, hlj] using hrest
      · simpa [classOf, hlj] using hrest

theorem settled_mean {samples : List Sample} {trained : List (FocusCentroid faces)}
    (h : Settled (focusOps faces infinity sort sort_perm stale) samples trained) {j : Nat}
    (hj : j < trained.length) :
    open Classical in
    MeanRun (budget (focusSettings (kcNum faces)))
      ((classOf j (samples.map (nearest (focusOps faces infinity sort sort_perm stale) trained))
        samples).map focusFeature) trained[j].mean := by
  classical
  obtain ⟨cleared, heq⟩ := h
  have hget : trained[j] = (classOf j
      (samples.map (nearest (focusOps faces infinity sort sort_perm stale) trained)) samples).foldl
        FocusCentroid.train .fresh := by
    have hsome := List.getElem?_eq_getElem hj
    conv_lhs at hsome => rw [heq]
    rw [classCenters, List.getElem?_mapIdx, Option.map_eq_some_iff] at hsome
    obtain ⟨c, -, hc⟩ := hsome
    exact hc.symm
  rw [hget]
  convert FocusCentroid.mean_foldl _

open Classical in
/-- The labels of the faces are those of their nearest means. When the rounds did not run out, for
fewer than 200 faces and unless the seeds label the faces as the unwritten `assignments` did, every
mean is the sparse mean of exactly the faces with its label. -/
theorem focus_clusters {samples : List Sample} (h : 2 ≤ samples.length) :
    let o := focusOps samples.length infinity sort sort_perm stale
    let fresh := List.replicate (kcNum samples.length) FocusCentroid.fresh
    ∃ initial seeds centers labels, initialCenters o samples = .ok initial ∧
      seedCenters o initial 0 fresh = .ok seeds ∧ doTrain o fresh samples initial = .ok centers ∧
      clusterLabels o .fresh samples = .ok labels ∧ centers.length = kcNum samples.length ∧
      Labelled (samples.map focusFeature) labels (centers.map fun c => c.mean.center) ∧
      (samples.length < 200 → (∃ t < 1000, movedAfter o samples seeds t = 0) →
        samples.map (nearest o seeds) ≠ (List.range samples.length).map stale →
        ∀ j c, centers[j]? = some c → MeanRun (budget (focusSettings (kcNum samples.length)))
          (classOf j labels (samples.map focusFeature)) c.mean) := by
  intro o fresh
  have h2 := two_le_kcNum samples.length
  obtain ⟨initial, hinitial, hlen⟩ := initialCenters_ok o h
  have hfresh : fresh.length = kcNum samples.length := List.length_replicate
  have hpos : 0 < fresh.length := by omega
  have hinit := hlen.trans hfresh.symm
  obtain ⟨seeds, T, hs, hT, htrain, hmoved, hend⟩ := doTrain_settles o samples hpos hinit
  obtain ⟨centers, hc, hclen⟩ := doTrain_ok o samples hpos hinit
  obtain rfl : centers = _ := Except.ok.inj (hc.symm.trans htrain)
  have hpos : 0 < (afterRounds o samples seeds T).1.length := by omega
  refine ⟨initial, seeds, _, _, hinitial, hs, hc, ?_, by omega,
    labels_labelled infinity sort sort_perm stale hpos samples, ?_⟩
  · rw [clusterLabels, hinitial, Except.ok_bind, htrain, Except.ok_bind]
    exact kkmeansLabels_eq o hpos samples
  · rintro h200 ⟨t, ht, hzero⟩ hstale j c hcj
    have hTt : T ≤ t := not_lt.mp fun htT => hmoved t htT hzero
    obtain ⟨hj, rfl⟩ := List.getElem?_eq_some_iff.mp hcj
    rw [← classOf_map]
    rcases hend (by omega) with ⟨rfl, hsame⟩ | hsettled | ⟨hmany, -⟩
    · exact absurd hsame hstale
    · exact settled_mean infinity sort sort_perm stale hsettled hj
    · omega

open Classical in
theorem focus_clusters_three :
    let samples : List Sample := [(0, 0), (3, 0), (0, 3)]
    let o := focusOps samples.length ScalarLimits.max
      (fun l => l.mergeSort fun a b => decide (a.dist ≤ b.dist)) (fun l => l.mergeSort_perm _) fun _ => 7
    let fresh := List.replicate (kcNum samples.length) FocusCentroid.fresh
    ∃ initial seeds centers labels, initialCenters o samples = .ok initial ∧
      seedCenters o initial 0 fresh = .ok seeds ∧ doTrain o fresh samples initial = .ok centers ∧
      clusterLabels o .fresh samples = .ok labels ∧ centers.length = kcNum samples.length ∧
      Labelled (samples.map focusFeature) labels (centers.map fun c => c.mean.center) ∧
      (samples.length < 200 → (∃ t < 1000, movedAfter o samples seeds t = 0) →
        samples.map (nearest o seeds) ≠ (List.range samples.length).map (fun _ => 7) →
        ∀ j c, centers[j]? = some c → MeanRun (budget (focusSettings (kcNum samples.length)))
          (classOf j labels (samples.map focusFeature)) c.mean) :=
  focus_clusters _ _ _ _ (by decide)

end Clusters

end FaceRecognition
