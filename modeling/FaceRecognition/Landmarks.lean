import FaceRecognition.ShapePredictor
import Mathlib.Data.List.GetD
import Mathlib.Data.Nat.Log
import Mathlib.Data.Rat.Floor
import Mathlib.Tactic.Ring

/-! What the landmark prediction computes: it reads nothing out of range and reaches one leaf of every
tree; it follows the image and the rectangle when they are shifted; its pixels move with the shape. -/
namespace FaceRecognition
open HeapTree Matrix PlaneFit

variable {F : Type*} [Field F] [LinearOrder F]

/-! ### Trees -/

namespace RegressionTree

/-- A tree with all its levels filled, for so many features and landmarks. -/
structure Sound (features parts : Nat) (t : RegressionTree F) : Prop where
  power : ∃ depth, t.leaf_values.length = 2 ^ depth
  leaves : t.leaf_values.length = t.splits.length + 1
  idx_lt : ∀ s ∈ t.splits, s.idx1 < features ∧ s.idx2 < features
  leaf_length : ∀ leaf ∈ t.leaf_values, leaf.length = parts

/-- The array as a tree. -/
def tree (t : RegressionTree F) : Perfect (SplitFeature F) (List (F × F)) (Nat.log 2 t.numLeaves) :=
  ofArray t.splits.length (fun i => t.splits.getD i ⟨0, 0, 0⟩) (fun i => t.leaf_values.getD i []) _ 0

/-- The decision of a node. -/
def goesRight (feature_pixel_values : List F) (s : SplitFeature F) : Bool :=
  !(s.thresh < feature_pixel_values.getD s.idx1 0 - feature_pixel_values.getD s.idx2 0)

theorem descendLoop_eq {splits : List (SplitFeature F)} {values : List F}
    (h : ∀ s ∈ splits, s.idx1 < values.length ∧ s.idx2 < values.length) (i : Nat) :
    descendLoop splits values i = .ok
      (descend splits.length (fun i => goesRight values (splits.getD i ⟨0, 0, 0⟩)) i) := by
  induction hn : splits.length - i using Nat.strong_induction_on generalizing i with
  | _ n ih =>
    rw [descendLoop]
    by_cases hi : i < splits.length
    · obtain ⟨h1, h2⟩ := h _ (List.getElem_mem hi)
      have hleft := ih (splits.length - leftChild i) (by rw [leftChild]; omega) (leftChild i) rfl
      have hright := ih (splits.length - rightChild i) (by rw [rightChild]; omega) (rightChild i) rfl
      rw [dif_pos hi, access_of_lt h1, Except.ok_bind, access_of_lt h2, Except.ok_bind, hleft, hright,
        descend_of_lt hi]
      simp only [goesRight, List.getD_eq_getElem _ _ hi, List.getD_eq_getElem _ _ h1,
        List.getD_eq_getElem _ _ h2, leftChild, rightChild]
      by_cases hlt : splits[i].thresh < values[splits[i].idx1] - values[splits[i].idx2]
      · simp [hlt]
      · simp [hlt]
    · rw [dif_neg hi, descend_of_ge (not_lt.mp hi)]

/-- A tree yields the leaf that its decisions lead to, and its number. -/
theorem Sound.eval_eq {features parts : Nat} {t : RegressionTree F} (h : t.Sound features parts)
    {values : List F} (hvalues : values.length = features) :
    ∃ i, t.eval values = .ok (t.tree.follow (goesRight values), i) ∧ i < t.numLeaves ∧
      (t.tree.follow (goesRight values)).length = parts := by
  obtain ⟨depth, hdepth⟩ := h.power
  have hsplits : t.splits.length = 2 ^ depth - 1 := by
    have := h.leaves
    omega
  have hlog : Nat.log 2 t.numLeaves = depth := by
    rw [numLeaves, hdepth, Nat.log_pow (by omega)]
  have hroot : InLevel 0 0 := ⟨le_rfl, by norm_num⟩
  have hfollow := (descend_ofArray (fun i => t.splits.getD i ⟨0, 0, 0⟩)
    (fun i => t.leaf_values.getD i []) (goesRight values) (Nat.zero_add depth) hroot).2
  have hlt := (descend_root depth fun i => goesRight values (t.splits.getD i ⟨0, 0, 0⟩)).2
  rw [← hsplits] at hfollow hlt
  have hleaf : descend t.splits.length (fun i => goesRight values (t.splits.getD i ⟨0, 0, 0⟩)) 0 -
      t.splits.length < t.leaf_values.length := hdepth.symm ▸ hlt
  have htree : t.leaf_values[descend t.splits.length
      (fun i => goesRight values (t.splits.getD i ⟨0, 0, 0⟩)) 0 - t.splits.length] =
        t.tree.follow (goesRight values) := by
    rw [tree, hlog, ← hfollow, List.getD_eq_getElem _ _ hleaf]
  refine ⟨_, ?_, hleaf, ?_⟩
  · rw [eval, descendLoop_eq fun s hs => by rw [hvalues]; exact h.idx_lt s hs, Except.ok_bind]
    simp only [access_of_lt hleaf, Except.ok_bind, htree]
  · rw [← htree]
    exact h.leaf_length _ (List.getElem_mem hleaf)

end RegressionTree

/-! ### The nearest point of a shape -/

omit [Field F] [LinearOrder F] in
theorem getElem?_zero_cons_drop {shape : List (F × F)} {j : Nat} {p : F × F} {rest : List (F × F)}
    (h : shape.drop j = p :: rest) : shape[j]? = some p ∧ shape.drop (j + 1) = rest := by
  constructor
  · rw [← List.head?_drop, h, List.head?_cons]
  · rw [← List.tail_drop, h, List.tail_cons]

/-- The scan ends at a point that is as near as any other. -/
theorem nearestPointLoop_spec {shape : List (F × F)} {pt : F × F} {j best_idx : Nat}
    {best_dist : Option F} {rest : List (F × F)} (hrest : shape.drop j = rest)
    (hbest : ∀ d, best_dist = some d → (∃ p, shape[best_idx]? = some p ∧ lengthSquared (p - pt) = d) ∧
      ∀ p ∈ shape.take j, d ≤ lengthSquared (p - pt))
    (hnone : best_dist = none → j = 0) (hne : shape ≠ []) :
    ∃ p, shape[nearestPointLoop pt j best_idx best_dist rest]? = some p ∧
      ∀ q ∈ shape, lengthSquared (p - pt) ≤ lengthSquared (q - pt) := by
  induction rest generalizing j best_idx best_dist with
  | nil =>
    have hall : shape.take j = shape := List.take_of_length_le (List.drop_eq_nil_iff.mp hrest)
    cases hd : best_dist with
    | none =>
      rw [hnone hd, List.drop_zero] at hrest
      exact absurd hrest hne
    | some d =>
      obtain ⟨⟨p, hp, rfl⟩, hle⟩ := hbest d hd
      exact ⟨p, hp, hall ▸ hle⟩
  | cons p rest ih =>
    obtain ⟨hp, hrest⟩ := getElem?_zero_cons_drop hrest
    have htake : shape.take (j + 1) = shape.take j ++ [p] := by
      rw [List.take_add_one, hp, Option.toList_some]
    rw [nearestPointLoop]
    split
    next hlt =>
      apply ih hrest _ (by simp)
      intro d hd
      obtain rfl := Option.some.inj hd
      refine ⟨⟨p, hp, rfl⟩, fun q hq => ?_⟩
      rw [htake] at hq
      cases List.mem_append.mp hq with
      | inl hq =>
        cases hb : best_dist with
        | none =>
          rw [hnone hb, List.take_zero] at hq
          simp at hq
        | some d =>
          rw [hb, Option.all_some, decide_eq_true_eq] at hlt
          exact hlt.le.trans ((hbest d hb).2 q hq)
      | inr hq => rw [List.mem_singleton.mp hq]
    next hge =>
      cases hb : best_dist with
      | none => simp [hb] at hge
      | some d =>
        rw [hb, Option.all_some, decide_eq_true_eq, not_lt] at hge
        obtain ⟨hidx, hle⟩ := hbest d hb
        rw [← hb]
        apply ih hrest _ (by simp [hb])
        intro d' hd'
        obtain rfl : d = d' := Option.some.inj (hb.symm.trans hd')
        refine ⟨hidx, fun q hq => ?_⟩
        rw [htake] at hq
        cases List.mem_append.mp hq with
        | inl hq => exact hle q hq
        | inr hq => exact List.mem_singleton.mp hq ▸ hge

theorem nearestShapePoint_spec {shape : List (F × F)} (hne : shape ≠ []) (pt : F × F) :
    ∃ p, shape[nearestShapePoint shape pt]? = some p ∧
      ∀ q ∈ shape, lengthSquared (p - pt) ≤ lengthSquared (q - pt) :=
  nearestPointLoop_spec List.drop_zero (by simp) (fun _ => rfl) hne

/-- The way to a pixel from its nearest point. -/
def wayTo (shape : List (F × F)) (pixel : F × F) : F × F :=
  pixel - shape.getD (nearestShapePoint shape pixel) 0

theorem nearestShapePoint_lt {shape : List (F × F)} (hne : shape ≠ []) (pt : F × F) :
    nearestShapePoint shape pt < shape.length := by
  obtain ⟨p, hp, -⟩ := nearestShapePoint_spec hne pt
  exact (List.getElem?_eq_some_iff.mp hp).1

/-- Every pixel is encoded by a nearest point and the way from there. -/
theorem encoding_ok {shape : List (F × F)} (hne : shape ≠ []) (pixel_coordinates : List (F × F)) :
    createShapeRelativeEncoding shape pixel_coordinates =
      .ok (pixel_coordinates.map fun pixel => (nearestShapePoint shape pixel, wayTo shape pixel)) := by
  refine Except.mapM_eq_map fun pixel _ => ?_
  have hlt := nearestShapePoint_lt hne pixel
  simp only [access_of_lt hlt, Except.ok_bind, wayTo, List.getD_eq_getElem _ _ hlt]

/-! ### The pixels of a level -/

section Rounding
variable [FloorRing F] (svd : Matrix (Fin 2) (Fin 2) F → Svd F)

/-- The linear part that carries the reference shape to the current one. -/
def tformBetween (reference_shape current_shape : List (F × F)) : Matrix (Fin 2) (Fin 2) F :=
  if reference_shape.length = 1 then 1 else (findSimilarityTransform svd reference_shape current_shape).m

/-- Where a pixel that belongs to the reference shape is looked up for the current shape. -/
def pixelAt (rect : Rectangle) (reference_shape current_shape : List (F × F)) (pixel : F × F) :
    Int × Int :=
  toPoint ((unnormalizingTform rect).apply
    (timesVector (tformBetween svd reference_shape current_shape) (wayTo reference_shape pixel) +
      current_shape.getD (nearestShapePoint reference_shape pixel) 0))

variable {reference_shape current_shape : List (F × F)}

omit [FloorRing F] in
theorem findTform_ok
    (h : reference_shape.length = current_shape.length) :
    findTformBetweenShapes svd reference_shape current_shape =
      .ok (tformBetween svd reference_shape current_shape) := by
  have haccess : (List.range reference_shape.length).mapM (access current_shape) =
      .ok (current_shape.map id) := by
    rw [h]
    exact Except.mapM_range_eq_map fun i hi => access_of_lt hi
  rw [findTformBetweenShapes, tformBetween]
  split
  · rfl
  · rw [haccess, Except.ok_bind, List.map_id]

/-- The features of a level are the intensities where its pixels are looked up. -/
theorem extract_ok (hne : reference_shape ≠ [])
    (h : reference_shape.length = current_shape.length) (img : GrayImage F) (rect : Rectangle)
    (pixels : List (F × F)) :
    extractFeaturePixelValues svd img rect current_shape reference_shape
      (pixels.map (nearestShapePoint reference_shape)) (pixels.map (wayTo reference_shape)) =
        .ok (pixels.map fun pixel =>
          img.intensity (pixelAt svd rect reference_shape current_shape pixel)) := by
  rw [extractFeaturePixelValues, findTform_ok svd h, Except.ok_bind, List.length_map]
  refine Except.mapM_range_eq_map fun i hi => ?_
  have hanchor : nearestShapePoint reference_shape pixels[i] < current_shape.length :=
    h ▸ nearestShapePoint_lt hne pixels[i]
  have hdelta : access (pixels.map (wayTo reference_shape)) i =
      .ok (wayTo reference_shape pixels[i]) := by
    rw [access_of_lt (by rwa [List.length_map]), List.getElem_map]
  have hidx : access (pixels.map (nearestShapePoint reference_shape)) i =
      .ok (nearestShapePoint reference_shape pixels[i]) := by
    rw [access_of_lt (by rwa [List.length_map]), List.getElem_map]
  rw [hdelta, Except.ok_bind, hidx, Except.ok_bind, access_of_lt hanchor, Except.ok_bind, pixelAt,
    List.getD_eq_getElem _ _ hanchor]

/-! ### A run of the cascade -/

/-- One number in each of consecutive blocks of the given sizes, the first of which starts at
`offset`. -/
def InBlocks : Nat → List Nat → List Nat → Prop
  | _, [], [] => True
  | offset, size :: sizes, f :: feats =>
    (offset ≤ f ∧ f < offset + size) ∧ InBlocks (offset + size) sizes feats
  | _, _, _ => False

theorem InBlocks.append {offset : Nat} {sizes sizes' feats feats' : List Nat}
    (h : InBlocks offset sizes feats) (h' : InBlocks (offset + sizes.sum) sizes' feats') :
    InBlocks offset (sizes ++ sizes') (feats ++ feats') := by
  induction sizes generalizing offset feats with
  | nil =>
    cases feats with
    | nil => simpa using h'
    | cons f feats => exact h.elim
  | cons size sizes ih =>
    cases feats with
    | nil => exact h.elim
    | cons f feats =>
      rw [List.sum_cons, ← Nat.add_assoc] at h'
      exact ⟨h.1, ih h.2 h'⟩

theorem InBlocks.length_eq {offset : Nat} {sizes feats : List Nat} (h : InBlocks offset sizes feats) :
    feats.length = sizes.length := by
  induction sizes generalizing offset feats with
  | nil =>
    cases feats with
    | nil => rfl
    | cons f feats => exact h.elim
  | cons size sizes ih =>
    cases feats with
    | nil => exact h.elim
    | cons f feats => simpa using ih h.2

theorem InBlocks.bounds {offset : Nat} {sizes feats : List Nat} (h : InBlocks offset sizes feats) :
    ∀ f ∈ feats, offset ≤ f ∧ f < offset + sizes.sum := by
  induction sizes generalizing offset feats with
  | nil =>
    cases feats with
    | nil => simp
    | cons f feats => exact h.elim
  | cons size sizes ih =>
    cases feats with
    | nil => exact h.elim
    | cons f feats =>
      have hrest := ih h.2
      have hf := h.1
      intro g hg
      rw [List.sum_cons]
      cases List.mem_cons.mp hg with
      | inl hg => omega
      | inr hg =>
        have := hrest g hg
        omega

theorem InBlocks.increasing {offset : Nat} {sizes feats : List Nat} (h : InBlocks offset sizes feats) :
    feats.Pairwise (· < ·) := by
  induction sizes generalizing offset feats with
  | nil =>
    cases feats with
    | nil => exact List.Pairwise.nil
    | cons f feats => exact h.elim
  | cons size sizes ih =>
    cases feats with
    | nil => exact h.elim
    | cons f feats =>
      refine List.pairwise_cons.mpr ⟨fun g hg => ?_, ih h.2⟩
      have := (h.2.bounds g hg).1
      have := h.1
      omega

namespace ShapePredictor

omit [FloorRing F] in
/-- Listing the leaves does not change the shape. -/
theorem treesLoopFeats_fst (values : List F) (trees : List (RegressionTree F))
    (current_shape : List (F × F)) (feats : List Nat) (feat_offset : Nat) :
    (treesLoopFeats values trees current_shape feats feat_offset).map Prod.fst =
      treesLoop values trees current_shape := by
  induction trees generalizing current_shape feats feat_offset with
  | nil => rfl
  | cons t trees ih =>
    rw [treesLoopFeats, treesLoop]
    cases t.eval values with
    | error e => rfl
    | ok r => exact ih _ _ _

theorem cascadeLoopFeats_fst (sp : ShapePredictor F) (img : GrayImage F) (rect : Rectangle)
    (iter : Nat) (forests : List (List (RegressionTree F))) (current_shape : List (F × F))
    (feats : List Nat) (feat_offset : Nat) :
    (sp.cascadeLoopFeats svd img rect iter forests current_shape feats feat_offset).map
      Prod.fst = sp.cascadeLoop svd img rect iter forests current_shape := by
  induction forests generalizing iter current_shape feats feat_offset with
  | nil => rfl
  | cons forest forests ih =>
    rw [cascadeLoopFeats, cascadeLoop]
    cases access sp.anchor_idx iter with
    | error e => rfl
    | ok anchors =>
      rw [Except.ok_bind, Except.ok_bind]
      cases access sp.deltas iter with
      | error e => rfl
      | ok deltas =>
        rw [Except.ok_bind, Except.ok_bind]
        cases extractFeaturePixelValues svd img rect current_shape sp.initial_shape anchors
            deltas with
        | error e => rfl
        | ok values =>
          rw [Except.ok_bind, Except.ok_bind, ← treesLoopFeats_fst values forest current_shape feats
            feat_offset]
          cases treesLoopFeats values forest current_shape feats feat_offset with
          | error e => rfl
          | ok r => exact ih _ _ _ _

/-- What the constructor requires of the result of a training. That there is a landmark is what the
encoding of the pixels requires; that the leaves move every landmark is documented nowhere. -/
structure Trained (initial_shape : List (F × F)) (forests : List (List (RegressionTree F)))
    (pixel_coordinates : List (List (F × F))) : Prop where
  points : initial_shape ≠ []
  levels : forests.length = pixel_coordinates.length
  trees : ∀ i (h : i < forests.length), ∀ t ∈ forests[i],
    t.Sound pixel_coordinates[i].length initial_shape.length

/-- The predictor that the constructor makes. -/
def encoded (initial_shape : List (F × F)) (forests : List (List (RegressionTree F)))
    (pixel_coordinates : List (List (F × F))) : ShapePredictor F :=
  ⟨initial_shape, forests,
    pixel_coordinates.map fun pixels => pixels.map (nearestShapePoint initial_shape),
    pixel_coordinates.map fun pixels => pixels.map (wayTo initial_shape)⟩

variable {initial_shape : List (F × F)} {forests : List (List (RegressionTree F))}
  {pixel_coordinates : List (List (F × F))}

omit [FloorRing F] in
theorem create_ok (hne : initial_shape ≠ []) :
    create initial_shape forests pixel_coordinates =
      .ok (encoded initial_shape forests pixel_coordinates) := by
  rw [create, Except.mapM_eq_map fun pixels _ => encoding_ok hne pixels, Except.ok_bind, encoded,
    List.map_map, List.map_map]
  congr 2
  · exact List.map_congr_left fun pixels _ => by simp
  · exact List.map_congr_left fun pixels _ => by simp

omit [FloorRing F] in
/-- Each tree of a level adds its leaf to the shape and its leaf's number to the features. -/
theorem treesLoopFeats_ok {parts : Nat} {values : List F} {trees : List (RegressionTree F)}
    (htrees : ∀ t ∈ trees, t.Sound values.length parts) (hlen : current_shape.length = parts)
    (feats : List Nat) (feat_offset : Nat) :
    ∃ shape new, treesLoopFeats values trees current_shape feats feat_offset =
        .ok (shape, feats ++ new, feat_offset + (trees.map RegressionTree.numLeaves).sum) ∧
      shape.length = parts ∧ InBlocks feat_offset (trees.map RegressionTree.numLeaves) new := by
  induction trees generalizing current_shape feats feat_offset with
  | nil => exact ⟨current_shape, [], by simp [treesLoopFeats], hlen, trivial⟩
  | cons t trees ih =>
    obtain ⟨ht, hrest⟩ := List.forall_mem_cons.mp htrees
    obtain ⟨i, heval, hi, hleaf⟩ := ht.eval_eq rfl
    have hmoved : (addShape current_shape (t.tree.follow (RegressionTree.goesRight values))).length =
        parts := by
      rw [addShape, if_pos (hlen.trans hleaf.symm), List.length_zipWith]
      omega
    obtain ⟨shape, new, heq, hshape, hblocks⟩ := ih hrest hmoved (feats ++ [feat_offset + i])
      (feat_offset + t.numLeaves)
    refine ⟨shape, (feat_offset + i) :: new, ?_, hshape, ⟨by omega, by omega⟩, hblocks⟩
    rw [treesLoopFeats, heval, Except.ok_bind, heq, List.append_assoc, List.singleton_append,
      List.map_cons, List.sum_cons, Nat.add_assoc]

theorem cascadeLoopFeats_ok (htrained : Trained initial_shape forests pixel_coordinates)
    (img : GrayImage F) (rect : Rectangle) (iter : Nat) {rest : List (List (RegressionTree F))}
    (hrest : forests.drop iter = rest) (hlen : initial_shape.length = current_shape.length)
    (feats : List Nat) (feat_offset : Nat) :
    ∃ shape new, (encoded initial_shape forests pixel_coordinates).cascadeLoopFeats svd img rect
        iter rest current_shape feats feat_offset =
          .ok (shape, feats ++ new, feat_offset + (rest.flatten.map RegressionTree.numLeaves).sum) ∧
      shape.length = initial_shape.length ∧
      InBlocks feat_offset (rest.flatten.map RegressionTree.numLeaves) new := by
  induction rest generalizing iter current_shape feats feat_offset with
  | nil => exact ⟨current_shape, [], by simp [cascadeLoopFeats], hlen.symm, trivial⟩
  | cons forest rest ih =>
    have hforest : forests[iter]? = some forest := by
      rw [← List.head?_drop, hrest, List.head?_cons]
    have hnext : forests.drop (iter + 1) = rest := by rw [← List.tail_drop, hrest, List.tail_cons]
    obtain ⟨hiter, rfl⟩ := List.getElem?_eq_some_iff.mp hforest
    have hpixels : iter < pixel_coordinates.length := htrained.levels ▸ hiter
    have hanchors : access (encoded initial_shape forests pixel_coordinates).anchor_idx iter =
        .ok (pixel_coordinates[iter].map (nearestShapePoint initial_shape)) := by
      rw [encoded, access_of_lt (by rwa [List.length_map]), List.getElem_map]
    have hdeltas : access (encoded initial_shape forests pixel_coordinates).deltas iter =
        .ok (pixel_coordinates[iter].map (wayTo initial_shape)) := by
      rw [encoded, access_of_lt (by rwa [List.length_map]), List.getElem_map]
    have hsound : ∀ t ∈ forests[iter], t.Sound (pixel_coordinates[iter].map fun pixel =>
        img.intensity (pixelAt svd rect initial_shape current_shape pixel)).length
          initial_shape.length := by
      rw [List.length_map]
      exact htrained.trees iter hiter
    obtain ⟨shape, new, htrees, hshape, hblocks⟩ :=
      treesLoopFeats_ok hsound hlen.symm feats feat_offset
    obtain ⟨final, new', heq, hfinal, hblocks'⟩ := ih (iter + 1) hnext hshape.symm (feats ++ new)
      (feat_offset + (forests[iter].map RegressionTree.numLeaves).sum)
    have hextract := extract_ok svd htrained.points hlen img rect
      pixel_coordinates[iter]
    refine ⟨final, new ++ new', ?_, hfinal, ?_⟩
    · rw [cascadeLoopFeats, hanchors, Except.ok_bind, hdeltas, Except.ok_bind]
      simp only [encoded] at hextract ⊢
      rw [hextract, Except.ok_bind, htrees, Except.ok_bind]
      simp only [encoded] at heq
      rw [heq, List.append_assoc, List.flatten_cons, List.map_append, List.sum_append, Nat.add_assoc]
    · rw [List.flatten_cons, List.map_append]
      exact hblocks.append hblocks'

/-- A trained predictor reads nothing out of range on any image and rectangle, also when the
rectangle is not inside the image: it returns all landmarks, the same with and without the features,
and of every tree exactly one feature, the number of one of its leaves. -/
theorem predict_ok (htrained : Trained initial_shape forests pixel_coordinates) :
    ∃ sp, create initial_shape forests pixel_coordinates = .ok sp ∧
      ∀ (img : GrayImage F) (rect : Rectangle), ∃ parts feats,
        sp.predict svd img rect = .ok ⟨rect, parts⟩ ∧
        sp.predictFeats svd img rect = .ok (⟨rect, parts⟩, feats) ∧
        parts.length = sp.numParts ∧
        InBlocks 0 (forests.flatten.map RegressionTree.numLeaves) feats ∧
        feats.length = forests.flatten.length ∧ feats.Pairwise (· < ·) ∧
        ∀ f ∈ feats, f < sp.numFeatures := by
  refine ⟨_, create_ok htrained.points, fun img rect => ?_⟩
  obtain ⟨shape, feats, heq, hshape, hblocks⟩ := cascadeLoopFeats_ok svd
    htrained img rect 0 List.drop_zero rfl [] 0
  have hplain := cascadeLoopFeats_fst svd
    (encoded initial_shape forests pixel_coordinates) img rect 0 forests initial_shape [] 0
  rw [heq] at hplain
  refine ⟨(toParts rect shape).parts, feats, ?_, ?_, ?_, hblocks, ?_, hblocks.increasing, fun f hf => ?_⟩
  · rw [predict]
    exact (congrArg (Except.bind · _) hplain.symm).trans rfl
  · rw [predictFeats]
    exact (congrArg (Except.bind · _) heq).trans rfl
  · simpa [toParts, numParts, encoded] using hshape
  · rw [hblocks.length_eq, List.length_map]
  · have hlt := (hblocks.bounds f hf).2
    rw [Nat.zero_add, List.map_flatten, List.sum_flatten, List.map_map] at hlt
    exact hlt

/-- The decomposition of a diagonal matrix. -/
def svdOfDiagonal (m : Matrix (Fin 2) (Fin 2) ℚ) : Svd ℚ := ⟨1, m, 1⟩

/-- A tree that compares two pixels and moves two landmarks. -/
def oneTree : RegressionTree ℚ := ⟨[⟨0, 1, 5⟩], [[(1, 0), (0, 0)], [(0, 0), (0, 1)]]⟩

/-- Two such trees at one level. -/
theorem predict_ok_twoTrees :
    ∃ sp, create [(0, 0), (1, 0)] [[oneTree, oneTree]] [[(0, 1), (1, 0)]] = .ok sp ∧
      ∀ (img : GrayImage ℚ) (rect : Rectangle), ∃ parts feats,
        sp.predict svdOfDiagonal img rect = .ok ⟨rect, parts⟩ ∧
        sp.predictFeats svdOfDiagonal img rect = .ok (⟨rect, parts⟩, feats) ∧
        parts.length = sp.numParts ∧
        InBlocks 0 ([[oneTree, oneTree]].flatten.map RegressionTree.numLeaves) feats ∧
        feats.length = [[oneTree, oneTree]].flatten.length ∧ feats.Pairwise (· < ·) ∧
        ∀ f ∈ feats, f < sp.numFeatures := by
  refine predict_ok _ ⟨by simp, rfl, fun i hi t ht => ?_⟩
  obtain rfl : i = 0 := Nat.lt_one_iff.mp hi
  obtain rfl : t = oneTree := by simpa using ht
  exact ⟨⟨1, rfl⟩, rfl, by simp [oneTree], by simp [oneTree]⟩

end ShapePredictor

/-! ### A shifted image -/

/-- `translate_rect` -/
def Rectangle.translate (rect : Rectangle) (v : Int × Int) : Rectangle :=
  ⟨rect.left + v.1, rect.top + v.2, rect.right + v.1, rect.bottom + v.2⟩

def FullObjectDetection.translate (d : FullObjectDetection) (v : Int × Int) : FullObjectDetection :=
  ⟨d.rect.translate v, d.parts.map (· + v)⟩

section Shift
variable [IsStrictOrderedRing F]

omit [LinearOrder F] [FloorRing F] [IsStrictOrderedRing F] in
/-- The transform for three corners of the unit square. -/
theorem findAffineTransform_unit (to_points : Fin 3 → F × F) (p : F × F) :
    (findAffineTransform ![(0, 0), (1, 0), (1, 1)] to_points).apply p =
      p.1 • (to_points 1 - to_points 0) + p.2 • (to_points 2 - to_points 1) + to_points 0 := by
  have hp : (Matrix.of ![fun i => ((![(0, 0), (1, 0), (1, 1)] : Fin 3 → F × F) i).1,
      fun i => ((![(0, 0), (1, 0), (1, 1)] : Fin 3 → F × F) i).2, fun _ => (1 : F)]) =
        !![0, 1, 1; 0, 0, 1; 1, 1, 1] := by
    ext i j
    fin_cases i <;> fin_cases j <;> rfl
  have hinverse : (!![0, 1, 1; 0, 0, 1; 1, 1, 1] : Matrix (Fin 3) (Fin 3) F).det⁻¹ •
      (!![0, 1, 1; 0, 0, 1; 1, 1, 1] : Matrix (Fin 3) (Fin 3) F).adjugate =
        !![-1, 0, 1; 1, -1, 0; 0, 1, 0] := by
    rw [Matrix.det_fin_three, Matrix.adjugate_fin_three_of]
    ext i j
    fin_cases i <;> fin_cases j <;> simp
  rw [findAffineTransform]
  simp only [hp, hinverse, PointTransformAffine.apply, timesVector]
  ext
  · simp [Matrix.mul_apply, Fin.sum_univ_three, Fin.last, Matrix.vecHead, Matrix.vecTail]
    ring
  · simp [Matrix.mul_apply, Fin.sum_univ_three, Fin.last, Matrix.vecHead, Matrix.vecTail]
    ring

omit [LinearOrder F] [FloorRing F] [IsStrictOrderedRing F] in
theorem unnormalizingTform_apply (rect : Rectangle) (p : F × F) :
    (unnormalizingTform rect).apply p =
      (p.1 * (rect.right - rect.left) + rect.left, p.2 * (rect.bottom - rect.top) + rect.top) := by
  rw [unnormalizingTform, findAffineTransform_unit]
  ext
  · simp
  · simp

theorem toPoint_translate (rect : Rectangle) (v : Int × Int) (p : F × F) :
    toPoint ((unnormalizingTform (rect.translate v)).apply p) =
      toPoint ((unnormalizingTform rect).apply p) + v := by
  have hround (a b : F) (n : Int) (h : b = a + n) :
      ⌊b + ((1 / 2 : ℚ) : F)⌋ = ⌊a + ((1 / 2 : ℚ) : F)⌋ + n := by
    rw [h, add_right_comm, Int.floor_add_intCast]
  rw [unnormalizingTform_apply, unnormalizingTform_apply, toPoint, toPoint]
  ext
  · apply hround
    simp only [Rectangle.translate]
    push_cast
    ring
  · apply hround
    simp only [Rectangle.translate]
    push_cast
    ring

variable {img img' : GrayImage F} {v : Int × Int}

/-- The features are those of the unshifted image. -/
theorem extract_shift (himg : ∀ p, img'.intensity (p + v) = img.intensity p) (rect : Rectangle)
    (current_shape reference_shape : List (F × F)) (anchors : List Nat) (deltas : List (F × F)) :
    extractFeaturePixelValues svd img' (rect.translate v) current_shape reference_shape anchors
      deltas = extractFeaturePixelValues svd img rect current_shape reference_shape anchors
        deltas := by
  rw [extractFeaturePixelValues, extractFeaturePixelValues]
  simp only [toPoint_translate, himg]

namespace ShapePredictor

theorem cascadeLoop_shift (himg : ∀ p, img'.intensity (p + v) = img.intensity p)
    (sp : ShapePredictor F) (rect : Rectangle) (iter : Nat) (forests : List (List (RegressionTree F)))
    (current_shape : List (F × F)) :
    sp.cascadeLoop svd img' (rect.translate v) iter forests current_shape =
      sp.cascadeLoop svd img rect iter forests current_shape := by
  induction forests generalizing iter current_shape with
  | nil => rfl
  | cons forest forests ih => simp only [cascadeLoop, extract_shift svd himg, ih]

/-- When the image holds the same picture at a shifted place, with black where there is none, and the
rectangle is shifted with it, the landmarks are shifted with it. -/
theorem predict_shift (himg : ∀ p, img'.intensity (p + v) = img.intensity p) (sp : ShapePredictor F)
    (rect : Rectangle) :
    sp.predict svd img' (rect.translate v) =
      (sp.predict svd img rect).map fun d => d.translate v := by
  rw [predict, predict, cascadeLoop_shift svd himg]
  cases sp.cascadeLoop svd img rect 0 sp.forests sp.initial_shape with
  | error e => rfl
  | ok shape =>
    have hparts : (toParts (rect.translate v) shape) = (toParts rect shape).translate v := by
      simp [toParts, FullObjectDetection.translate, toPoint_translate]
    exact congrArg Except.ok hparts

end ShapePredictor

omit [LinearOrder F] [FloorRing F] [IsStrictOrderedRing F] in
theorem intensity_of_outside {img : GrayImage F} {p : Int × Int}
    (h : ¬ (0 ≤ p.1 ∧ p.1 < img.nc ∧ 0 ≤ p.2 ∧ p.2 < img.nr)) : img.intensity p = 0 := by
  refine dif_neg fun hc => h ?_
  have hp := Rectangle.mem_pixels.mp (Rectangle.contains_iff.mp hc)
  simp only [GrayImage.area] at hp
  omega

/-- The image on a larger black one, with `x` columns on its left and `y` rows above it. -/
def onBlack (img : GrayImage F) (x y : Nat) : GrayImage F where
  nr := img.nr + y
  nc := img.nc + x
  pixel r c := img.intensity (c - x, r - y)

omit [LinearOrder F] [FloorRing F] [IsStrictOrderedRing F] in
theorem intensity_onBlack (img : GrayImage F) (x y : Nat) (p : Int × Int) :
    (onBlack img x y).intensity (p + ((x : Int), (y : Int))) = img.intensity p := by
  by_cases h : 0 ≤ p.1 + x ∧ p.1 < img.nc ∧ 0 ≤ p.2 + y ∧ p.2 < img.nr
  · have hc : (onBlack img x y).area.contains (p + ((x : Int), (y : Int))) = true := by
      rw [Rectangle.contains_iff, Rectangle.mem_pixels]
      simp only [GrayImage.area, onBlack, Prod.fst_add, Prod.snd_add]
      push_cast
      omega
    refine (dif_pos hc).trans (congrArg img.intensity ?_)
    ext
    · simp only [Prod.fst_add]
      omega
    · simp only [Prod.snd_add]
      omega
  · rw [intensity_of_outside, intensity_of_outside]
    · omega
    · simp only [onBlack, Prod.fst_add, Prod.snd_add]
      push_cast
      omega

/-- A white pixel, and the same with a black border above and on its left. -/
theorem ShapePredictor.predict_shift_onBlack :
    let sp : ShapePredictor ℚ := encoded [(0, 0), (1, 0)] [[oneTree]] [[(0, 1), (1, 0)]]
    let img : GrayImage ℚ := ⟨1, 1, fun _ _ => 255⟩
    let v : Int × Int := (((3 : Nat) : Int), ((2 : Nat) : Int))
    sp.predict svdOfDiagonal (onBlack img 3 2) (Rectangle.translate ⟨0, 0, 1, 1⟩ v) =
      (sp.predict svdOfDiagonal img ⟨0, 0, 1, 1⟩).map fun d => d.translate v :=
  predict_shift _ (fun p => intensity_onBlack _ 3 2 p) _ _

end Shift

/-! ### A moved shape -/

/-- When the current shape is the reference shape turned, scaled and shifted, every pixel is looked up
where this carries it. -/
theorem extract_moved [IsStrictOrderedRing F] {initial_shape : List (F × F)} {p q : F × F}
    (hp : p ∈ initial_shape) (hq : q ∈ initial_shape) (hpq : p ≠ q) {x y : F} {b : F × F}
    (hsvd : (svd (covOf initial_shape (initial_shape.map fun p => timesVector (spiral x y) p + b))).Of
      (covOf initial_shape (initial_shape.map fun p => timesVector (spiral x y) p + b)))
    (img : GrayImage F) (rect : Rectangle) (pixel_coordinates : List (F × F)) :
    ∃ encoding, createShapeRelativeEncoding initial_shape pixel_coordinates = .ok encoding ∧
      extractFeaturePixelValues svd img rect
        (initial_shape.map fun p => timesVector (spiral x y) p + b) initial_shape
          (encoding.map Prod.fst) (encoding.map Prod.snd) = .ok (pixel_coordinates.map fun pixel =>
            img.intensity (toPoint
              ((unnormalizingTform rect).apply (timesVector (spiral x y) pixel + b)))) := by
  have hne : initial_shape ≠ [] := List.ne_nil_of_mem hp
  have htwo : initial_shape.length ≠ 1 := by
    intro h1
    obtain ⟨r, rfl⟩ := List.length_eq_one_iff.mp h1
    exact hpq ((List.mem_singleton.mp hp).trans (List.mem_singleton.mp hq).symm)
  refine ⟨_, encoding_ok hne pixel_coordinates, ?_⟩
  have htform : tformBetween svd initial_shape
      (initial_shape.map fun p => timesVector (spiral x y) p + b) = spiral x y := by
    rw [tformBetween, if_neg htwo, findSimilarityTransform_moved hp hq hpq rfl hsvd]
  have hadd (p q : F × F) : timesVector (spiral x y) (p - q) + (timesVector (spiral x y) q + b) =
      timesVector (spiral x y) p + b := by
    ext
    · simp only [timesVector, Prod.fst_add, Prod.fst_sub, Prod.snd_sub]
      ring
    · simp only [timesVector, Prod.snd_add, Prod.fst_sub, Prod.snd_sub]
      ring
  have hlen : initial_shape.length =
      (initial_shape.map fun p => timesVector (spiral x y) p + b).length := by
    rw [List.length_map]
  have hextract := extract_ok svd hne hlen img rect pixel_coordinates
  rw [List.map_map, List.map_map]
  refine hextract.trans (congrArg Except.ok (List.map_congr_left fun pixel _ => ?_))
  have hlt := nearestShapePoint_lt hne pixel
  rw [pixelAt, htform, List.getD_eq_getElem _ _ (by rwa [List.length_map]), List.getElem_map, wayTo,
    List.getD_eq_getElem _ _ hlt, hadd]

/-- Two landmarks after a quarter turn and a shift. -/
theorem extract_moved_quarter :
    ∃ encoding, createShapeRelativeEncoding [(0, 0), (2, 0)] [(1, 1)] = .ok encoding ∧
      extractFeaturePixelValues quarterSvd (⟨1, 1, fun _ _ => 255⟩ : GrayImage ℚ) ⟨0, 0, 1, 1⟩
        ([(0, 0), (2, 0)].map fun p => timesVector (spiral 0 1) p + (1, 0)) [(0, 0), (2, 0)]
          (encoding.map Prod.fst) (encoding.map Prod.snd) = .ok ([(1, 1)].map fun pixel =>
            (⟨1, 1, fun _ _ => 255⟩ : GrayImage ℚ).intensity (toPoint
              ((unnormalizingTform ⟨0, 0, 1, 1⟩).apply
                (timesVector (spiral (0 : ℚ) 1) pixel + (1, 0))))) := by
  refine extract_moved quarterSvd (p := (0, 0)) (q := (2, 0)) (by simp) (by simp) (by decide)
    ⟨?_, ?_, ?_, isDiag_diagonal _, ?_⟩ _ _ _
  · decide +kernel
  · decide +kernel
  · decide +kernel
  · decide +kernel

end Rounding

end FaceRecognition
