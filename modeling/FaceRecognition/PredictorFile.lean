import FaceRecognition.SerializeExact
import FaceRecognition.ShapePredictor

/-! The file of a shape predictor: `serialize` and `deserialize` of
`dlib/image_processing/shape_predictor.h`. The numbers are of type `float`, and the points of a shape
follow each other in one column. -/
namespace FaceRecognition.Serialize
open ByteStream Reader BinaryFloat

/-! ### What is stored -/

structure StoredTree where
  splits : List (SplitFeature Value)
  leaf_values : List (List Value)

structure StoredPredictor where
  initial_shape : List Value
  forests : List (List StoredTree)
  anchor_idx : List (List Nat)
  deltas : List (List (Value × Value))

section File
variable (readText : List UInt8 → Option (Value × List UInt8))

def serializeFloat : Value → List UInt8 := serializeFloatingPoint float

def deserializeFloat : In Value := deserializeFloatingPoint readText float

def serializeIndex (idx : Nat) : List UInt8 := packInt .ulong idx

def deserializeIndex : In Nat := (unpackInt .ulong).bind fun idx => Reader.pure idx.toNat

/-- `serialize` of a `split_feature` -/
def serializeSplit (item : SplitFeature Value) : List UInt8 :=
  serializeIndex item.idx1 ++ (serializeIndex item.idx2 ++ serializeFloat item.thresh)

def deserializeSplit : In (SplitFeature Value) :=
  deserializeIndex.bind fun idx1 => deserializeIndex.bind fun idx2 =>
    (deserializeFloat readText).bind fun thresh => Reader.pure ⟨idx1, idx2, thresh⟩

/-- `serialize` of a `regression_tree` -/
def serializeTree (item : StoredTree) : List UInt8 :=
  serializeVector serializeSplit item.splits ++
    serializeVector (serializeColumn serializeFloat) item.leaf_values

def deserializeTree : In StoredTree :=
  (deserializeVector (deserializeSplit readText)).bind fun splits =>
    (deserializeVector (deserializeColumn (deserializeFloat readText))).bind fun leaf_values =>
      Reader.pure ⟨splits, leaf_values⟩

/-- `serialize` of a `shape_predictor`, which starts with the version. -/
def serializeShapePredictor (item : StoredPredictor) : List UInt8 :=
  packInt .int 1 ++ (serializeColumn serializeFloat item.initial_shape ++
    (serializeVector (serializeVector serializeTree) item.forests ++
      (serializeVector (serializeVector serializeIndex) item.anchor_idx ++
        serializeVector (serializeVector (serializePoint serializeFloat)) item.deltas)))

def deserializeShapePredictor : In StoredPredictor :=
  (unpackInt .int).bind fun version =>
    if version ≠ 1 then
      fail (.serialization "Unexpected version found while deserializing dlib::shape_predictor.")
    else (deserializeColumn (deserializeFloat readText)).bind fun initial_shape =>
      (deserializeVector (deserializeVector (deserializeTree readText))).bind fun forests =>
        (deserializeVector (deserializeVector deserializeIndex)).bind fun anchor_idx =>
          (deserializeVector (deserializeVector (deserializePoint (deserializeFloat readText)))).bind
            fun deltas => Reader.pure ⟨initial_shape, forests, anchor_idx, deltas⟩

end File

/-! ### Predictors and what is stored of them -/

def storeShape (shape : List (ℚ × ℚ)) : List Value :=
  shape.flatMap fun p => [.finite p.1, .finite p.2]

def storeTree (t : RegressionTree ℚ) : StoredTree where
  splits := t.splits.map fun s => ⟨s.idx1, s.idx2, .finite s.thresh⟩
  leaf_values := t.leaf_values.map storeShape

def store (sp : ShapePredictor ℚ) : StoredPredictor where
  initial_shape := storeShape sp.initial_shape
  forests := sp.forests.map fun forest => forest.map storeTree
  anchor_idx := sp.anchor_idx
  deltas := sp.deltas.map fun deltas => deltas.map fun p => (.finite p.1, .finite p.2)

/-- The points of a column of numbers. -/
def loadShape : List Value → Option (List (ℚ × ℚ))
  | [] => some []
  | .finite x :: .finite y :: shape => (loadShape shape).map fun points => (x, y) :: points
  | _ => none

def loadSplit : SplitFeature Value → Option (SplitFeature ℚ)
  | ⟨idx1, idx2, .finite thresh⟩ => some ⟨idx1, idx2, thresh⟩
  | _ => none

def loadTree (t : StoredTree) : Option (RegressionTree ℚ) :=
  (t.splits.mapM loadSplit).bind fun splits =>
    (t.leaf_values.mapM loadShape).bind fun leaf_values => some ⟨splits, leaf_values⟩

def loadPoint : Value × Value → Option (ℚ × ℚ)
  | (.finite x, .finite y) => some (x, y)
  | _ => none

/-- The predictor of what is stored, when all its numbers are finite and come in pairs. -/
def load (p : StoredPredictor) : Option (ShapePredictor ℚ) :=
  (loadShape p.initial_shape).bind fun initial_shape =>
    (p.forests.mapM (List.mapM loadTree)).bind fun forests =>
      (p.deltas.mapM (List.mapM loadPoint)).bind fun deltas =>
        some ⟨initial_shape, forests, p.anchor_idx, deltas⟩

theorem mapM_map_eq_some {α β : Type*} {f : α → β} {g : β → Option α} {l : List α}
    (h : ∀ a ∈ l, g (f a) = some a) : (l.map f).mapM g = some l := by
  induction l with
  | nil => rfl
  | cons a l ih =>
    have hrest := ih fun b hb => h b (List.mem_cons_of_mem a hb)
    rw [List.map_cons, List.mapM_cons, h a List.mem_cons_self, hrest]
    rfl

theorem loadShape_storeShape (shape : List (ℚ × ℚ)) : loadShape (storeShape shape) = some shape := by
  induction shape with
  | nil => rfl
  | cons p shape ih =>
    have hcons : storeShape (p :: shape) = .finite p.1 :: .finite p.2 :: storeShape shape := rfl
    rw [hcons, loadShape, ih]
    rfl

theorem loadTree_storeTree (t : RegressionTree ℚ) : loadTree (storeTree t) = some t := by
  have hsplits := mapM_map_eq_some (f := fun s : SplitFeature ℚ =>
    (⟨s.idx1, s.idx2, .finite s.thresh⟩ : SplitFeature Value)) (g := loadSplit) (l := t.splits)
      fun _ _ => rfl
  have hleaves := mapM_map_eq_some (l := t.leaf_values) fun shape _ => loadShape_storeShape shape
  rw [loadTree, storeTree, hsplits, hleaves]
  rfl

/-- A predictor is what is loaded of what is stored of it. -/
theorem load_store (sp : ShapePredictor ℚ) : load (store sp) = some sp := by
  have hforests := mapM_map_eq_some (f := List.map storeTree) (g := List.mapM loadTree)
    (l := sp.forests) fun forest _ => mapM_map_eq_some fun t _ => loadTree_storeTree t
  have hdeltas := mapM_map_eq_some (f := fun deltas : List (ℚ × ℚ) =>
    deltas.map fun p => ((.finite p.1, .finite p.2) : Value × Value))
      (g := List.mapM loadPoint) (l := sp.deltas) fun deltas _ =>
        mapM_map_eq_some fun _ _ => rfl
  rw [load, store, loadShape_storeShape, hforests, hdeltas]
  rfl

/-! ### Reading what was written -/

/-- All the numbers are of type `float`, and all the indices and sizes fit into their types. -/
structure Storable (sp : ShapePredictor ℚ) : Prop where
  shape_length : 2 * sp.initial_shape.length < 2 ^ 63
  shape : ∀ p ∈ sp.initial_shape, float.Number p.1 ∧ float.Number p.2
  forests_length : sp.forests.length < 2 ^ 64
  forest_length : ∀ forest ∈ sp.forests, forest.length < 2 ^ 64
  splits_length : ∀ forest ∈ sp.forests, ∀ t ∈ forest, t.splits.length < 2 ^ 64
  splits : ∀ forest ∈ sp.forests, ∀ t ∈ forest, ∀ s ∈ t.splits,
    s.idx1 < 2 ^ 64 ∧ s.idx2 < 2 ^ 64 ∧ float.Number s.thresh
  leaves_length : ∀ forest ∈ sp.forests, ∀ t ∈ forest, t.leaf_values.length < 2 ^ 64
  leaf_length : ∀ forest ∈ sp.forests, ∀ t ∈ forest, ∀ leaf ∈ t.leaf_values, 2 * leaf.length < 2 ^ 63
  leaves : ∀ forest ∈ sp.forests, ∀ t ∈ forest, ∀ leaf ∈ t.leaf_values, ∀ p ∈ leaf,
    float.Number p.1 ∧ float.Number p.2
  anchors_length : sp.anchor_idx.length < 2 ^ 64
  anchor_length : ∀ anchors ∈ sp.anchor_idx, anchors.length < 2 ^ 64
  anchors : ∀ anchors ∈ sp.anchor_idx, ∀ idx ∈ anchors, idx < 2 ^ 64
  deltas_length : sp.deltas.length < 2 ^ 64
  delta_length : ∀ deltas ∈ sp.deltas, deltas.length < 2 ^ 64
  deltas : ∀ deltas ∈ sp.deltas, ∀ p ∈ deltas, float.Number p.1 ∧ float.Number p.2

section Exact
variable (readText : List UInt8 → Option (Value × List UInt8))

theorem deserializeFloat_exact {q : ℚ} (h : float.Number q) :
    Exact IsSerializationError (deserializeFloat readText) (serializeFloat (.finite q)) (.finite q) :=
  float_exact portable_float h

theorem deserializeIndex_exact {idx : Nat} (h : idx < 2 ^ 64) :
    Exact IsSerializationError deserializeIndex (serializeIndex idx) idx := by
  have hrange := inRange_ulong h
  exact (unpackInt_exact hrange hrange).bind_pure (f := Int.toNat)

theorem deserializeShape_exact {shape : List (ℚ × ℚ)} (hlen : 2 * shape.length < 2 ^ 63)
    (h : ∀ p ∈ shape, float.Number p.1 ∧ float.Number p.2) :
    Exact IsSerializationError (deserializeColumn (deserializeFloat readText))
      (serializeColumn serializeFloat (storeShape shape)) (storeShape shape) := by
  have hlength : (storeShape shape).length = 2 * shape.length := by
    rw [storeShape, List.length_flatMap]
    simp [mul_comm]
  refine column_exact (by rwa [hlength]) fun v hv => ?_
  obtain ⟨p, hp, hmem⟩ := List.mem_flatMap.mp hv
  obtain ⟨h1, h2⟩ := h p hp
  rcases List.mem_pair.mp hmem with rfl | rfl
  · exact deserializeFloat_exact readText h1
  · exact deserializeFloat_exact readText h2

theorem deserializeSplit_exact {s : SplitFeature ℚ}
    (h : s.idx1 < 2 ^ 64 ∧ s.idx2 < 2 ^ 64 ∧ float.Number s.thresh) :
    Exact IsSerializationError (deserializeSplit readText)
      (serializeSplit ⟨s.idx1, s.idx2, .finite s.thresh⟩) ⟨s.idx1, s.idx2, .finite s.thresh⟩ :=
  (deserializeIndex_exact h.1).bind ((deserializeIndex_exact h.2.1).bind
    (deserializeFloat_exact readText h.2.2).bind_pure)

/-- A vector whose elements are stored one by one. -/
theorem vector_map_exact {α β : Type*} {serialize : β → List UInt8} {deserialize : In β} {f : α → β}
    {item : List α} (hlen : item.length < 2 ^ 64)
    (h : ∀ a ∈ item, Exact IsSerializationError deserialize (serialize (f a)) (f a)) :
    Exact IsSerializationError (deserializeVector deserialize) (serializeVector serialize (item.map f))
      (item.map f) := by
  refine vector_exact (by rwa [List.length_map]) fun b hb => ?_
  obtain ⟨a, ha, rfl⟩ := List.mem_map.mp hb
  exact h a ha

/-- What is stored of a predictor is read back, and a file that is cut off is a serialization error. -/
theorem deserializeShapePredictor_exact {sp : ShapePredictor ℚ} (h : Storable sp) :
    Exact IsSerializationError (deserializeShapePredictor readText) (serializeShapePredictor (store sp))
      (store sp) := by
  have hversion : IntType.int.InRange 1 := by
    rw [IntType.InRange]
    decide
  have htree : ∀ forest ∈ sp.forests, ∀ t ∈ forest, Exact IsSerializationError
      (deserializeTree readText) (serializeTree (storeTree t)) (storeTree t) := by
    intro forest hforest t ht
    have hsplits := vector_map_exact (h.splits_length forest hforest t ht) fun s hs =>
      deserializeSplit_exact readText (h.splits forest hforest t ht s hs)
    have hleaves := vector_map_exact (h.leaves_length forest hforest t ht) fun leaf hleaf =>
      deserializeShape_exact readText (h.leaf_length forest hforest t ht leaf hleaf)
        (h.leaves forest hforest t ht leaf hleaf)
    exact hsplits.bind hleaves.bind_pure
  have hforests := vector_map_exact h.forests_length fun forest hforest =>
    vector_map_exact (h.forest_length forest hforest) fun t ht => htree forest hforest t ht
  have hanchors := vector_exact h.anchors_length fun anchors hanchors =>
    vector_exact (h.anchor_length anchors hanchors) fun idx hidx =>
      deserializeIndex_exact (h.anchors anchors hanchors idx hidx)
  have hdeltas := vector_map_exact h.deltas_length fun deltas hdeltas =>
    vector_map_exact (h.delta_length deltas hdeltas) fun p hp =>
      point_exact (Value.finite p.1, Value.finite p.2)
        (deserializeFloat_exact readText (h.deltas deltas hdeltas p hp).1)
        (deserializeFloat_exact readText (h.deltas deltas hdeltas p hp).2)
  refine (unpackInt_exact hversion hversion).bind ?_
  rw [if_neg (not_not.mpr rfl)]
  exact (deserializeShape_exact readText h.shape_length h.shape).bind
    (hforests.bind (hanchors.bind hdeltas.bind_pure))

end Exact

/-- A predictor whose numbers are of type `float` is the same after it was saved and loaded; behind it,
the file may go on. A file that ends too early is always a serialization error. -/
theorem load_saved (readText : List UInt8 → Option (Value × List UInt8)) {sp : ShapePredictor ℚ}
    (h : Storable sp) :
    (∀ rest, ∃ p, deserializeShapePredictor readText (serializeShapePredictor (store sp) ++ rest) =
      .ok (p, rest) ∧ load p = some sp) ∧
    ∀ cut, cut <+: serializeShapePredictor (store sp) → cut ≠ serializeShapePredictor (store sp) →
      ∃ info, deserializeShapePredictor readText cut = .error (.serialization info) := by
  have hexact := deserializeShapePredictor_exact readText h
  refine ⟨fun rest => ⟨store sp, hexact.reads rest, load_store sp⟩, fun cut hcut hne => ?_⟩
  obtain ⟨e, he, info, rfl⟩ := hexact.fails cut hcut hne
  exact ⟨info, he⟩

/-- One landmark and one tree. -/
def smallPredictor : ShapePredictor ℚ :=
  ⟨[(0, -3)], [[⟨[⟨0, 0, 5⟩], [[(1, 0)], [(0, 1)]]⟩]], [[0]], [[(1, 0)]]⟩

theorem smallPredictor_storable : Storable smallPredictor := by
  have h0 : float.Number ((0 : Int) : ℚ) := Format.number_intCast (by decide)
  have h1 : float.Number ((1 : Int) : ℚ) := Format.number_intCast (by decide)
  have h3 : float.Number ((-3 : Int) : ℚ) := Format.number_intCast (by decide)
  have h5 : float.Number ((5 : Int) : ℚ) := Format.number_intCast (by decide)
  norm_num at h0 h1 h3 h5
  constructor <;> simp [smallPredictor, h0, h1, h3, h5]

theorem load_saved_small :
    (∀ rest, ∃ p, deserializeShapePredictor (fun _ => none)
      (serializeShapePredictor (store smallPredictor) ++ rest) = .ok (p, rest) ∧
        load p = some smallPredictor) ∧
    ∀ cut, cut <+: serializeShapePredictor (store smallPredictor) →
      cut ≠ serializeShapePredictor (store smallPredictor) →
        ∃ info, deserializeShapePredictor (fun _ => none) cut = .error (.serialization info) :=
  load_saved _ smallPredictor_storable

end FaceRecognition.Serialize
