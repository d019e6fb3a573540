import FaceRecognition.Events
import FaceRecognition.CropFaceImg
import FaceRecognition.CropSave

/-! `crop`: every face of every image on the command line is cropped and saved under the
next free number. What the program does is a list of events; an image without a face and
every exception end the whole run. -/
namespace FaceRecognition
open CppString

/-- What `crop` relies on; `imread` includes the conversion to a dlib image. -/
structure CropEnv (W Mat Rectangle : Type*) where
  fs : FileSystem W
  cv : OpenCV Mat
  deserialize : Except StdException Unit
  imread : W → Str → Except StdException Mat
  pyramidUp : Mat → Mat
  detector : Mat → Except StdException (List Rectangle)
  shapePredictor : Mat → Rectangle → Except StdException Shape
  unlink : W → Str → W
  imwrite : W → Str → Mat → Except StdException Bool × W

variable {W Mat Rectangle : Type*}

/-- The mean of the six landmarks of an eye. -/
noncomputable def eyeLoc (shape : Shape) (first : Nat) : Point2f :=
  ⟨((List.range' first 6).map fun i => ((shape i).1 : ℝ)).sum / 6,
    ((List.range' first 6).map fun i => ((shape i).2 : ℝ)).sum / 6⟩

noncomputable def cropFace (cv : OpenCV Mat) (img : Mat) (shape : Shape) : Printing StdException Mat :=
  cropFaceImagebyEYE cv img (eyeLoc shape 36) (eyeLoc shape 42) 300 300 0.4 0.38

def saveLine (path : Str) (files : Nat) : Str :=
  "save ".toList ++ path ++ "       ".toList ++ CppString.toString files

def SaveFailure.stop : SaveFailure → Stop
  | .thrown e => .thrown e
  | .intOverflow => .undefined

/-- One crop is numbered, announced and written; `said` was printed before. -/
def saveFace (env : CropEnv W Mat Rectangle) (output : Str) (said : List BatchEvent) (w : W)
    (faceimg : Mat) : Batch.Outcome Stop W BatchEvent :=
  let listing := getFiles env.fs w output dotPng
  match saveNumber listing.2 with
  | .error e => ⟨said, listing.1, some e.stop⟩
  | .ok k =>
    let path := numberedPath output k
    let saved := said ++ [.result (saveLine path listing.2.length)]
    match env.imwrite listing.1 path faceimg with
    | (.ok true, w) => ⟨saved ++ [.wrote path], w, none⟩
    | (.ok false, w) => ⟨saved, w, none⟩
    | (.error e, w) => ⟨saved, w, some (.thrown e)⟩

/-- The body of the loop over the faces of an image. -/
noncomputable def faceStep (env : CropEnv W Mat Rectangle) (output : Str) (img : Mat) (w : W)
    (shape : Shape) : Batch.Outcome Stop W BatchEvent :=
  let crop := cropFace env.cv img shape
  let said := crop.lines.map BatchEvent.printed
  match crop.result with
  | .error e => ⟨said, w, some (.thrown e)⟩
  | .ok faceimg => saveFace env output said w faceimg

/-- The body of the loop over the images. -/
noncomputable def imageStep (env : CropEnv W Mat Rectangle) (output : Str) (w : W) (file : Str) :
    Batch.Outcome Stop W BatchEvent :=
  let processing := BatchEvent.printed ("processing image ".toList ++ file)
  match env.imread w file with
  | .error e => ⟨[processing], w, some (.thrown e)⟩
  | .ok faceimg =>
    let img := env.pyramidUp faceimg
    match env.detector img with
    | .error e => ⟨[processing], w, some (.thrown e)⟩
    | .ok [] => ⟨[processing, .deleted file], env.unlink w file, some (.returned (-1))⟩
    | .ok (det :: dets) =>
      let checking := BatchEvent.printed "process checking".toList
      match (det :: dets).mapM (env.shapePredictor img) with
      | .error e => ⟨[processing, checking], w, some (.thrown e)⟩
      | .ok shapes =>
        let faces := Batch.run (faceStep env output img) w shapes
        { faces with events := processing :: checking :: faces.events }

/-- `argv` without the name of the program. -/
noncomputable def cropMain (env : CropEnv W Mat Rectangle) (w : W) (argv : List Str) :
    Batch.Outcome Stop W BatchEvent :=
  match argv with
  | [] => ⟨[.printed "call like this".toList, .printed "./crop out_dir input_img_files".toList], w,
      some (.returned 0)⟩
  | output :: images =>
    match env.deserialize with
    | .error e => catchException ⟨[], w, some (.thrown e)⟩
    | .ok () => catchException (Batch.run (imageStep env output) w images)

/-! ### When a step goes on and when it shows -/

section Conditions
variable (env : CropEnv W Mat Rectangle) (output : Str)

/-- The face is cropped, a number is found and `imwrite` does not throw. -/
def FaceGoesOn (img : Mat) (w : W) (shape : Shape) : Prop :=
  ∃ faceimg k, (cropFace env.cv img shape).result = .ok faceimg ∧
    saveNumber (getFiles env.fs w output dotPng).2 = .ok k ∧
    ∃ written, (env.imwrite (getFiles env.fs w output dotPng).1 (numberedPath output k) faceimg).1 =
      .ok written

/-- The face is cropped and a number is found, so that the save is announced. -/
def FaceShows (img : Mat) (w : W) (shape : Shape) : Prop :=
  ∃ faceimg k, (cropFace env.cv img shape).result = .ok faceimg ∧
    saveNumber (getFiles env.fs w output dotPng).2 = .ok k

/-- The image can be decoded, shows at least one face, and all its faces go on. -/
def ImageGoesOn (w : W) (file : Str) : Prop :=
  ∃ faceimg det dets shapes, env.imread w file = .ok faceimg ∧
    env.detector (env.pyramidUp faceimg) = .ok (det :: dets) ∧
    (det :: dets).mapM (env.shapePredictor (env.pyramidUp faceimg)) = .ok shapes ∧
    Batch.Each (faceStep env output (env.pyramidUp faceimg))
      (FaceGoesOn env output (env.pyramidUp faceimg)) w shapes

/-- The image can be decoded and has no face, so that it is deleted, or its first face shows. -/
def ImageShows (w : W) (file : Str) : Prop :=
  ∃ faceimg dets, env.imread w file = .ok faceimg ∧
    env.detector (env.pyramidUp faceimg) = .ok dets ∧
    (dets = [] ∨ ∃ shapes, dets.mapM (env.shapePredictor (env.pyramidUp faceimg)) = .ok shapes ∧
      ∃ shape ∈ shapes.head?, FaceShows env output (env.pyramidUp faceimg) w shape)

/-- The number decides whether the save is announced, `imwrite` whether the run goes on. -/
theorem saveFace_cases (said : List BatchEvent) (w : W) (faceimg : Mat) :
    (∀ k, saveNumber (getFiles env.fs w output dotPng).2 = .ok k →
      ((saveFace env output said w faceimg).stop = none ↔
        ∃ written, (env.imwrite (getFiles env.fs w output dotPng).1 (numberedPath output k) faceimg).1 =
          .ok written) ∧
      Batch.effects BatchEvent.isEffect (saveFace env output said w faceimg) ≠ []) ∧
    ∀ e, saveNumber (getFiles env.fs w output dotPng).2 = .error e →
      saveFace env output said w faceimg =
        ⟨said, (getFiles env.fs w output dotPng).1, some e.stop⟩ := by
  constructor
  · intro k hk
    simp only [saveFace, hk]
    rcases env.imwrite (getFiles env.fs w output dotPng).1 (numberedPath output k) faceimg with
      ⟨written, w'⟩
    cases written with
    | error e => simp [Batch.effects, List.filter_append, BatchEvent.isEffect]
    | ok b => cases b <;> simp [Batch.effects, List.filter_append, BatchEvent.isEffect]
  · intro e he
    simp only [saveFace, he]

variable {env output}

theorem faceStep_of_shows {img : Mat} {w : W} {shape : Shape} (h : FaceShows env output img w shape) :
    ((faceStep env output img w shape).stop = none ↔ FaceGoesOn env output img w shape) ∧
      Batch.effects BatchEvent.isEffect (faceStep env output img w shape) ≠ [] := by
  obtain ⟨faceimg, k, hc, hk⟩ := h
  obtain ⟨hstop, heff⟩ := (saveFace_cases env output
    ((cropFace env.cv img shape).lines.map BatchEvent.printed) w faceimg).1 k hk
  simp only [faceStep, hc]
  refine ⟨hstop.trans ⟨fun hw => ⟨faceimg, k, hc, hk, hw⟩, ?_⟩, heff⟩
  rintro ⟨faceimg', k', hc', hk', hw⟩
  obtain rfl : faceimg = faceimg' := Except.ok.inj (hc.symm.trans hc')
  obtain rfl : k = k' := Except.ok.inj (hk.symm.trans hk')
  exact hw

theorem faceStep_of_not_shows {img : Mat} {w : W} {shape : Shape}
    (h : ¬ FaceShows env output img w shape) :
    (faceStep env output img w shape).stop ≠ none ∧
      Batch.effects BatchEvent.isEffect (faceStep env output img w shape) = [] := by
  have hsaid := printed_filter (cropFace env.cv img shape).lines
  cases hc : (cropFace env.cv img shape).result with
  | error e =>
    simp only [faceStep, hc]
    exact ⟨by simp, hsaid⟩
  | ok faceimg =>
    cases hk : saveNumber (getFiles env.fs w output dotPng).2 with
    | ok k => exact absurd ⟨faceimg, k, hc, hk⟩ h
    | error e =>
      simp only [faceStep, hc]
      rw [(saveFace_cases env output _ w faceimg).2 e hk]
      exact ⟨by simp, hsaid⟩

theorem faceGoesOn_shows {img : Mat} {w : W} {shape : Shape} (h : FaceGoesOn env output img w shape) :
    FaceShows env output img w shape := by
  obtain ⟨faceimg, k, hc, hk, -⟩ := h
  exact ⟨faceimg, k, hc, hk⟩

theorem faceStep_stop_iff (img : Mat) (w : W) (shape : Shape) :
    (faceStep env output img w shape).stop = none ↔ FaceGoesOn env output img w shape := by
  by_cases h : FaceShows env output img w shape
  · exact (faceStep_of_shows h).1
  · exact iff_of_false (faceStep_of_not_shows h).1 fun hg => h (faceGoesOn_shows hg)

theorem faceStep_silent_iff (img : Mat) (w : W) (shape : Shape) :
    Batch.effects BatchEvent.isEffect (faceStep env output img w shape) = [] ↔
      ¬ FaceShows env output img w shape := by
  by_cases h : FaceShows env output img w shape
  · exact iff_of_false (faceStep_of_shows h).2 (not_not.mpr h)
  · exact iff_of_true (faceStep_of_not_shows h).2 h

theorem faceStep_spec (env : CropEnv W Mat Rectangle) (output : Str) (img : Mat) :
    Batch.StepSpec (faceStep env output img) BatchEvent.isEffect (FaceGoesOn env output img)
      (FaceShows env output img) where
  stop_iff := faceStep_stop_iff img
  silent_iff := faceStep_silent_iff img
  shows_of_goesOn _ _ := faceGoesOn_shows

theorem imageStep_of_faces {w : W} {file : Str} {faceimg : Mat} {det : Rectangle}
    {dets : List Rectangle} {shapes : List Shape} (hread : env.imread w file = .ok faceimg)
    (hdet : env.detector (env.pyramidUp faceimg) = .ok (det :: dets))
    (hshapes : (det :: dets).mapM (env.shapePredictor (env.pyramidUp faceimg)) = .ok shapes) :
    imageStep env output w file =
      let faces := Batch.run (faceStep env output (env.pyramidUp faceimg)) w shapes
      ⟨.printed ("processing image ".toList ++ file) :: .printed "process checking".toList ::
        faces.events, faces.state, faces.stop⟩ := by
  simp only [imageStep, hread, hdet, hshapes]

theorem imageStep_stop_iff (w : W) (file : Str) :
    (imageStep env output w file).stop = none ↔ ImageGoesOn env output w file := by
  constructor
  · intro h
    cases hread : env.imread w file with
    | error e => simp [imageStep, hread] at h
    | ok faceimg =>
      cases hdet : env.detector (env.pyramidUp faceimg) with
      | error e => simp [imageStep, hread, hdet] at h
      | ok dets =>
        cases dets with
        | nil => simp [imageStep, hread, hdet] at h
        | cons det dets =>
          cases hshapes : (det :: dets).mapM (env.shapePredictor (env.pyramidUp faceimg)) with
          | error e => simp only [imageStep, hread, hdet, hshapes, reduceCtorEq] at h
          | ok shapes =>
            rw [imageStep_of_faces hread hdet hshapes] at h
            exact ⟨faceimg, det, dets, shapes, hread, hdet, hshapes,
              (Batch.run_stop_none_iff _ (faceStep_spec _ _ _).stop_iff w shapes).mp h⟩
  · rintro ⟨faceimg, det, dets, shapes, hread, hdet, hshapes, heach⟩
    rw [imageStep_of_faces hread hdet hshapes]
    exact (Batch.run_stop_none_iff _ (faceStep_spec _ _ _).stop_iff w shapes).mpr heach

theorem imageShows_iff {w : W} {file : Str} {faceimg : Mat} {dets : List Rectangle}
    (hread : env.imread w file = .ok faceimg) (hdet : env.detector (env.pyramidUp faceimg) = .ok dets) :
    ImageShows env output w file ↔
      dets = [] ∨ ∃ shapes, dets.mapM (env.shapePredictor (env.pyramidUp faceimg)) = .ok shapes ∧
        ∃ shape ∈ shapes.head?, FaceShows env output (env.pyramidUp faceimg) w shape := by
  constructor
  · rintro ⟨faceimg', dets', hread', hdet', h⟩
    obtain rfl : faceimg = faceimg' := Except.ok.inj (hread.symm.trans hread')
    obtain rfl : dets = dets' := Except.ok.inj (hdet.symm.trans hdet')
    exact h
  · exact fun h => ⟨faceimg, dets, hread, hdet, h⟩

theorem imageStep_silent_iff (w : W) (file : Str) :
    Batch.effects BatchEvent.isEffect (imageStep env output w file) = [] ↔
      ¬ ImageShows env output w file := by
  cases hread : env.imread w file with
  | error e => simp [imageStep, hread, Batch.effects, BatchEvent.isEffect, ImageShows]
  | ok faceimg =>
    cases hdet : env.detector (env.pyramidUp faceimg) with
    | error e => simp [imageStep, hread, hdet, Batch.effects, BatchEvent.isEffect, ImageShows]
    | ok dets =>
      rw [imageShows_iff hread hdet]
      cases dets with
      | nil => simp [imageStep, hread, hdet, Batch.effects, BatchEvent.isEffect]
      | cons det dets =>
        cases hshapes : (det :: dets).mapM (env.shapePredictor (env.pyramidUp faceimg)) with
        | error e =>
          simp only [imageStep, hread, hdet, hshapes]
          exact iff_of_true rfl (by simp)
        | ok shapes =>
          rw [imageStep_of_faces hread hdet hshapes]
          have hfaces := (faceStep_spec env output (env.pyramidUp faceimg)).run_silent_iff w shapes
          simp only [Batch.effects, List.filter_cons, BatchEvent.isEffect, Bool.false_eq_true, if_false]
            at hfaces ⊢
          simp [hfaces]

theorem imageGoesOn_shows {w : W} {file : Str} (h : ImageGoesOn env output w file) :
    ImageShows env output w file := by
  obtain ⟨faceimg, det, dets, shapes, hread, hdet, hshapes, heach⟩ := h
  cases shapes with
  | nil => cases Except.mapM_length hshapes
  | cons shape shapes =>
    exact ⟨faceimg, det :: dets, hread, hdet,
      .inr ⟨shape :: shapes, hshapes, shape, rfl, faceGoesOn_shows heach.1⟩⟩

theorem imageStep_spec (env : CropEnv W Mat Rectangle) (output : Str) :
    Batch.StepSpec (imageStep env output) BatchEvent.isEffect (ImageGoesOn env output)
      (ImageShows env output) where
  stop_iff := imageStep_stop_iff
  silent_iff := imageStep_silent_iff
  shows_of_goesOn _ _ := imageGoesOn_shows

end Conditions

/-! ### Two batches -/

section Batches
variable (env : CropEnv W Mat Rectangle) (output : Str)

/-- The effects of the run on all images are those of the run on the first ones followed by those
of the run on the others. -/
def ImagesIndependent (w : W) (xs ys : List Str) : Prop :=
  let first := cropMain env w (output :: xs)
  Batch.effects BatchEvent.isEffect (cropMain env w (output :: (xs ++ ys))) =
    Batch.effects BatchEvent.isEffect first ++
      Batch.effects BatchEvent.isEffect (cropMain env first.state (output :: ys))

/-- The same for the faces of one image. -/
def FacesIndependent (img : Mat) (w : W) (fs gs : List Shape) : Prop :=
  let first := Batch.run (faceStep env output img) w fs
  Batch.effects BatchEvent.isEffect (Batch.run (faceStep env output img) w (fs ++ gs)) =
    Batch.effects BatchEvent.isEffect first ++
      Batch.effects BatchEvent.isEffect (Batch.run (faceStep env output img) first.state gs)

variable {env output}

theorem facesIndependent_iff (img : Mat) (w : W) (fs gs : List Shape) :
    FacesIndependent env output img w fs gs ↔
      Batch.Each (faceStep env output img) (FaceGoesOn env output img) w fs ∨
        ∀ g ∈ gs.head?, ¬ FaceShows env output img (Batch.run (faceStep env output img) w fs).state g :=
  (faceStep_spec env output img).independent_iff w fs gs

theorem cropMain_effects {w : W} {images : List Str} (h : env.deserialize = .ok ()) :
    Batch.effects BatchEvent.isEffect (cropMain env w (output :: images)) =
      Batch.effects BatchEvent.isEffect (Batch.run (imageStep env output) w images) := by
  rw [cropMain, h]
  exact catchException_effects _

theorem cropMain_state {w : W} {images : List Str} (h : env.deserialize = .ok ()) :
    (cropMain env w (output :: images)).state = (Batch.run (imageStep env output) w images).state := by
  rw [cropMain, h]
  exact catchException_state _

theorem cropMain_not_loaded {e : StdException} (h : env.deserialize = .error e) (w : W)
    (images : List Str) : Batch.effects BatchEvent.isEffect (cropMain env w (output :: images)) = [] := by
  rw [cropMain, h]
  exact catchException_effects _

theorem imagesIndependent_iff (w : W) (xs ys : List Str) :
    ImagesIndependent env output w xs ys ↔
      (∃ e, env.deserialize = .error e) ∨
        Batch.Each (imageStep env output) (ImageGoesOn env output) w xs ∨
        ∀ y ∈ ys.head?, ¬ ImageShows env output (cropMain env w (output :: xs)).state y := by
  cases hload : env.deserialize with
  | error e => simp [ImagesIndependent, cropMain_not_loaded hload]
  | ok loaded =>
    rw [ImagesIndependent, cropMain_effects hload, cropMain_effects hload, cropMain_effects hload,
      cropMain_state hload, (imageStep_spec env output).independent_iff]
    simp

end Batches

end FaceRecognition
