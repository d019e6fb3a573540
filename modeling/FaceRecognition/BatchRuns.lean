import FaceRecognition.CropMain
import FaceRecognition.EyePlacement
import FaceRecognition.HeadMain

/-! Whether the images of a batch are processed independently of each other, for both programs
that take a batch. -/
namespace FaceRecognition
open CppString

variable {W Mat Rectangle Img Det : Type*}

/-- Exactly when two batches can be run as one: the first one has to run to its end, unless the
second one would have shown nothing anyway. Both programs end with the first image that has no
face or throws, `head_track` also with the first that has one face. -/
theorem batches_independent_iff (crop : CropEnv W Mat Rectangle) (output : Str) (w : W)
    (xs ys : List Str) (img : Mat) (fs gs : List Shape) (track : HeadEnv Img Det) (us vs : List Str) :
    (ImagesIndependent crop output w xs ys ↔
      (∃ e, crop.deserialize = .error e) ∨
        Batch.Each (imageStep crop output) (ImageGoesOn crop output) w xs ∨
        ∀ y ∈ ys.head?, ¬ ImageShows crop output (cropMain crop w (output :: xs)).state y) ∧
    (FacesIndependent crop output img w fs gs ↔
      Batch.Each (faceStep crop output img) (FaceGoesOn crop output img) w fs ∨
        ∀ g ∈ gs.head?,
          ¬ FaceShows crop output img (Batch.run (faceStep crop output img) w fs).state g) ∧
    (TracksIndependent track us vs ↔
      (∃ e, track.deserialize = .error e) ∨ (∀ u ∈ us, TrackGoesOn track () u) ∨
        ∀ v ∈ vs.head?, ¬ TrackShows track () v) :=
  ⟨imagesIndependent_iff w xs ys, facesIndependent_iff img w fs gs, tracksIndependent_iff track us vs⟩

/-- Every image is a photo without a face. -/
noncomputable def blankEnv : CropEnv Unit (Int × Int × Int) Unit where
  fs := { opendir := fun _ _ => some [], mkdir := fun _ _ => (), openFile := fun _ _ => none }
  cv := OpenCV.sizes
  deserialize := .ok ()
  imread _ _ := .ok (640, 480, 3)
  pyramidUp m := (2 * m.1, 2 * m.2.1, m.2.2)
  detector _ := .ok []
  shapePredictor _ _ := .ok fun _ => (0, 0)
  unlink _ _ := ()
  imwrite _ _ _ := (.ok true, ())

/-- The second of two such photos is not deleted, as it would be on its own. -/
theorem second_image_not_processed :
    ¬ ImagesIndependent blankEnv "out/".toList () ["a.jpg".toList] ["b.jpg".toList] := by
  intro h
  have hlen := congrArg List.length h
  simp [cropMain, Batch.run, imageStep, blankEnv, catchException, Batch.effects, BatchEvent.isEffect] at hlen

end FaceRecognition
