import FaceRecognition.Events
import FaceRecognition.HeadTrack
import Mathlib.Analysis.Real.Sqrt

/-! `head_track`: for every image on the command line the faces' poses are clustered and the share
of the largest cluster is printed. An image with no face or with one ends the whole run,
and so does every exception. -/
namespace FaceRecognition
open CppString

/-- `focal_length` and `center`; the halves are integer divisions. -/
structure Camera where
  focal_length : Int
  center_x : Int
  center_y : Int

/-- A pose as the clustering sees it. -/
abbrev Sample := ℝ × ℝ

/-- What `head_track` relies on. `noseEnd` is `solvePnP` with the projection of the nose line;
`cluster` is the trained object, whose labels are below its number of centers. -/
structure HeadEnv (Img Rectangle : Type*) where
  deserialize : Except StdException Unit
  loadImage : Str → Except StdException Img
  imreadSize : Str → Int × Int
  pyramidUp : Img → Img
  detector : Img → Except StdException (List Rectangle)
  shapePredictor : Img → Rectangle → Except StdException Shape
  noseEnd : Camera → List (Int × Int) → Except StdException (ℝ × ℝ)
  cluster : (kc_num : Nat) → List Sample → Except StdException (Sample → Fin kc_num)
  spectralCluster : List Sample → Nat → Except StdException Unit

variable {Img Rectangle : Type*}

def camera (size : Int × Int) : Camera := ⟨size.1, size.1.tdiv 2, size.2.tdiv 2⟩

/-- `get_2d_image_points`: nose tip, chin, the outer eye corners and the mouth corners. -/
def get2dImagePoints (d : Shape) : List (Int × Int) := [d 30, d 8, d 36, d 45, d 48, d 54]

/-- The sample of one face. The landmarks are predicted a second time in the source, for a list that
nothing reads. -/
noncomputable def faceSample (env : HeadEnv Img Rectangle) (cam : Camera) (img : Img) (det : Rectangle) :
    Except StdException Sample :=
  (env.shapePredictor img det).bind fun shape =>
    (env.noseEnd cam (get2dImagePoints shape)).bind fun nose =>
      .ok (√|(cam.center_x * cam.center_x : ℝ) - nose.1 * nose.1|,
        √|(cam.center_y * cam.center_y : ℝ) - nose.2 * nose.2|)

/-- The text for the labels of the samples; a text that overflows `percent` is undefined behaviour. -/
def focusText (kc_num : Nat) (labels : List Nat) (samples : Nat) : Except Stop Str :=
  match (focusCount kc_num labels).bind focusMax with
  | .error _ => .error .undefined
  | .ok max =>
    if (percentText max samples).length + 1 ≤ percentSize then .ok (percentText max samples ++ "%".toList)
    else .error .undefined

/-- The body of the loop for an image with several faces. -/
noncomputable def crowdStep (env : HeadEnv Img Rectangle) (cam : Camera) (img : Img) (dets : List Rectangle) :
    Batch.Outcome Stop Unit BatchEvent :=
  let kc_num := kcNum dets.length
  match dets.mapM (faceSample env cam img) with
  | .error e => ⟨[], (), some (.thrown e)⟩
  | .ok samples =>
    match env.cluster kc_num samples with
    | .error e => ⟨[], (), some (.thrown e)⟩
    | .ok test =>
      match focusText kc_num (samples.map fun s => (test s).val) samples.length with
      | .error stop => ⟨[], (), some stop⟩
      | .ok focus =>
        match env.spectralCluster samples kc_num with
        | .error e => ⟨[.result focus], (), some (.thrown e)⟩
        | .ok _ => ⟨[.result focus], (), none⟩

/-- The body of the loop over the images. -/
noncomputable def trackStep (env : HeadEnv Img Rectangle) (_ : Unit) (file : Str) :
    Batch.Outcome Stop Unit BatchEvent :=
  match env.loadImage file with
  | .error e => ⟨[], (), some (.thrown e)⟩
  | .ok img =>
    let img := env.pyramidUp img
    match env.detector img with
    | .error e => ⟨[], (), some (.thrown e)⟩
    | .ok [] => ⟨[.result "-1".toList], (), some (.returned (-1))⟩
    | .ok [_] => ⟨[.result "100%".toList], (), some (.returned 0)⟩
    | .ok dets => crowdStep env (camera (env.imreadSize file)) img dets

/-- `argv` without the name of the program. -/
noncomputable def headTrackMain (env : HeadEnv Img Rectangle) (argv : List Str) :
    Batch.Outcome Stop Unit BatchEvent :=
  match env.deserialize with
  | .error e => catchException ⟨[], (), some (.thrown e)⟩
  | .ok () => catchException (Batch.run (trackStep env) () argv)

/-! ### When an image goes on and when it shows -/

section Conditions
variable (env : HeadEnv Img Rectangle)

/-- The poses can be solved and clustered, and no cluster has nearly all of them. -/
def CrowdShows (cam : Camera) (img : Img) (dets : List Rectangle) (samples : List Sample) : Prop :=
  dets.mapM (faceSample env cam img) = .ok samples ∧
    ∃ test, env.cluster (kcNum dets.length) samples = .ok test ∧
      ∀ l, ShareFits ((samples.map fun s => (test s).val).count l) samples.length

/-- The image can be loaded and shows several faces whose focus can be printed, and the spectral
clustering does not throw. -/
def TrackGoesOn (_ : Unit) (file : Str) : Prop :=
  ∃ img dets samples, env.loadImage file = .ok img ∧ env.detector (env.pyramidUp img) = .ok dets ∧
    2 ≤ dets.length ∧
    CrowdShows env (camera (env.imreadSize file)) (env.pyramidUp img) dets samples ∧
    env.spectralCluster samples (kcNum dets.length) = .ok ()

/-- The image can be loaded and has at most one face, or several whose focus can be printed. -/
def TrackShows (_ : Unit) (file : Str) : Prop :=
  ∃ img dets, env.loadImage file = .ok img ∧ env.detector (env.pyramidUp img) = .ok dets ∧
    (dets.length < 2 ∨
      ∃ samples, CrowdShows env (camera (env.imreadSize file)) (env.pyramidUp img) dets samples)

variable {env}

theorem focusText_ok_iff {kc_num n : Nat} {labels : List Nat} (hkc : 0 < kc_num)
    (h : ∀ l ∈ labels, l < kc_num) (hn : 0 < n) :
    (∃ focus, focusText kc_num labels n = .ok focus) ↔ ∀ l, ShareFits (labels.count l) n := by
  obtain ⟨max, hmax, -, -, hfits⟩ := focus_spec hkc h
  rw [← hfits hn]
  simp only [focusText, focusCount_eq h, Except.ok_bind, hmax]
  split
  next hfit => simp [hfit]
  next hfit => simp [hfit]

variable (env) in
/-- An image with several faces prints its focus, or ends the run before that. -/
theorem crowdStep_cases (cam : Camera) (img : Img) {dets : List Rectangle} (h : 2 ≤ dets.length) :
    (∃ samples focus, CrowdShows env cam img dets samples ∧
      (crowdStep env cam img dets).events = [.result focus] ∧
      ((crowdStep env cam img dets).stop = none ↔
        env.spectralCluster samples (kcNum dets.length) = .ok ())) ∨
    ((¬ ∃ samples, CrowdShows env cam img dets samples) ∧
      (crowdStep env cam img dets).events = [] ∧ (crowdStep env cam img dets).stop ≠ none) := by
  cases hs : dets.mapM (faceSample env cam img) with
  | error e =>
    simp only [crowdStep, hs]
    exact .inr ⟨by simp [CrowdShows, hs], trivial, by simp⟩
  | ok samples =>
    cases hc : env.cluster (kcNum dets.length) samples with
    | error e =>
      simp only [crowdStep, hs, hc]
      refine .inr ⟨?_, trivial, by simp⟩
      rintro ⟨samples', hs', test, ht, -⟩
      obtain rfl : samples = samples' := Except.ok.inj (hs.symm.trans hs')
      cases hc.symm.trans ht
    | ok test =>
      have hlen := Except.mapM_length hs
      have hkc := kcNum_bounds h
      have hlt : ∀ l ∈ samples.map fun s => (test s).val, l < kcNum dets.length := by
        intro l hl
        obtain ⟨s, -, rfl⟩ := List.mem_map.mp hl
        exact (test s).isLt
      have hfocus := focusText_ok_iff (show 0 < kcNum dets.length by omega) hlt
        (show 0 < samples.length by omega)
      cases hf : focusText (kcNum dets.length) (samples.map fun s => (test s).val) samples.length with
      | error stop =>
        simp only [crowdStep, hs, hc, hf]
        refine .inr ⟨?_, trivial, by simp⟩
        rintro ⟨samples', hs', test', ht, hall⟩
        obtain rfl : samples = samples' := Except.ok.inj (hs.symm.trans hs')
        obtain rfl : test = test' := Except.ok.inj (hc.symm.trans ht)
        obtain ⟨focus, hok⟩ := hfocus.mpr hall
        cases hf.symm.trans hok
      | ok focus =>
        refine .inl ⟨samples, focus, ⟨hs, test, hc, hfocus.mp ⟨focus, hf⟩⟩, ?_⟩
        simp only [crowdStep, hs, hc, hf]
        cases env.spectralCluster samples (kcNum dets.length) with
        | error e => simp
        | ok u => simp

theorem trackStep_of_crowd {file : Str} {img : Img} {dets : List Rectangle}
    (hload : env.loadImage file = .ok img) (hdet : env.detector (env.pyramidUp img) = .ok dets)
    (h : 2 ≤ dets.length) : trackStep env () file =
      crowdStep env (camera (env.imreadSize file)) (env.pyramidUp img) dets := by
  cases dets with
  | nil => simp at h
  | cons det dets =>
    cases dets with
    | nil => simp at h
    | cons det' dets => simp only [trackStep, hload, hdet]

theorem crowdShows_unique {cam : Camera} {img : Img} {dets : List Rectangle} {samples samples' : List Sample}
    (h : CrowdShows env cam img dets samples) (h' : CrowdShows env cam img dets samples') :
    samples = samples' :=
  Except.ok.inj (h.1.symm.trans h'.1)

theorem trackStep_stop_iff (u : Unit) (file : Str) :
    (trackStep env u file).stop = none ↔ TrackGoesOn env u file := by
  constructor
  · intro hstop
    cases hload : env.loadImage file with
    | error e => simp [trackStep, hload] at hstop
    | ok img =>
      cases hdet : env.detector (env.pyramidUp img) with
      | error e => simp [trackStep, hload, hdet] at hstop
      | ok dets =>
        cases dets with
        | nil => simp [trackStep, hload, hdet] at hstop
        | cons det dets =>
          cases dets with
          | nil => simp [trackStep, hload, hdet] at hstop
          | cons det' dets =>
            have htwo : 2 ≤ (det :: det' :: dets).length := by simp
            rw [trackStep_of_crowd hload hdet htwo] at hstop
            rcases crowdStep_cases env (camera (env.imreadSize file)) (env.pyramidUp img) htwo with
              ⟨samples, focus, hshows, -, hspectral⟩ | ⟨-, -, hends⟩
            · exact ⟨img, _, samples, hload, hdet, htwo, hshows, hspectral.mp hstop⟩
            · exact absurd hstop hends
  · rintro ⟨img, dets, samples, hload, hdet, htwo, hshows, hspectral⟩
    rw [trackStep_of_crowd hload hdet htwo]
    rcases crowdStep_cases env (camera (env.imreadSize file)) (env.pyramidUp img) htwo with
      ⟨samples', focus, hshows', -, hiff⟩ | ⟨hnot, -, -⟩
    · rw [hiff, ← crowdShows_unique hshows hshows', hspectral]
    · exact absurd ⟨samples, hshows⟩ hnot

theorem trackShows_iff {u : Unit} {file : Str} {img : Img} {dets : List Rectangle}
    (hload : env.loadImage file = .ok img) (hdet : env.detector (env.pyramidUp img) = .ok dets) :
    TrackShows env u file ↔ dets.length < 2 ∨
      ∃ samples, CrowdShows env (camera (env.imreadSize file)) (env.pyramidUp img) dets samples := by
  constructor
  · rintro ⟨img', dets', hload', hdet', h⟩
    obtain rfl : img = img' := Except.ok.inj (hload.symm.trans hload')
    obtain rfl : dets = dets' := Except.ok.inj (hdet.symm.trans hdet')
    exact h
  · exact fun h => ⟨img, dets, hload, hdet, h⟩

theorem trackStep_silent_iff (u : Unit) (file : Str) :
    Batch.effects BatchEvent.isEffect (trackStep env u file) = [] ↔ ¬ TrackShows env u file := by
  cases hload : env.loadImage file with
  | error e => simp [trackStep, hload, Batch.effects, TrackShows]
  | ok img =>
    cases hdet : env.detector (env.pyramidUp img) with
    | error e => simp [trackStep, hload, hdet, Batch.effects, TrackShows]
    | ok dets =>
      rw [trackShows_iff hload hdet]
      cases dets with
      | nil => simp [trackStep, hload, hdet, Batch.effects, BatchEvent.isEffect]
      | cons det dets =>
        cases dets with
        | nil => simp [trackStep, hload, hdet, Batch.effects, BatchEvent.isEffect]
        | cons det' dets =>
          have htwo : 2 ≤ (det :: det' :: dets).length := by simp
          rw [trackStep_of_crowd hload hdet htwo]
          rcases crowdStep_cases env (camera (env.imreadSize file)) (env.pyramidUp img) htwo with
            ⟨samples, focus, hshows, hevents, -⟩ | ⟨hnot, hevents, -⟩
          · rw [Batch.effects, hevents]
            exact iff_of_false (by simp [BatchEvent.isEffect]) (not_not.mpr (.inr ⟨samples, hshows⟩))
          · rw [Batch.effects, hevents]
            refine iff_of_true rfl ?_
            rintro (hlt | hshows)
            · omega
            · exact hnot hshows

theorem trackGoesOn_shows {u : Unit} {file : Str} (h : TrackGoesOn env u file) :
    TrackShows env u file := by
  obtain ⟨img, dets, samples, hload, hdet, -, hshows, -⟩ := h
  exact ⟨img, dets, hload, hdet, .inr ⟨samples, hshows⟩⟩

theorem trackStep_spec (env : HeadEnv Img Rectangle) :
    Batch.StepSpec (trackStep env) BatchEvent.isEffect (TrackGoesOn env) (TrackShows env) where
  stop_iff := trackStep_stop_iff
  silent_iff := trackStep_silent_iff
  shows_of_goesOn _ _ := trackGoesOn_shows

end Conditions

/-! ### Two batches -/

/-- The effects of the run on all images are those of the run on the first ones followed by those
of the run on the others. -/
def TracksIndependent (env : HeadEnv Img Rectangle) (xs ys : List Str) : Prop :=
  Batch.effects BatchEvent.isEffect (headTrackMain env (xs ++ ys)) =
    Batch.effects BatchEvent.isEffect (headTrackMain env xs) ++
      Batch.effects BatchEvent.isEffect (headTrackMain env ys)

section Batches
variable {env : HeadEnv Img Rectangle}

theorem headTrackMain_effects {images : List Str} (h : env.deserialize = .ok ()) :
    Batch.effects BatchEvent.isEffect (headTrackMain env images) =
      Batch.effects BatchEvent.isEffect (Batch.run (trackStep env) () images) := by
  rw [headTrackMain, h]
  exact catchException_effects _

theorem headTrackMain_not_loaded {e : StdException} (h : env.deserialize = .error e)
    (images : List Str) : Batch.effects BatchEvent.isEffect (headTrackMain env images) = [] := by
  rw [headTrackMain, h]
  exact catchException_effects _

theorem tracksIndependent_iff (env : HeadEnv Img Rectangle) (xs ys : List Str) :
    TracksIndependent env xs ys ↔
      (∃ e, env.deserialize = .error e) ∨ (∀ x ∈ xs, TrackGoesOn env () x) ∨
        ∀ y ∈ ys.head?, ¬ TrackShows env () y := by
  cases hload : env.deserialize with
  | error e => simp [TracksIndependent, headTrackMain_not_loaded hload]
  | ok loaded =>
    rw [TracksIndependent, headTrackMain_effects hload, headTrackMain_effects hload,
      headTrackMain_effects hload, (trackStep_spec env).independent_iff, Batch.each_iff_forall]
    simp

end Batches

end FaceRecognition
