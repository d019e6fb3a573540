import FaceRecognition.Calc
import Mathlib.Data.Rat.Floor

/-! `dlib/svm/kkmeans.h`: the choice of the initial centers, the training and the label of
a sample. Of the kernel and of the centroids only the operations that are called are
given; reads out of range are errors, as in the matching code. -/
namespace FaceRecognition

/-- `dlib_pick_initial_centers_data`. -/
structure CenterScore (D : Type*) where
  idx : Nat
  dist : D

/-- What k-means uses of the kernel, of `kcentroid` and of `std::sort`, which is free in the
order of equal distances. `stale` is what `resize` leaves in `assignments`. -/
structure KernelOps (C S D : Type*) where
  kernel : S → S → D
  infinity : D
  sort : List (CenterScore D) → List (CenterScore D)
  sort_perm : ∀ l, (sort l).Perm l
  clearDictionary : C → C
  train : C → S → C
  score : C → S → D
  stale : Nat → Nat

variable {C S D : Type*}

/-! ### The label of a sample -/

section Label
variable [LT D] [DecidableLT D] (o : KernelOps C S D)

/-- The scan for a smaller score; `i` is the index of the next one. -/
def labelLoop : Nat → D → Nat → List D → Nat
  | label, _, _, [] => label
  | label, best_score, i, temp :: rest =>
    if temp < best_score then labelLoop i temp (i + 1) rest
    else labelLoop label best_score (i + 1) rest

/-- `kkmeans::operator()`. -/
def kkmeansLabel (centers : List C) (sample : S) : Except BadIndex Nat :=
  (access centers 0).bind fun c =>
    .ok (labelLoop 0 (o.score c sample) 1 (centers.tail.map fun c => o.score c sample))

theorem labelLoop_lt {label i : Nat} (best_score : D) (rest : List D) (h : label < i) :
    labelLoop label best_score i rest < i + rest.length := by
  induction rest generalizing label best_score i with
  | nil => simpa [labelLoop] using h
  | cons temp rest ih =>
    rw [labelLoop, List.length_cons]
    split
    · have := ih temp (show i < i + 1 by omega)
      omega
    · have := ih best_score (show label < i + 1 by omega)
      omega

/-- The label is an index of a center. -/
theorem kkmeansLabel_ok {centers : List C} (h : 0 < centers.length) (sample : S) :
    ∃ label, kkmeansLabel o centers sample = .ok label ∧ label < centers.length := by
  refine ⟨_, by rw [kkmeansLabel, access_of_lt h, Except.ok_bind], ?_⟩
  have hlt := labelLoop_lt (o.score centers[0] sample)
    (centers.tail.map fun c => o.score c sample) (show 0 < 1 by omega)
  rw [List.length_map, List.length_tail] at hlt
  omega

/-- The labels of the samples in order. -/
def kkmeansLabels (centers : List C) : List S → Except BadIndex (List Nat)
  | [] => .ok []
  | s :: samples => (kkmeansLabel o centers s).bind fun label =>
      (kkmeansLabels centers samples).bind fun labels => .ok (label :: labels)

theorem kkmeansLabels_ok {centers : List C} (h : 0 < centers.length) (samples : List S) :
    ∃ labels, kkmeansLabels o centers samples = .ok labels ∧ labels.length = samples.length ∧
      ∀ l ∈ labels, l < centers.length := by
  induction samples with
  | nil => exact ⟨[], rfl, rfl, by simp⟩
  | cons s samples ih =>
    obtain ⟨label, hlabel, hlt⟩ := kkmeansLabel_ok o h s
    obtain ⟨labels, hlabels, hlen, hall⟩ := ih
    refine ⟨label :: labels, ?_, by simp [hlen], ?_⟩
    · rw [kkmeansLabels, hlabel, Except.ok_bind, hlabels, Except.ok_bind]
    · simpa [hlt] using hall

end Label

/-! ### Training -/

section Train
variable [LT D] [DecidableLT D] (o : KernelOps C S D)

/-- The centers before the first round, each trained with its initial center. -/
def seedCenters (initial_centers : List S) : Nat → List C → Except BadIndex (List C)
  | _, [] => .ok []
  | i, c :: centers => (access initial_centers i).bind fun s =>
      (seedCenters initial_centers (i + 1) centers).bind fun rest =>
        .ok (o.train (o.clearDictionary c) s :: rest)

/-- How many samples changed their center in a round. -/
def numChanged (labels assignments : List Nat) : Nat :=
  ((labels.zip assignments).filter fun p => p.2 ≠ p.1).length

/-- `centers[assignments[i]]->train(samples(i))` for every sample. -/
def retrain : List C → List Nat → List S → Except BadIndex (List C)
  | centers, a :: assignments, s :: samples => (access centers a).bind fun c =>
      retrain (centers.set a (o.train c s)) assignments samples
  | centers, _, _ => .ok centers

/-- The rounds of `do_train`, at most as many as the first argument. -/
def trainLoop (samples : List S) (min_num_change : Nat) :
    Nat → List C → List Nat → Bool → Nat → Except BadIndex (List C)
  | 0, centers, _, _, _ => .ok centers
  | rounds + 1, centers, assignments, assignment_changed, num_changed =>
    if assignment_changed = true ∧ min_num_change ≤ num_changed then
      (kkmeansLabels o centers samples).bind fun labels =>
        let num_changed := numChanged labels assignments
        if num_changed = 0 then trainLoop samples min_num_change rounds centers labels false 0
        else (retrain o (centers.map o.clearDictionary) labels samples).bind fun centers =>
          trainLoop samples min_num_change rounds centers labels true num_changed
    else .ok centers

/-- `kkmeans::do_train` with its default of 1000 rounds and the `min_change` of 0.01. -/
def doTrain (centers : List C) (samples initial_centers : List S) : Except BadIndex (List C) :=
  let min_num_change := samples.length / 100
  (seedCenters o initial_centers 0 centers).bind fun centers =>
    trainLoop o samples min_num_change 1000 centers ((List.range samples.length).map o.stale) true
      min_num_change

omit [LT D] [DecidableLT D] in
theorem seedCenters_ok (initial_centers : List S) (i : Nat) (centers : List C)
    (h : i + centers.length ≤ initial_centers.length) :
    ∃ seeded, seedCenters o initial_centers i centers = .ok seeded ∧
      seeded.length = centers.length := by
  induction centers generalizing i with
  | nil => exact ⟨[], rfl, rfl⟩
  | cons c centers ih =>
    rw [List.length_cons] at h
    obtain ⟨seeded, hs, hlen⟩ := ih (i + 1) (by omega)
    refine ⟨o.train (o.clearDictionary c) initial_centers[i] :: seeded, ?_, by simp [hlen]⟩
    rw [seedCenters, access_of_lt (by omega), Except.ok_bind, hs, Except.ok_bind]

omit [LT D] [DecidableLT D] in
theorem retrain_ok (centers : List C) {assignments : List Nat} (samples : List S)
    (h : ∀ a ∈ assignments, a < centers.length) :
    ∃ trained, retrain o centers assignments samples = .ok trained ∧
      trained.length = centers.length := by
  induction assignments generalizing centers samples with
  | nil => exact ⟨centers, by simp [retrain], rfl⟩
  | cons a assignments ih =>
    cases samples with
    | nil => exact ⟨centers, by simp [retrain], rfl⟩
    | cons s samples =>
      obtain ⟨ha, hrest⟩ := List.forall_mem_cons.mp h
      obtain ⟨trained, ht, hlen⟩ := ih (centers.set a (o.train centers[a] s)) samples
        (by simpa using hrest)
      exact ⟨trained, by rw [retrain, access_of_lt ha, Except.ok_bind, ht], by simpa using hlen⟩

theorem trainLoop_ok (samples : List S) (min_num_change rounds : Nat) {centers : List C}
    (h : 0 < centers.length) (assignments : List Nat) (assignment_changed : Bool)
    (num_changed : Nat) :
    ∃ trained, trainLoop o samples min_num_change rounds centers assignments assignment_changed
      num_changed = .ok trained ∧ trained.length = centers.length := by
  induction rounds generalizing centers assignments assignment_changed num_changed with
  | zero => exact ⟨centers, rfl, rfl⟩
  | succ rounds ih =>
    obtain ⟨labels, hl, -, hlt⟩ := kkmeansLabels_ok o h samples
    obtain ⟨again, ha, halen⟩ := retrain_ok o (centers.map o.clearDictionary) samples
      (by simpa using hlt)
    rw [List.length_map] at halen
    rw [trainLoop]
    split
    · simp only [hl, Except.ok_bind]
      by_cases h0 : numChanged labels assignments = 0
      · rw [if_pos h0]
        exact ih h _ _ _
      · rw [if_neg h0, ha, Except.ok_bind, ← halen]
        exact ih (by omega) _ _ _
    · exact ⟨centers, rfl, rfl⟩

/-- Training keeps the number of centers, and reads in range when it is given as many initial
centers. -/
theorem doTrain_ok {centers : List C} {initial_centers : List S} (samples : List S)
    (h : 0 < centers.length) (hinit : initial_centers.length = centers.length) :
    ∃ trained, doTrain o centers samples initial_centers = .ok trained ∧
      trained.length = centers.length := by
  obtain ⟨seeded, hs, hslen⟩ := seedCenters_ok o initial_centers 0 centers (by omega)
  rw [doTrain, hs, Except.ok_bind, ← hslen]
  exact trainLoop_ok o samples _ _ (by omega) _ _ _

end Train

/-! ### The initial centers -/

section Pick
variable [LT D] [DecidableLT D] [Add D] [Sub D] [Mul D] [OfNat D 2] (o : KernelOps C S D)

/-- The scores after the most recent center `c` is taken into account. -/
def rescore (c : S) : Nat → List S → List (CenterScore D) → List (CenterScore D)
  | s, x :: samples, d :: scores =>
    let dist := o.kernel c c + o.kernel x x - 2 * o.kernel x c
    (if dist < d.dist then ⟨s, dist⟩ else d) :: rescore c (s + 1) samples scores
  | _, _, scores => scores

/-- `static_cast<long>(max(0.0, samples.size() - samples.size()*percentile - 1))` -/
def bestIdx (size : Nat) : Nat := ⌊max 0 ((size : ℚ) - size * (1 / 100) - 1)⌋.toNat

/-- The loop that adds the centers after the first one. -/
def pickLoop (samples : List S) : Nat → Nat → List S → List (CenterScore D) →
    Except BadIndex (List S)
  | 0, _, centers, _ => .ok centers
  | rounds + 1, i, centers, scores => (access centers i).bind fun c =>
      let scores := rescore o c 0 samples scores
      (access (o.sort scores) (bestIdx samples.length)).bind fun best =>
        (access samples best.idx).bind fun x =>
          pickLoop samples rounds (i + 1) (centers ++ [x]) scores

def pickInitialCenters (num_centers : Nat) (samples : List S) : Except BadIndex (List S) :=
  (access samples 0).bind fun x =>
    pickLoop o samples (num_centers - 1) 0 [x] (List.replicate samples.length ⟨0, o.infinity⟩)

theorem bestIdx_lt {size : Nat} (h : 0 < size) : bestIdx size < size := by
  have hq : (0 : ℚ) < size := by exact_mod_cast h
  have hlt : max 0 ((size : ℚ) - size * (1 / 100) - 1) < (size : Int) := by
    rw [max_lt_iff]
    constructor
    · exact_mod_cast h
    · push_cast
      linarith
  have hfloor := Int.floor_lt.mpr hlt
  rw [bestIdx]
  omega

theorem rescore_length (c : S) (s : Nat) (samples : List S) (scores : List (CenterScore D)) :
    (rescore o c s samples scores).length = scores.length := by
  induction samples generalizing s scores with
  | nil => simp [rescore]
  | cons x samples ih =>
    cases scores with
    | nil => simp [rescore]
    | cons d scores => simp [rescore, ih]

theorem rescore_idx (c : S) {s n : Nat} {samples : List S} {scores : List (CenterScore D)}
    (h : ∀ d ∈ scores, d.idx < n) (hs : s + samples.length ≤ n) :
    ∀ d ∈ rescore o c s samples scores, d.idx < n := by
  induction samples generalizing s scores with
  | nil => simpa [rescore] using h
  | cons x samples ih =>
    cases scores with
    | nil => simp [rescore]
    | cons d scores =>
      obtain ⟨hd, hrest⟩ := List.forall_mem_cons.mp h
      rw [List.length_cons] at hs
      rw [rescore, List.forall_mem_cons]
      refine ⟨?_, ih hrest (by omega)⟩
      split
      · show s < n
        omega
      · exact hd

theorem pickLoop_ok {samples : List S} (h : 0 < samples.length) (rounds i : Nat) (centers : List S)
    (scores : List (CenterScore D)) (hc : centers.length = i + 1)
    (hs : scores.length = samples.length) (hidx : ∀ d ∈ scores, d.idx < samples.length) :
    ∃ picked, pickLoop o samples rounds i centers scores = .ok picked ∧
      picked.length = i + 1 + rounds := by
  induction rounds generalizing i centers scores with
  | zero => exact ⟨centers, rfl, hc⟩
  | succ rounds ih =>
    have hi : i < centers.length := by omega
    have hslen := rescore_length o centers[i] 0 samples scores
    have hsidx := rescore_idx o centers[i] hidx (Nat.zero_add samples.length).le
    have hperm := o.sort_perm (rescore o centers[i] 0 samples scores)
    have hbest : bestIdx samples.length < (o.sort (rescore o centers[i] 0 samples scores)).length := by
      rw [hperm.length_eq, hslen, hs]
      exact bestIdx_lt h
    have hwin := hsidx _ (hperm.mem_iff.mp (List.getElem_mem hbest))
    obtain ⟨picked, hp, hlen⟩ := ih (i + 1) (centers ++ [samples.get ⟨_, hwin⟩]) _ (by simp [hc])
      (hslen.trans hs) hsidx
    refine ⟨picked, ?_, by omega⟩
    rw [pickLoop, access_of_lt hi, Except.ok_bind]
    simp only [access_of_lt hbest, access_of_lt hwin, Except.ok_bind]
    exact hp

/-- As many centers as asked for, without a read out of range. -/
theorem pickInitialCenters_ok {num_centers : Nat} {samples : List S} (h : 0 < samples.length)
    (hnum : 0 < num_centers) :
    ∃ picked, pickInitialCenters o num_centers samples = .ok picked ∧
      picked.length = num_centers := by
  have hidx : ∀ d ∈ List.replicate samples.length (⟨0, o.infinity⟩ : CenterScore D),
      d.idx < samples.length := by
    intro d hd
    rw [List.eq_of_mem_replicate hd]
    exact h
  obtain ⟨picked, hp, hlen⟩ := pickLoop_ok o h (num_centers - 1) 0 [samples[0]]
    (List.replicate samples.length ⟨0, o.infinity⟩) rfl (by simp) hidx
  refine ⟨picked, ?_, by omega⟩
  rw [pickInitialCenters, access_of_lt h, Except.ok_bind, hp]

end Pick

end FaceRecognition
