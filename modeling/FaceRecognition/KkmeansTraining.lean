import FaceRecognition.Kkmeans

/-! What `kkmeans` training ends with: centers that were trained on exactly the samples nearest to
them, unless the rounds ran out or few samples still moved. -/
namespace FaceRecognition
open RunningMax

variable {C S D : Type*} [LinearOrder D] (o : KernelOps C S D)

/-! ### The nearest center -/

/-- `label` is the first of the centers with the smallest score for `sample`. -/
structure IsNearest (centers : List C) (sample : S) (label : Nat) : Prop where
  lt : label < centers.length
  le : ∀ c ∈ centers, o.score centers[label] sample ≤ o.score c sample
  first : ∀ j (h : j < label), o.score centers[label] sample < o.score centers[j] sample

/-- The scan for a smaller score is a running maximum in the opposite order. -/
theorem labelLoop_eq_scan (label : Nat) (best_score : D) (i : Nat) (scores : List D) :
    (labelLoop label best_score i scores : Int) =
      scan (S := Dᵒᵈ) (fun _ => true) i (OrderDual.toDual best_score) label
        (scores.map OrderDual.toDual) := by
  induction scores generalizing label best_score i with
  | nil => rfl
  | cons temp rest ih =>
    rw [labelLoop, List.map_cons, scan]
    by_cases h : temp < best_score
    · rw [if_pos h, if_pos ⟨rfl, OrderDual.toDual_lt_toDual.mpr h⟩, ih]
      rfl
    · rw [if_neg h, if_neg (fun hs => h (OrderDual.toDual_lt_toDual.mp hs.2)), ih]
      rfl

theorem labelLoop_nearest (c : C) (centers : List C) (sample : S) :
    IsNearest o (c :: centers) sample
      (labelLoop 0 (o.score c sample) 1 (centers.map fun c => o.score c sample)) := by
  have hscan := labelLoop_eq_scan 0 (o.score c sample) 1 (centers.map fun c => o.score c sample)
  rw [List.map_map] at hscan
  rcases scan_cases (S := Dᵒᵈ) (fun _ => true)
    (centers.map (OrderDual.toDual ∘ fun c => o.score c sample)) 1
    (OrderDual.toDual (o.score c sample)) 0 with ⟨hr, hmax⟩ | ⟨k, s, hr, hb⟩
  · have hlabel : labelLoop 0 (o.score c sample) 1 (centers.map fun c => o.score c sample) = 0 := by
      have := hscan.trans hr
      omega
    rw [hlabel]
    refine ⟨by simp, fun c' hc' => ?_, by omega⟩
    rcases List.mem_cons.mp hc' with rfl | hc'
    · exact le_rfl
    · exact not_lt.mp (hmax _ (List.mem_map_of_mem hc') rfl)
  · have hlabel : labelLoop 0 (o.score c sample) 1 (centers.map fun c => o.score c sample) =
        k + 1 := by
      have := hscan.trans hr
      omega
    obtain ⟨hk, hs⟩ := List.getElem?_eq_some_iff.mp hb.at_index
    rw [List.length_map] at hk
    rw [List.getElem_map] at hs
    subst hs
    rw [hlabel]
    refine ⟨by simpa using hk, fun c' hc' => ?_, fun j hj => ?_⟩
    · rcases List.mem_cons.mp hc' with rfl | hc'
      · exact hb.above.le
      · exact not_lt.mp (hb.maximal _ (List.mem_map_of_mem hc') rfl)
    · cases j with
      | zero => exact hb.above
      | succ j =>
        have hjk : j < centers.length := by omega
        refine not_le.mp (hb.first j (by omega) _ ?_ rfl)
        rw [List.getElem?_map, List.getElem?_eq_getElem hjk]
        rfl

/-- The label that a sample gets from a list of centers that is not empty. -/
def nearest (centers : List C) (sample : S) : Nat :=
  match centers with
  | [] => 0
  | c :: centers => labelLoop 0 (o.score c sample) 1 (centers.map fun c => o.score c sample)

theorem nearest_isNearest {centers : List C} (h : 0 < centers.length) (sample : S) :
    IsNearest o centers sample (nearest o centers sample) := by
  cases centers with
  | nil => simp at h
  | cons c centers => exact labelLoop_nearest o c centers sample

theorem kkmeansLabel_eq {centers : List C} (h : 0 < centers.length) (sample : S) :
    kkmeansLabel o centers sample = .ok (nearest o centers sample) := by
  cases centers with
  | nil => simp at h
  | cons c centers => rfl

theorem kkmeansLabels_eq {centers : List C} (h : 0 < centers.length) (samples : List S) :
    kkmeansLabels o centers samples = .ok (samples.map (nearest o centers)) := by
  induction samples with
  | nil => rfl
  | cons s samples ih =>
    rw [kkmeansLabels, kkmeansLabel_eq o h, Except.ok_bind, ih, Except.ok_bind, List.map_cons]

/-! ### One round -/

/-- The samples with the label `j`, in order. -/
def classOf (j : Nat) (labels : List Nat) (samples : List S) : List S :=
  ((labels.zip samples).filter fun p => p.1 = j).map Prod.snd

/-- Every center trained anew on its class. -/
def classCenters (centers : List C) (labels : List Nat) (samples : List S) : List C :=
  centers.mapIdx fun j c => (classOf j labels samples).foldl o.train (o.clearDictionary c)

omit [LinearOrder D] in
/-- The centers are trained in turn as the samples come, each of them on its class in order. -/
theorem retrain_eq (centers : List C) {labels : List Nat} (samples : List S)
    (h : ∀ l ∈ labels, l < centers.length) :
    retrain o centers labels samples =
      .ok (centers.mapIdx fun j c => (classOf j labels samples).foldl o.train c) := by
  induction labels generalizing centers samples with
  | nil => simp [retrain, classOf, List.mapIdx_eq_zipIdx_map]
  | cons l labels ih =>
    cases samples with
    | nil => simp [retrain, classOf, List.mapIdx_eq_zipIdx_map]
    | cons s samples =>
      obtain ⟨hl, hrest⟩ := List.forall_mem_cons.mp h
      rw [retrain, access_of_lt hl, Except.ok_bind, ih _ _ (by simpa using hrest)]
      congr 1
      apply List.ext_getElem (by simp)
      intro j hj _
      by_cases hlj : l = j
      · simp [classOf, hlj]
      · simp [classOf, hlj, List.getElem_set_of_ne hlj]

omit [LinearOrder D] in
theorem retrain_cleared (centers : List C) {labels : List Nat} (samples : List S)
    (h : ∀ l ∈ labels, l < centers.length) :
    retrain o (centers.map o.clearDictionary) labels samples =
      .ok (classCenters o centers labels samples) := by
  rw [retrain_eq o _ _ (by simpa using h), classCenters]
  congr 1
  apply List.ext_getElem (by simp)
  intro j hj _
  simp

/-- The centers and the assignments after so many rounds that changed an assignment. -/
def afterRounds (samples : List S) (seeds : List C) : Nat → List C × List Nat
  | 0 => (seeds, (List.range samples.length).map o.stale)
  | t + 1 =>
    let centers := (afterRounds samples seeds t).1
    let labels := samples.map (nearest o centers)
    (classCenters o centers labels samples, labels)

/-- How many samples leave their center in the round after `t`. -/
def movedAfter (samples : List S) (seeds : List C) (t : Nat) : Nat :=
  let (centers, assignments) := afterRounds o samples seeds t
  numChanged (samples.map (nearest o centers)) assignments

theorem afterRounds_length (samples : List S) (seeds : List C) (t : Nat) :
    (afterRounds o samples seeds t).1.length = seeds.length := by
  induction t with
  | zero => rfl
  | succ t ih => simpa [afterRounds, classCenters] using ih

/-! ### The loop -/

/-- Training stops after `t` rounds: no assignment changes, too few changed, or it was the last
round. -/
def StopsAfter (samples : List S) (seeds : List C) (max_iter t : Nat) : Prop :=
  t = max_iter ∨ movedAfter o samples seeds t = 0 ∨
    ∃ u, t = u + 1 ∧ movedAfter o samples seeds u < samples.length / 100

theorem trainLoop_stable (samples : List S) (min_num_change rounds : Nat) (centers : List C)
    (labels : List Nat) (num_changed : Nat) :
    trainLoop o samples min_num_change rounds centers labels false num_changed = .ok centers := by
  cases rounds with
  | zero => rfl
  | succ rounds => rw [trainLoop, if_neg (fun h => absurd h.1 (by simp))]

/-- The loop from the state after `t` rounds to the first round at which it stops. -/
theorem trainLoop_eq {samples : List S} {seeds : List C} (h : 0 < seeds.length)
    {max_iter t rounds num_changed : Nat} (hrounds : t + rounds = max_iter)
    (hnum : t = 0 ∧ num_changed = samples.length / 100 ∨
      ∃ u, t = u + 1 ∧ num_changed = movedAfter o samples seeds u) :
    ∃ T, t ≤ T ∧ T ≤ max_iter ∧
      trainLoop o samples (samples.length / 100) rounds (afterRounds o samples seeds t).1
        (afterRounds o samples seeds t).2 true num_changed = .ok (afterRounds o samples seeds T).1 ∧
      StopsAfter o samples seeds max_iter T ∧
      ∀ u, t ≤ u → u < T → ¬ StopsAfter o samples seeds max_iter u := by
  induction rounds generalizing t num_changed with
  | zero => exact ⟨t, le_rfl, by omega, rfl, .inl (by omega), by omega⟩
  | succ rounds ih =>
    have hlen : 0 < (afterRounds o samples seeds t).1.length := by rwa [afterRounds_length]
    have hstop (hstops : StopsAfter o samples seeds max_iter t) : ∀ u, t ≤ u → u < t →
        ¬ StopsAfter o samples seeds max_iter u := fun u hu hut => by omega
    rw [trainLoop]
    by_cases hmin : samples.length / 100 ≤ num_changed
    · rw [if_pos ⟨rfl, hmin⟩, kkmeansLabels_eq o hlen]
      simp only [Except.ok_bind]
      by_cases h0 : numChanged (samples.map (nearest o (afterRounds o samples seeds t).1))
          (afterRounds o samples seeds t).2 = 0
      · exact ⟨t, le_rfl, by omega, by rw [if_pos h0, trainLoop_stable], .inr (.inl h0), by omega⟩
      · have hlt : ∀ l ∈ samples.map (nearest o (afterRounds o samples seeds t).1),
            l < (afterRounds o samples seeds t).1.length := by
          intro l hl
          obtain ⟨s, -, rfl⟩ := List.mem_map.mp hl
          exact (nearest_isNearest o hlen s).lt
        obtain ⟨T, htT, hT, heq, hstops, hbefore⟩ := ih (t := t + 1)
          (by omega) (.inr ⟨t, rfl, rfl⟩)
        refine ⟨T, by omega, hT, ?_, hstops, fun u hu huT => ?_⟩
        · rw [if_neg h0, retrain_cleared o _ _ hlt, Except.ok_bind]
          exact heq
        · rcases Nat.eq_or_lt_of_le hu with rfl | hu
          · rintro (hmax | hmoved | ⟨v, rfl, hfew⟩)
            · omega
            · exact h0 hmoved
            · rcases hnum with ⟨hzero, -⟩ | ⟨w, hw, rfl⟩
              · omega
              · obtain rfl : v = w := by omega
                omega
          · exact hbefore u hu huT
    · refine ⟨t, le_rfl, by omega, if_neg fun hgo => hmin hgo.2, ?_, by omega⟩
      rcases hnum with ⟨-, rfl⟩ | ⟨u, hu, rfl⟩
      · omega
      · exact .inr (.inr ⟨u, hu, not_le.mp hmin⟩)

omit [LinearOrder D] in
theorem numChanged_eq_zero {labels assignments : List Nat}
    (h : labels.length = assignments.length) (h0 : numChanged labels assignments = 0) :
    labels = assignments := by
  induction labels generalizing assignments with
  | nil => exact (List.eq_nil_of_length_eq_zero h.symm).symm
  | cons l labels ih =>
    cases assignments with
    | nil => simp at h
    | cons a assignments =>
      rw [numChanged, List.zip_cons_cons, List.filter_cons] at h0
      by_cases hal : a = l
      · rw [if_neg (by simpa using hal)] at h0
        rw [hal, ih (by simpa using h) h0]
      · rw [if_pos (by simpa using hal)] at h0
        simp at h0

/-- Every center is trained on exactly the samples that are nearest to it. -/
def Settled (samples : List S) (trained : List C) : Prop :=
  ∃ cleared, trained = classCenters o cleared (samples.map (nearest o trained)) samples

theorem settled_of_not_moved {samples : List S} {seeds : List C} {t : Nat}
    (h : movedAfter o samples seeds (t + 1) = 0) :
    Settled o samples (afterRounds o samples seeds (t + 1)).1 := by
  have hsame : samples.map (nearest o (afterRounds o samples seeds (t + 1)).1) =
      (afterRounds o samples seeds (t + 1)).2 := numChanged_eq_zero (by simp [afterRounds]) h
  refine ⟨(afterRounds o samples seeds t).1, ?_⟩
  rw [hsame]
  rfl

/-- Unless its 1000 rounds run out, training ends with settled centers, or with its seeds when these
label the samples as the array `assignments` did that nothing had been written to; with 200 samples
or more also after a round in which less than a hundredth of them moved. -/
theorem doTrain_settles {centers : List C} {initial_centers : List S} (samples : List S)
    (h : 0 < centers.length) (hinit : initial_centers.length = centers.length) :
    ∃ seeds T, seedCenters o initial_centers 0 centers = .ok seeds ∧ T ≤ 1000 ∧
      doTrain o centers samples initial_centers = .ok (afterRounds o samples seeds T).1 ∧
      (∀ t < T, movedAfter o samples seeds t ≠ 0) ∧
      (T < 1000 →
        (T = 0 ∧ samples.map (nearest o seeds) = (List.range samples.length).map o.stale) ∨
        Settled o samples (afterRounds o samples seeds T).1 ∨
        (200 ≤ samples.length ∧ ∃ t, T = t + 1 ∧
          movedAfter o samples seeds t < samples.length / 100)) := by
  obtain ⟨seeds, hs, hslen⟩ := seedCenters_ok o initial_centers 0 centers (by omega)
  have hpos : 0 < seeds.length := by omega
  have hloop : 0 = 0 ∧ samples.length / 100 = samples.length / 100 ∨
      ∃ u, 0 = u + 1 ∧ samples.length / 100 = movedAfter o samples seeds u := .inl ⟨rfl, rfl⟩
  obtain ⟨T, -, hT, heq, hstops, hbefore⟩ := trainLoop_eq o hpos (Nat.zero_add 1000) hloop
  have hmoved : ∀ t < T, movedAfter o samples seeds t ≠ 0 := fun t ht h0 =>
    hbefore t (Nat.zero_le _) ht (.inr (.inl h0))
  refine ⟨seeds, T, hs, hT, by rw [doTrain, hs]; exact heq, hmoved, fun hlt => ?_⟩
  rcases hstops with hmax | h0 | ⟨t, rfl, hfew⟩
  · omega
  · cases T with
    | zero => exact .inl ⟨rfl, numChanged_eq_zero (by simp) h0⟩
    | succ t => exact .inr (.inl (settled_of_not_moved o h0))
  · have hpos := hmoved t (Nat.lt_succ_self t)
    exact .inr (.inr ⟨by omega, t, rfl, hfew⟩)

/-- Rationals with their exact mean; the array holds no index of a center. -/
def averageOps : KernelOps (List ℚ) ℚ ℚ where
  kernel x y := x * y
  infinity := 1000000
  sort l := l.mergeSort fun a b => a.dist ≤ b.dist
  sort_perm l := l.mergeSort_perm _
  clearDictionary _ := []
  train c x := c ++ [x]
  score c x := |x - c.sum / c.length|
  stale _ := 7

theorem doTrain_settles_average :
    let samples : List ℚ := [0, 1, 10, 11]
    ∃ seeds T, seedCenters averageOps [0, 1] 0 [[], []] = .ok seeds ∧ T ≤ 1000 ∧
      doTrain averageOps [[], []] samples [0, 1] = .ok (afterRounds averageOps samples seeds T).1 ∧
      (∀ t < T, movedAfter averageOps samples seeds t ≠ 0) ∧
      (T < 1000 →
        (T = 0 ∧ samples.map (nearest averageOps seeds) =
          (List.range samples.length).map averageOps.stale) ∨
        Settled averageOps samples (afterRounds averageOps samples seeds T).1 ∨
        (200 ≤ samples.length ∧ ∃ t, T = t + 1 ∧
          movedAfter averageOps samples seeds t < samples.length / 100)) :=
  doTrain_settles averageOps [0, 1, 10, 11] (by decide) rfl

end FaceRecognition
