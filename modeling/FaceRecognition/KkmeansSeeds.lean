import FaceRecognition.Kkmeans
import FaceRecognition.Library.FarthestFirst
import Mathlib.Analysis.InnerProductSpace.Basic

/-! `pick_initial_centers` chooses centers that are nearly as good as any others: it is the
farthest-first choice that leaves a hundredth of the samples out of account. The distances are exact. -/
namespace FaceRecognition
open FarthestFirst

section Choice
variable {C S D : Type*} [LinearOrder D] [Add D] [Sub D] [Mul D] [OfNat D 2] (o : KernelOps C S D)

/-- `dist`, as the kernel gives it. -/
def seedDistance (x c : S) : D := o.kernel c c + o.kernel x x - 2 * o.kernel x c

theorem rescore_getElem (c : S) (s : Nat) {samples : List S} {scores : List (CenterScore D)}
    (hlen : scores.length = samples.length) {k : Nat} (hk : k < samples.length)
    (hk' : k < (rescore o c s samples scores).length) :
    (rescore o c s samples scores)[k] =
      if seedDistance o samples[k] c < scores[k].dist then
        ⟨s + k, seedDistance o samples[k] c⟩ else scores[k] := by
  induction samples generalizing s scores k with
  | nil => simp at hk
  | cons x samples ih =>
    cases scores with
    | nil => simp at hlen
    | cons d scores =>
      cases k with
      | zero => rfl
      | succ k =>
        rw [List.length_cons, List.length_cons, Nat.add_right_cancel_iff] at hlen
        have hk := Nat.lt_of_succ_lt_succ hk
        have hrest := ih (s + 1) hlen hk (by rw [rescore_length]; omega)
        simp only [rescore, List.getElem_cons_succ, hrest]
        rw [show s + (k + 1) = s + 1 + k by omega]

/-- The scores when the centers in `scored` were taken into account. -/
structure Scored (samples scored : List S) (scores : List (CenterScore D)) : Prop where
  length_eq : scores.length = samples.length
  dist_eq : ∀ k (h : k < scores.length),
    scores[k].dist = gap (seedDistance o) o.infinity scored samples[k]
  idx_eq : scored ≠ [] → ∀ k (h : k < scores.length), scores[k].idx = k

variable {o} {samples : List S}

theorem scored_start (samples : List S) :
    Scored o samples [] (List.replicate samples.length ⟨0, o.infinity⟩) where
  length_eq := List.length_replicate
  dist_eq k hk := by simp
  idx_eq hne := absurd rfl hne

/-- Scoring the next center; the first one is nearer than nothing, which is what sets `idx`. -/
theorem Scored.snoc {scored : List S} {scores : List (CenterScore D)}
    (h : Scored o samples scored scores)
    (hinf : ∀ x ∈ samples, ∀ c ∈ samples, seedDistance o x c < o.infinity) {c : S}
    (hc : c ∈ samples) : Scored o samples (scored ++ [c]) (rescore o c 0 samples scores) := by
  have hold := h.length_eq
  have hlen := (rescore_length o c 0 samples scores).trans hold
  have hget (k : Nat) (hk : k < (rescore o c 0 samples scores).length) :=
    rescore_getElem o c 0 h.length_eq (hlen ▸ hk) hk
  refine ⟨hlen, fun k hk => ?_, fun _ k hk => ?_⟩
  · have hdist := h.dist_eq k (by omega)
    rw [hget k hk, gap_snoc, ← hdist]
    split
    next hlt => rw [min_eq_right hlt.le]
    next hge => rw [min_eq_left (not_lt.mp hge)]
  · rw [hget k hk, Nat.zero_add]
    split
    next => rfl
    next hge =>
      apply h.idx_eq
      intro hnil
      subst hnil
      have hlt := hinf samples[k] (List.getElem_mem _) c hc
      rw [h.dist_eq k (by omega), gap_nil] at hge
      exact hge hlt

theorem Scored.map_dist {scored : List S} {scores : List (CenterScore D)}
    (h : Scored o samples scored scores) :
    scores.map CenterScore.dist = samples.map (gap (seedDistance o) o.infinity scored) := by
  apply List.ext_getElem (by simp [h.length_eq])
  intro k hk _
  rw [List.length_map] at hk
  rw [List.getElem_map, List.getElem_map, h.dist_eq k hk]

/-- Every round adds a center whose gap stands at the place `bestIdx`. -/
theorem pickLoop_chosen (hinf : ∀ x ∈ samples, ∀ c ∈ samples, seedDistance o x c < o.infinity)
    (hsort : ∀ l, (o.sort l).Pairwise fun a b => a.dist ≤ b.dist) (h : 0 < samples.length)
    (rounds i : Nat) {centers : List S} {scores : List (CenterScore D)}
    (hlen : centers.length = i + 1) (hscored : Scored o samples (centers.take i) scores)
    (hchosen : Chosen (seedDistance o) o.infinity samples (bestIdx samples.length) centers) :
    ∃ picked, pickLoop o samples rounds i centers scores = .ok picked ∧
      picked.length = i + 1 + rounds ∧
      Chosen (seedDistance o) o.infinity samples (bestIdx samples.length) picked := by
  induction rounds generalizing i centers scores with
  | zero => exact ⟨centers, rfl, hlen, hchosen⟩
  | succ rounds ih =>
    have hi : i < centers.length := by omega
    have hnext := hscored.snoc hinf (hchosen.subset _ (List.getElem_mem hi))
    rw [List.take_concat_get' centers i hi, List.take_of_length_le (by omega)] at hnext
    have hperm := o.sort_perm (rescore o centers[i] 0 samples scores)
    have hbest : bestIdx samples.length <
        (o.sort (rescore o centers[i] 0 samples scores)).length := by
      rw [hperm.length_eq, hnext.length_eq]
      exact bestIdx_lt h
    obtain ⟨k, hk, hwin⟩ := List.mem_iff_getElem.mp (hperm.mem_iff.mp (List.getElem_mem hbest))
    have hidx := hnext.idx_eq (List.ne_nil_of_length_pos (by omega)) k hk
    have hdist := hnext.dist_eq k hk
    have hks : k < samples.length := hnext.length_eq ▸ hk
    have hrank : AtRank (samples.map (gap (seedDistance o) o.infinity centers))
        (bestIdx samples.length) (gap (seedDistance o) o.infinity centers samples[k]) := by
      have hsorted := sorted_atRank (l := (o.sort (rescore o centers[i] 0 samples scores)).map
        CenterScore.dist) (List.pairwise_map.mpr (hsort _)) (by rwa [List.length_map])
      rw [List.getElem_map, ← hwin, hdist] at hsorted
      rw [← hnext.map_dist]
      exact hsorted.perm (hperm.map _)
    have hlen' : (centers ++ [samples[k]]).length = i + 1 + 1 := by simp [hlen]
    have htake : (centers ++ [samples[k]]).take (i + 1) = centers := by
      rw [List.take_append_of_le_length (by omega), List.take_of_length_le (by omega)]
    obtain ⟨picked, hp, hplen, hpicked⟩ := ih (i + 1) hlen' (by rwa [htake])
      (.snoc hchosen (List.getElem_mem hks) hrank)
    refine ⟨picked, ?_, by omega, hpicked⟩
    rw [pickLoop, access_of_lt hi, Except.ok_bind]
    simp only [access_of_lt hbest, ← hwin, hidx, access_of_lt hks, Except.ok_bind]
    exact hp

theorem pickInitialCenters_chosen
    (hinf : ∀ x ∈ samples, ∀ c ∈ samples, seedDistance o x c < o.infinity)
    (hsort : ∀ l, (o.sort l).Pairwise fun a b => a.dist ≤ b.dist) (h : 0 < samples.length)
    {num_centers : Nat} (hnum : 0 < num_centers) :
    ∃ picked, pickInitialCenters o num_centers samples = .ok picked ∧
      picked.length = num_centers ∧
      Chosen (seedDistance o) o.infinity samples (bestIdx samples.length) picked := by
  have hfirst : Chosen (seedDistance o) o.infinity samples (bestIdx samples.length) [samples[0]] := by
    refine Chosen.snoc .nil (List.getElem_mem h) ⟨?_, ?_⟩
    · rw [List.countP_eq_zero.mpr (by simp)]
      exact Nat.zero_le _
    · rw [List.countP_eq_length.mpr (by simp), List.length_map]
      exact bestIdx_lt h
  obtain ⟨picked, hp, hplen, hpicked⟩ := pickLoop_chosen hinf hsort h (num_centers - 1) 0 rfl
    (scored_start samples) hfirst
  refine ⟨picked, ?_, by omega, hpicked⟩
  rw [pickInitialCenters, access_of_lt h, Except.ok_bind, hp]

end Choice

/-- One in a hundred samples, rounded up, comes after the place `bestIdx`. -/
theorem bestIdx_eq {size : Nat} (h : 1 < size) : bestIdx size + 1 + (size + 99) / 100 = size := by
  have hq : (2 : ℚ) ≤ size := by exact_mod_cast h
  have hpos : 0 ≤ (size : ℚ) - size * (1 / 100) - 1 := by linarith
  have hdiv := Nat.div_add_mod (size + 99) 100
  have hmod := Nat.mod_lt (size + 99) (show 0 < 100 by omega)
  generalize (size + 99) / 100 = left_out at hdiv ⊢
  generalize (size + 99) % 100 = rest at hdiv hmod
  have hfloor : ⌊(size : ℚ) - size * (1 / 100) - 1⌋ = (size - 1 - left_out : Int) := by
    have hdiv : (100 * left_out + rest : ℚ) = size + 99 := by exact_mod_cast hdiv
    have hmod : (rest : ℚ) ≤ 99 := by exact_mod_cast Nat.le_of_lt_succ hmod
    have hnonneg : (0 : ℚ) ≤ rest := Nat.cast_nonneg _
    rw [Int.floor_eq_iff]
    push_cast
    constructor
    · linarith
    · linarith
  rw [bestIdx, max_eq_right hpos, hfloor]
  omega

section Kernel
variable {C S H : Type*} [NormedAddCommGroup H] [InnerProductSpace ℝ H]
open scoped RealInnerProductSpace

theorem seedDistance_eq {o : KernelOps C S ℝ} {φ : S → H}
    (hkernel : ∀ a b, o.kernel a b = ⟪φ a, φ b⟫) (x c : S) :
    seedDistance o x c = ‖φ x - φ c‖ ^ 2 := by
  rw [seedDistance, hkernel, hkernel, hkernel, norm_sub_sq_real, real_inner_self_eq_norm_sq,
    real_inner_self_eq_norm_sq]
  ring

/-- However as many points are placed in the feature space: when they cover all samples with some
radius, the chosen centers cover all but one in a hundred of them with twice that radius. -/
theorem pickInitialCenters_nearly_best {o : KernelOps C S ℝ} {φ : S → H}
    (hkernel : ∀ a b, o.kernel a b = ⟪φ a, φ b⟫)
    (hsort : ∀ l, (o.sort l).Pairwise fun a b => a.dist ≤ b.dist) {samples : List S}
    (hinf : ∀ x ∈ samples, ∀ c ∈ samples, ‖φ x - φ c‖ ^ 2 < o.infinity)
    (h : 1 < samples.length) {num_centers : Nat} (hnum : 0 < num_centers) :
    ∃ centers, pickInitialCenters o num_centers samples = .ok centers ∧
      centers.length = num_centers ∧
      ∀ (points : List H) (radius : ℝ), points.length ≤ num_centers →
        (∀ x ∈ samples, ∃ y ∈ points, ‖φ x - y‖ ≤ radius) →
        ∃ covered : List S, covered.Sublist samples ∧
          samples.length ≤ covered.length + (samples.length + 99) / 100 ∧
          ∀ x ∈ covered, ∃ c ∈ centers, ‖φ x - φ c‖ ≤ 2 * radius := by
  have htop : ∀ x ∈ samples, ∀ c ∈ samples, seedDistance o x c < o.infinity := by
    intro x hx c hc
    rw [seedDistance_eq hkernel]
    exact hinf x hx c hc
  obtain ⟨centers, hc, hlen, hchosen⟩ :=
    pickInitialCenters_chosen htop hsort (show 0 < samples.length by omega) hnum
  refine ⟨centers, hc, hlen, fun points radius hpoints hcover => ?_⟩
  have hplace := bestIdx_eq h
  have hclose : ∀ x x' y, ‖φ x - y‖ ≤ radius → ‖φ x' - y‖ ≤ radius →
      seedDistance o x x' ≤ (2 * radius) ^ 2 := by
    intro x x' y hx hx'
    rw [seedDistance_eq hkernel]
    have hsum : ‖φ x - φ x'‖ ≤ 2 * radius := by
      calc
        ‖φ x - φ x'‖ = ‖(φ x - y) - (φ x' - y)‖ := by rw [sub_sub_sub_cancel_right]
        _ ≤ ‖φ x - y‖ + ‖φ x' - y‖ := norm_sub_le _ _
        _ ≤ 2 * radius := by linarith
    exact pow_le_pow_left₀ (norm_nonneg _) hsum 2
  obtain ⟨covered, hsub, hmany, hnear⟩ := hchosen.nearly_best (bestIdx_lt (by omega))
    (List.ne_nil_of_length_pos (by omega)) htop points (by omega) (fun x y => ‖φ x - y‖ ≤ radius)
    hcover hclose
  refine ⟨covered, hsub, by omega, fun x hx => ?_⟩
  obtain ⟨c, hc, hle⟩ := hnear x hx
  obtain ⟨y, -, hy⟩ := hcover x (hsub.subset hx)
  have hradius : 0 ≤ radius := (norm_nonneg _).trans hy
  rw [seedDistance_eq hkernel] at hle
  exact ⟨c, hc, le_of_sq_le_sq hle (by linarith)⟩

/-- The linear kernel on a line; the centroids are not used. -/
noncomputable def linearOps : KernelOps Unit ℝ ℝ where
  kernel a b := a * b
  infinity := (1000 : Nat)
  sort l := l.mergeSort fun a b => decide (a.dist ≤ b.dist)
  sort_perm l := l.mergeSort_perm _
  clearDictionary _ := ()
  train _ _ := ()
  score _ s := s
  stale _ := 0

theorem pickInitialCenters_nearly_best_line :
    let samples : List ℝ := [0, 1, 10, 11]
    ∃ centers, pickInitialCenters linearOps 2 samples = .ok centers ∧ centers.length = 2 ∧
      ∀ (points : List ℝ) (radius : ℝ), points.length ≤ 2 →
        (∀ x ∈ samples, ∃ y ∈ points, ‖id x - y‖ ≤ radius) →
        ∃ covered : List ℝ, covered.Sublist samples ∧
          samples.length ≤ covered.length + (samples.length + 99) / 100 ∧
          ∀ x ∈ covered, ∃ c ∈ centers, ‖id x - id c‖ ≤ 2 * radius := by
  have hsort (l : List (CenterScore ℝ)) :
      (linearOps.sort l).Pairwise fun a b => a.dist ≤ b.dist := by
    have htrans (a b c : CenterScore ℝ) (hab : decide (a.dist ≤ b.dist) = true)
        (hbc : decide (b.dist ≤ c.dist) = true) : decide (a.dist ≤ c.dist) = true := by
      simpa using (of_decide_eq_true hab).trans (of_decide_eq_true hbc)
    have htotal (a b : CenterScore ℝ) : (decide (a.dist ≤ b.dist) || decide (b.dist ≤ a.dist)) = true := by
      simpa using le_total a.dist b.dist
    exact (List.pairwise_mergeSort htrans htotal l).imp of_decide_eq_true
  refine pickInitialCenters_nearly_best (φ := (id : ℝ → ℝ)) (fun a b => mul_comm a b) hsort ?_
    (by decide) (by decide)
  simp only [List.mem_cons, List.not_mem_nil, or_false, forall_eq_or_imp, forall_eq, id, linearOps,
    Real.norm_eq_abs, sq_abs]
  norm_num

end Kernel

end FaceRecognition
