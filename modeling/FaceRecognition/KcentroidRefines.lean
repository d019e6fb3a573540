import FaceRecognition.RadialBasisKernel
import FaceRecognition.Library.SparseMean

/-! `kcentroid` keeps the mean of its samples in the feature space: with the matrices read as
projections, its training is that of a sparse mean. The scalars are the real numbers. -/
namespace FaceRecognition.Kcentroid
open GramSpan SparseMean
open scoped RealInnerProductSpace

variable {S H : Type*} [NormedAddCommGroup H] [InnerProductSpace ℝ H]
variable {p : KcentroidSettings S ℝ} {φ : S → H}

/-- The settings as limits for the sparse mean. -/
noncomputable def budget (p : KcentroidSettings S ℝ) : Budget where
  tolerance := p.my_tolerance
  epsilon := ScalarLimits.epsilon
  room := p.my_max_dictionary_size
  byStrength := !p.my_remove_oldest_first

section Abstraction
variable [DecidableEq H]

/-- A centroid in the feature space. -/
noncomputable def abstracted (φ : S → H) (c : Kcentroid S ℝ) : State H where
  vectors := members (c.dict.vectors φ)
  center := c.center φ
  crowded := decide (c.min_strength ≠ 0)

theorem card_members {n : Nat} {d : Dictionary S ℝ n} (h : d.Sound p.kernel)
    (hφ : IsFeatureMap p.kernel φ) : (members (d.vectors φ)).card = n := by
  rw [members, Finset.card_image_of_injective _ (d.vectors_injective h hφ), Finset.card_fin]

theorem isWeakest_of_le {n : Nat} {d : Dictionary S ℝ (n + 1)} (h : d.Sound p.kernel)
    (hφ : IsFeatureMap p.kernel φ) {i : Fin (n + 1)} (hi : ∀ j, d.strength i ≤ d.strength j) :
    IsWeakest (members (d.vectors φ)) (d.vectors φ i) := by
  refine ⟨mem_members.mpr ⟨i, rfl⟩, fun v hv => ?_⟩
  obtain ⟨j, rfl⟩ := mem_members.mp hv
  rw [← d.strength_eq_residual h hφ, ← d.strength_eq_residual h hφ]
  exact hi j

/-- The two tests of the training are the ones of the sparse mean. -/
theorem novel_iff (hφ : IsFeatureMap p.kernel φ) (htol : 0 < p.my_tolerance) {n : Nat}
    {d : Dictionary S ℝ (n + 1)} (h : d.Sound p.kernel) {min_strength : ℝ} {min_vect_idx : Nat}
    (hweak : min_strength = 0 ∨ d.Weakest (min_strength, min_vect_idx)) (center : H) (x : S) :
    Novel (budget p) ⟨members (d.vectors φ), center, decide (min_strength ≠ 0)⟩ (φ x) ↔
      min_strength < d.delta p.kernel x ∧ p.my_tolerance < d.delta p.kernel x := by
  have hres := d.delta_eq_residual h hφ x
  have hne : members (d.vectors φ) ≠ ∅ := Finset.ne_empty_of_mem (mem_members.mpr ⟨0, rfl⟩)
  constructor
  · rintro ⟨htolerance, hstrength⟩
    have hdelta : p.my_tolerance < d.delta p.kernel x :=
      hres ▸ (if_neg hne).symm.trans_lt htolerance
    refine ⟨?_, hdelta⟩
    rcases hweak with h0 | hw
    · exact h0 ▸ htol.trans hdelta
    · have hpos : 0 < min_strength := hw.pos h hφ
      obtain ⟨i, hi, hleast⟩ := hw
      have hlt := hstrength (decide_eq_true hpos.ne') _ (isWeakest_of_le h hφ hleast)
      rw [(Prod.mk.inj hi).1, d.strength_eq_residual h hφ, hres]
      exact hlt
  · rintro ⟨hstrength, htolerance⟩
    refine ⟨(if_neg hne).trans_lt (hres ▸ htolerance), fun hcrowded w hw => ?_⟩
    rcases hweak with h0 | ⟨i, hi, -⟩
    · exact absurd h0 (of_decide_eq_true hcrowded)
    · have hle := hw.2 _ (mem_members.mpr ⟨i, rfl⟩)
      rw [(Prod.mk.inj hi).1, d.strength_eq_residual h hφ, hres] at hstrength
      exact hle.trans_lt hstrength

theorem TrainCase.refines (hφ : IsFeatureMap p.kernel φ) (htol : 0 < p.my_tolerance) {n : Nat}
    {d : Dictionary S ℝ (n + 1)} {c c' : Kcentroid S ℝ} {x : S} {cscale xscale : ℝ}
    (hcase : TrainCase p c d x cscale xscale c') (h : d.Sound p.kernel)
    (hweak : c.min_strength = 0 ∨ p.my_remove_oldest_first = false ∧
      d.Weakest (c.min_strength, c.min_vect_idx)) :
    SparseMean.Step (budget p) (φ x) cscale xscale
      ⟨members (d.vectors φ), d.center φ, decide (c.min_strength ≠ 0)⟩ (abstracted φ c') := by
  have hnovel := novel_iff hφ htol h (hweak.imp id And.right) (d.center φ) x
  cases hcase with
  | blend hnot =>
    have hstep : Step (budget p) (φ x) cscale xscale _ _ := Step.blend (mt hnovel.mp hnot)
    rwa [← d.center_blend h hφ x] at hstep
  | add hstrength htolerance hroom =>
    have hcard : (members (d.vectors φ)).card < p.my_max_dictionary_size := by
      rwa [card_members h hφ]
    have hstep : Step (budget p) (φ x) cscale xscale _ _ :=
      Step.add (hnovel.mpr ⟨hstrength, htolerance⟩) hcard
    rwa [← d.center_add, ← d.members_add] at hstep
  | replace hstrength htolerance hfull i weakest holdest hweakest =>
    have hvectors : members (((d.remove i).add x ((d.remove i).column p.kernel x) (p.kernel x x)
        cscale xscale).vectors φ) =
          insert (φ x) ((members (d.vectors φ)).erase (d.vectors φ i)) := by
      rw [Dictionary.members_add, d.members_remove h hφ]
    have hcenter : ((d.remove i).add x ((d.remove i).column p.kernel x) (p.kernel x x) cscale
        xscale).center φ =
          cscale • projection ((members (d.vectors φ)).erase (d.vectors φ i)) (d.center φ) +
            xscale • φ x := by
      rw [Dictionary.center_add, d.center_remove h hφ, d.members_remove h hφ]
    have hcrowded : decide (weakest.1 ≠ 0) = (budget p).byStrength := by
      cases hold : p.my_remove_oldest_first with
      | true =>
        have h0 := hweak.resolve_right (by simp [hold])
        simp [budget, hold, (holdest hold).2, h0]
      | false =>
        have hpos := (hweakest hold).2.pos
          (d.replace_sound h hφ i (htol.trans htolerance) cscale xscale) hφ
        simp [budget, hold, hpos.ne']
    have hstep : Step (budget p) (φ x) cscale xscale _ _ := Step.replace
      (hnovel.mpr ⟨hstrength, htolerance⟩)
      (show p.my_max_dictionary_size ≤ (members (d.vectors φ)).card by rwa [card_members h hφ])
      (d.vectors φ i) (mem_members.mpr ⟨i, rfl⟩)
      (fun hs => isWeakest_of_le h hφ (hweakest (by simpa [budget] using hs)).1)
    rwa [← hvectors, ← hcenter, ← hcrowded] at hstep

/-- With an empty dictionary there is nothing to scale. -/
theorem abstracted_empty {c : Kcentroid S ℝ} (h : Convention p c) (hsize : c.size = 0) :
    abstracted φ c = ⟨∅, 0, false⟩ := by
  obtain ⟨size, d, min_strength, min_vect_idx, samples_seen, bias, stale⟩ := c
  obtain rfl : size = 0 := hsize
  have h0 : min_strength = 0 := h.weakest.resolve_right fun hw => hw.2.2
  simp [abstracted, center, Dictionary.center, combo, members, h0]

/-- A step of the training is a step of the sparse mean. -/
theorem StepCase.refines (hφ : IsFeatureMap p.kernel φ) (htol : 0 < p.my_tolerance)
    (hmax : 1 < p.my_max_dictionary_size) {c c' : Kcentroid S ℝ} {x : S} {cscale xscale : ℝ}
    (hstep : StepCase p c x cscale xscale c') (h : Convention p c) :
    SparseMean.Step (budget p) (φ x) cscale xscale (abstracted φ c) (abstracted φ c') := by
  have habs : |p.kernel x x| = residual ∅ (φ x) := by
    rw [residual_empty, hφ.kernel_eq, abs_of_nonneg real_inner_self_nonneg]
  cases hstep with
  | ignored hsize hx =>
    rw [habs] at hx
    have hblend : Step (budget p) (φ x) cscale xscale ⟨∅, 0, false⟩ _ :=
      Step.blend fun hnovel => hx ((if_pos rfl).symm.trans_lt hnovel.tolerance)
    rw [abstracted_empty h hsize]
    simpa using hblend
  | first hsize hx =>
    rw [habs] at hx
    have hnovel : Novel (budget p) ⟨∅, 0, false⟩ (φ x) :=
      ⟨(if_pos rfl).trans_lt hx, fun hcrowded => absurd hcrowded (by simp)⟩
    have hadd : Step (budget p) (φ x) cscale xscale _ _ :=
      Step.add hnovel (zero_lt_one.trans hmax)
    have h0 : c.min_strength = 0 := h.weakest.resolve_right (by rintro ⟨-, hfull, -⟩; omega)
    have hnew : abstracted φ { c with
        size := 1, dict := .first x (p.kernel x x) xscale, bias_is_stale := true } =
          ⟨insert (φ x) ∅, cscale • 0 + xscale • φ x, false⟩ := by
      simp only [abstracted, center, Dictionary.center_first, h0]
      simp [members, Dictionary.vectors, Dictionary.first]
    rwa [abstracted_empty h hsize, hnew]
  | trained d tested c' bias stale hc hcase =>
    subst hc
    exact hcase.refines hφ htol h.sound (h.weakest.imp id fun hw => ⟨hw.1, hw.2.2⟩)

theorem StepCase.samples_seen_eq {c c' : Kcentroid S ℝ} {x : S} {cscale xscale : ℝ}
    (hstep : StepCase p c x cscale xscale c') : c'.samples_seen = c.samples_seen := by
  cases hstep with
  | ignored => rfl
  | first => rfl
  | trained d tested c' bias stale hc hcase =>
    subst hc
    cases hcase <;> rfl

/-! ### Training on a list -/

omit [NormedAddCommGroup H] [InnerProductSpace ℝ H] [DecidableEq H] in
theorem applyAll_append (p : KcentroidSettings S ℝ) (c : Kcentroid S ℝ) (as bs : List (Op S)) :
    c.applyAll p (as ++ bs) = (c.applyAll p as).bind fun c => c.applyAll p bs := by
  induction as generalizing c with
  | nil => rfl
  | cons a as ih =>
    rw [List.cons_append, applyAll, applyAll]
    cases c.apply p a with
    | error e => rfl
    | ok c => exact ih c

/-- A centroid that is trained on a list holds the sparse mean of it. -/
theorem trainAll_meanRun (hφ : IsFeatureMap p.kernel φ) (htol : 0 < p.my_tolerance)
    (hmax : 1 < p.my_max_dictionary_size) (xs : List S) :
    ∃ c, clearDictionary.applyAll p (xs.map .train) = .ok c ∧ Convention p c ∧
      c.samples_seen = xs.length ∧ MeanRun (budget p) (xs.map φ) (abstracted φ c) := by
  induction xs using List.reverseRecOn with
  | nil =>
    refine ⟨clearDictionary, rfl, clearDictionary_convention p, by simp [clearDictionary], ?_⟩
    rw [abstracted_empty (clearDictionary_convention p) rfl]
    exact .nil
  | append_singleton xs x ih =>
    obtain ⟨c, hc, hconv, hseen, hrun⟩ := ih
    have hconv' := samples_seen_convention hconv (c.samples_seen + 1)
    obtain ⟨c', hc', hstep⟩ := trainScaled_cases hφ htol hconv x (1 - 1 / (c.samples_seen + 1))
      (1 / (c.samples_seen + 1))
    have htrain : c.apply p (.train x) = .ok c' := hc'
    refine ⟨c', ?_, hstep.convention hφ htol hmax hconv', ?_, ?_⟩
    · rw [List.map_append, applyAll_append, hc, Except.ok_bind, List.map_singleton, applyAll,
        htrain, Except.ok_bind, applyAll]
    · rw [hstep.samples_seen_eq, List.length_append, List.length_singleton, Nat.cast_add,
        Nat.cast_one, hseen]
    · rw [List.map_append, List.map_singleton]
      refine .snoc hrun (φ x) ?_
      rw [List.length_map, ← hseen]
      exact hstep.refines hφ htol hmax hconv'

end Abstraction

/-! ### Results -/

/-- Every run of operations from a clear centroid succeeds and ends in a state that meets the
convention. -/
theorem convention_of_run (hφ : IsFeatureMap p.kernel φ) (htol : 0 < p.my_tolerance)
    (hmax : 1 < p.my_max_dictionary_size) (ops : List (Op S)) :
    ∃ c, clearDictionary.applyAll p ops = .ok c ∧ Convention p c :=
  applyAll_convention hφ htol hmax (clearDictionary_convention p) ops

/-- Two vectors at most, and a third sample. -/
theorem convention_of_three :
    let p : KcentroidSettings (ℝ × ℝ) ℝ := ⟨radialBasisKernel (1 : NNReal), 0.01, 2, false⟩
    ∃ c, clearDictionary.applyAll p
      [.train (0, 0), .train (3, 0), .score (1, 1), .train (0, 3), .clear, .testAndTrain (1, 1)] =
        .ok c ∧ Convention p c :=
  convention_of_run (sampleFeature_isFeatureMap 1) (by norm_num) (by norm_num) _

/-- As long as no vector had to make room, which `min_strength` shows, every score is within the
tolerance of the distance to the exact mean. -/
theorem score_near_mean (hφ : IsFeatureMap p.kernel φ) (htol : 0 < p.my_tolerance)
    (hmax : 1 < p.my_max_dictionary_size) (hold : p.my_remove_oldest_first = false) {xs : List S}
    (hxs : xs ≠ []) :
    ∃ c, clearDictionary.applyAll p (xs.map .train) = .ok c ∧ (c.min_strength = 0 → ∀ x,
      |c.score p x - ‖φ x - (1 / xs.length : ℝ) • (xs.map φ).sum‖| ≤
        √(max p.my_tolerance ScalarLimits.epsilon)) := by
  classical
  obtain ⟨c, hc, hconv, -, hrun⟩ := trainAll_meanRun hφ htol hmax xs
  refine ⟨c, hc, fun h0 x => ?_⟩
  have hn : (0 : ℝ) < xs.length := by exact_mod_cast List.length_pos_of_ne_nil hxs
  have herr := hrun.error_le (by simp [budget, hold]) (by simp [abstracted, h0])
  rw [List.length_map] at herr
  have hmean : c.center φ - (1 / xs.length : ℝ) • (xs.map φ).sum =
      (1 / xs.length : ℝ) • ((xs.length : ℝ) • c.center φ - (xs.map φ).sum) := by
    rw [smul_sub, smul_smul, one_div_mul_cancel hn.ne', one_smul]
  rw [score_eq_norm hφ hconv]
  calc
    |‖φ x - c.center φ‖ - ‖φ x - (1 / xs.length : ℝ) • (xs.map φ).sum‖|
        ≤ ‖c.center φ - (1 / xs.length : ℝ) • (xs.map φ).sum‖ := by
          refine (abs_norm_sub_norm_le _ _).trans_eq ?_
          rw [sub_sub_sub_cancel_left, norm_sub_rev]
    _ = 1 / xs.length * ‖(xs.length : ℝ) • c.center φ - (xs.map φ).sum‖ := by
          rw [hmean, norm_smul_of_nonneg (by positivity)]
    _ ≤ 1 / xs.length * (xs.length * √(max p.my_tolerance ScalarLimits.epsilon)) := by
          exact mul_le_mul_of_nonneg_left herr (by positivity)
    _ = √(max p.my_tolerance ScalarLimits.epsilon) := by
          rw [← mul_assoc, one_div_mul_cancel hn.ne', one_mul]

theorem score_near_mean_two :
    let p : KcentroidSettings (ℝ × ℝ) ℝ := ⟨radialBasisKernel (1 : NNReal), 0.01, 2, false⟩
    let φ := sampleFeature 1
    let xs : List (ℝ × ℝ) := [(0, 0), (3, 0)]
    ∃ c, clearDictionary.applyAll p (xs.map .train) = .ok c ∧ (c.min_strength = 0 → ∀ x,
      |c.score p x - ‖φ x - (1 / xs.length : ℝ) • (xs.map φ).sum‖| ≤
        √(max p.my_tolerance ScalarLimits.epsilon)) :=
  score_near_mean (sampleFeature_isFeatureMap 1) (by norm_num) (by norm_num) rfl (by simp)

end FaceRecognition.Kcentroid
