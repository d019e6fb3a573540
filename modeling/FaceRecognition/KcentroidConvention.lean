import FaceRecognition.Kcentroid
import FaceRecognition.Library.Run
import FaceRecognition.Matching

/-! The convention of `kcentroid`: the matrices are the kernel matrix of the dictionary and its
inverse, the bias is the squared norm, and the vector to be replaced next is the one that the
others express best. It holds after every run of operations. -/
namespace FaceRecognition
open GramSpan Matrix
open scoped RealInnerProductSpace

noncomputable instance : ScalarLimits ℝ where
  epsilon := ((1 / 2 ^ 52 : ℚ) : ℝ)
  max := ((2 ^ 1024 - 2 ^ 971 : ℕ) : ℝ)

variable {S H : Type*} {n : Nat}

/-- The dictionary in the feature space. -/
def Dictionary.vectors (φ : S → H) (d : Dictionary S ℝ n) : Fin n → H := φ ∘ d.dictionary

theorem Dictionary.vectors_add (φ : S → H) (d : Dictionary S ℝ n) (x : S) (k : Fin n → ℝ)
    (kx cscale xscale : ℝ) :
    (d.add x k kx cscale xscale).vectors φ = Fin.snoc (d.vectors φ) (φ x) :=
  Fin.comp_snoc φ d.dictionary x

theorem Dictionary.members_add [DecidableEq H] (φ : S → H) (d : Dictionary S ℝ n) (x : S)
    (k : Fin n → ℝ) (kx cscale xscale : ℝ) :
    members ((d.add x k kx cscale xscale).vectors φ) = insert (φ x) (members (d.vectors φ)) := by
  rw [vectors_add, members_snoc]

variable [NormedAddCommGroup H] [InnerProductSpace ℝ H]

/-- `φ` maps the samples to the feature space of the kernel. -/
structure IsFeatureMap (kernel : S → S → ℝ) (φ : S → H) : Prop where
  kernel_eq : ∀ x y, kernel x y = ⟪φ x, φ y⟫
  lt_max : ∀ x, kernel x x < ScalarLimits.max

namespace Dictionary

/-- `K` is the kernel matrix of the dictionary and `K_inv` its inverse. -/
structure Sound (kernel : S → S → ℝ) (d : Dictionary S ℝ n) : Prop where
  K_eq : ∀ r c, d.K r c = kernel (d.dictionary r) (d.dictionary c)
  K_inv_mul : d.K_inv * d.K = 1

/-- The sum that the coefficients stand for. -/
def center (φ : S → H) (d : Dictionary S ℝ n) : H := combo (d.vectors φ) d.alpha

variable {kernel : S → S → ℝ} {φ : S → H}

theorem Sound.K_eq_gram {d : Dictionary S ℝ n} (h : d.Sound kernel) (hφ : IsFeatureMap kernel φ) :
    d.K = gram ℝ (d.vectors φ) := by
  ext r c
  rw [h.K_eq, hφ.kernel_eq]
  rfl

theorem Sound.K_inv_mul_gram {d : Dictionary S ℝ n} (h : d.Sound kernel)
    (hφ : IsFeatureMap kernel φ) : d.K_inv * gram ℝ (d.vectors φ) = 1 := by
  rw [← h.K_eq_gram hφ, h.K_inv_mul]

/-- The `delta` of the training: what the dictionary cannot express of a sample. -/
def delta (kernel : S → S → ℝ) (d : Dictionary S ℝ n) (x : S) : ℝ :=
  kernel x x - d.column kernel x ⬝ᵥ (d.K_inv *ᵥ d.column kernel x)

/-- The products that the training computes with a new sample. -/
theorem kernel_column (hφ : IsFeatureMap kernel φ) (d : Dictionary S ℝ n) (x : S) :
    d.column kernel x = fun r => ⟪d.vectors φ r, φ x⟫ := by
  funext r
  rw [column, hφ.kernel_eq, real_inner_comm]
  rfl

/-! ### The operations keep the matrices -/

theorem first_sound {x : S} (hx : kernel x x ≠ 0) (xscale : ℝ) :
    (first x (kernel x x) xscale).Sound kernel where
  K_eq _ _ := rfl
  K_inv_mul := by
    ext i j
    rw [Subsingleton.elim i j, one_apply_eq, mul_apply]
    simp [first, hx]

theorem blend_sound {d : Dictionary S ℝ n} (h : d.Sound kernel) (a : Fin n → ℝ)
    (cscale xscale : ℝ) : (d.blend a cscale xscale).Sound kernel :=
  ⟨h.K_eq, h.K_inv_mul⟩

theorem add_sound {d : Dictionary S ℝ n} (h : d.Sound kernel) (hφ : IsFeatureMap kernel φ) {x : S}
    (hx : d.delta kernel x ≠ 0) (cscale xscale : ℝ) :
    (d.add x (d.column kernel x) (kernel x x) cscale xscale).Sound kernel where
  K_eq r c := by
    have hcomm (y z : S) : kernel y z = kernel z y := by
      rw [hφ.kernel_eq, hφ.kernel_eq, real_inner_comm]
    induction r using Fin.lastCases with
    | last =>
      induction c using Fin.lastCases with
      | last => simp [add]
      | cast c => simp [add, column]
    | cast r =>
      induction c using Fin.lastCases with
      | last => simp [add, column, hcomm x]
      | cast c => simp [add, h.K_eq]
  K_inv_mul := by
    have hsymm : d.K.IsSymm := h.K_eq_gram hφ ▸ gram_isSymm _
    exact borderedInverse_mul hsymm h.K_inv_mul _ _ hx

theorem remove_sound {d : Dictionary S ℝ (n + 1)} (h : d.Sound kernel) (hφ : IsFeatureMap kernel φ)
    (i : Fin (n + 1)) : (d.remove i).Sound kernel where
  K_eq _ _ := h.K_eq _ _
  K_inv_mul := shortenedInverse_mul h.K_inv_mul (diag_pos (h.K_inv_mul_gram hφ) i).ne'

theorem vectors_injective {d : Dictionary S ℝ n} (h : d.Sound kernel) (hφ : IsFeatureMap kernel φ) :
    Function.Injective (d.vectors φ) :=
  (independent (h.K_inv_mul_gram hφ)).injective

theorem center_first (x : S) (kx xscale : ℝ) :
    (first x kx xscale).center φ = xscale • φ x := by
  simp [center, combo, first, vectors]

theorem center_add (d : Dictionary S ℝ n) (x : S) (k : Fin n → ℝ) (kx cscale xscale : ℝ) :
    (d.add x k kx cscale xscale).center φ = cscale • d.center φ + xscale • φ x := by
  rw [center, vectors_add]
  simp only [add, combo_snoc, mul_comm _ cscale, combo_smul]
  rfl

section Projections
variable [DecidableEq H]

theorem delta_eq_residual {d : Dictionary S ℝ n} (h : d.Sound kernel) (hφ : IsFeatureMap kernel φ)
    (x : S) : d.delta kernel x = residual (members (d.vectors φ)) (φ x) := by
  rw [delta, kernel_column hφ, hφ.kernel_eq]
  exact sub_dotProduct_mulVec (h.K_inv_mul_gram hφ) (φ x)

/-! ### The operations in the feature space -/

theorem center_blend {d : Dictionary S ℝ n} (h : d.Sound kernel) (hφ : IsFeatureMap kernel φ)
    (x : S) (cscale xscale : ℝ) :
    (d.blend (d.K_inv *ᵥ d.column kernel x) cscale xscale).center φ =
      cscale • d.center φ + xscale • projection (members (d.vectors φ)) (φ x) := by
  rw [← combo_mulVec (h.K_inv_mul_gram hφ), ← kernel_column hφ, center]
  simp only [blend, combo_add, combo_smul]
  rfl

theorem center_remove {d : Dictionary S ℝ (n + 1)} (h : d.Sound kernel)
    (hφ : IsFeatureMap kernel φ) (i : Fin (n + 1)) :
    (d.remove i).center φ = projection (members ((d.remove i).vectors φ)) (d.center φ) := by
  rw [← combo_mulVec ((remove_sound h hφ i).K_inv_mul_gram hφ), center]
  have hcol : (fun r => (d.K *ᵥ d.alpha) (i.succAbove r)) =
      fun r => ⟪(d.remove i).vectors φ r, d.center φ⟫ := by
    rw [h.K_eq_gram hφ, gram_mulVec]
    rfl
  rw [← hcol]
  rfl

theorem members_remove {d : Dictionary S ℝ (n + 1)} (h : d.Sound kernel)
    (hφ : IsFeatureMap kernel φ) (i : Fin (n + 1)) :
    members ((d.remove i).vectors φ) = (members (d.vectors φ)).erase (d.vectors φ i) :=
  members_succAbove (vectors_injective h hφ) i

/-- The strength of a vector is its squared distance to the span of the others. -/
theorem strength_eq_residual {d : Dictionary S ℝ (n + 1)} (h : d.Sound kernel)
    (hφ : IsFeatureMap kernel φ) (i : Fin (n + 1)) : d.strength i =
      residual ((members (d.vectors φ)).erase (d.vectors φ i)) (d.vectors φ i) := by
  have hi := delta_eq_residual (remove_sound h hφ i) hφ (d.dictionary i)
  have hcol : (fun r => d.K (i.succAbove r) i) = (d.remove i).column kernel (d.dictionary i) := by
    funext r
    rw [h.K_eq, column, hφ.kernel_eq, hφ.kernel_eq, real_inner_comm]
    rfl
  rw [members_remove h hφ] at hi
  rw [strength, hcol, h.K_eq]
  exact hi

end Projections

end Dictionary

/-! ### The weakest vector -/

theorem strengthLoop_spec (strength : Fin n → ℝ) (is : List (Fin n)) (best : ℝ × Nat) :
    (strengthLoop strength is best = best ∨
      ∃ i ∈ is, strengthLoop strength is best = (strength i, i.val)) ∧
      (strengthLoop strength is best).1 ≤ best.1 ∧
      ∀ i ∈ is, (strengthLoop strength is best).1 ≤ strength i := by
  induction is generalizing best with
  | nil => simp [strengthLoop]
  | cons i is ih =>
    rw [strengthLoop]
    by_cases hi : strength i < best.1
    · rw [if_pos hi]
      obtain ⟨hval, hbest, hall⟩ := ih (strength i, i)
      refine ⟨.inr ?_, hbest.trans hi.le, List.forall_mem_cons.mpr ⟨hbest, hall⟩⟩
      rcases hval with heq | ⟨j, hj, heq⟩
      · exact ⟨i, List.mem_cons_self, heq⟩
      · exact ⟨j, List.mem_cons_of_mem i hj, heq⟩
    · rw [if_neg hi]
      obtain ⟨hval, hbest, hall⟩ := ih best
      refine ⟨?_, hbest, List.forall_mem_cons.mpr ⟨hbest.trans (not_lt.mp hi), hall⟩⟩
      rcases hval with heq | ⟨j, hj, heq⟩
      · exact .inl heq
      · exact .inr ⟨j, List.mem_cons_of_mem i hj, heq⟩

namespace Dictionary
variable {kernel : S → S → ℝ} {φ : S → H}

/-- The vector at `idx` has the least strength of all, `strength`. -/
def Weakest : {n : Nat} → Dictionary S ℝ n → ℝ × Nat → Prop
  | 0, _, _ => False
  | n + 1, d, weakest => ∃ i : Fin (n + 1), weakest = (d.strength i, i.val) ∧
      ∀ j, d.strength i ≤ d.strength j

theorem strength_lt_max {d : Dictionary S ℝ (n + 1)} (h : d.Sound kernel)
    (hφ : IsFeatureMap kernel φ) (i : Fin (n + 1)) : d.strength i < ScalarLimits.max := by
  classical
  rw [strength_eq_residual h hφ]
  refine (residual_le_self _ _).trans_lt ?_
  have hmax := hφ.lt_max (d.dictionary i)
  rw [hφ.kernel_eq] at hmax
  exact hmax

theorem strength_pos {d : Dictionary S ℝ (n + 1)} (h : d.Sound kernel)
    (hφ : IsFeatureMap kernel φ) (i : Fin (n + 1)) : 0 < d.strength i := by
  classical
  rw [strength_eq_residual h hφ]
  exact residual_erase_pos (h.K_inv_mul_gram hφ) i

/-- `recompute_min_strength` finds it, whatever the index was before. -/
theorem recomputeMinStrength_weakest {d : Dictionary S ℝ (n + 1)} (h : d.Sound kernel)
    (hφ : IsFeatureMap kernel φ) (min_vect_idx : Nat) :
    d.Weakest (d.recomputeMinStrength min_vect_idx) := by
  obtain ⟨hval, -, hall⟩ := strengthLoop_spec d.strength (List.finRange (n + 1))
    (ScalarLimits.max, min_vect_idx)
  rcases hval with heq | ⟨i, -, heq⟩
  · have h0 := hall 0 (List.mem_finRange 0)
    rw [heq] at h0
    exact absurd (strength_lt_max h hφ 0) (not_lt.mpr h0)
  · refine ⟨i, heq, fun j => ?_⟩
    have hj := hall j (List.mem_finRange j)
    rwa [heq] at hj

theorem Weakest.pos {d : Dictionary S ℝ n} (h : d.Sound kernel) (hφ : IsFeatureMap kernel φ)
    {weakest : ℝ × Nat} (hw : d.Weakest weakest) : 0 < weakest.1 := by
  cases n with
  | zero => exact hw.elim
  | succ n =>
    obtain ⟨i, rfl, -⟩ := hw
    exact strength_pos h hφ i

/-- Leaving a vector out does not make a sample easier to express. -/
theorem delta_le_remove {d : Dictionary S ℝ (n + 1)} (h : d.Sound kernel)
    (hφ : IsFeatureMap kernel φ) (i : Fin (n + 1)) (x : S) :
    d.delta kernel x ≤ (d.remove i).delta kernel x := by
  classical
  rw [delta_eq_residual h hφ, delta_eq_residual (remove_sound h hφ i) hφ, members_remove h hφ]
  exact residual_anti (Finset.erase_subset _ _) _

theorem replace_of_lt (d : Dictionary S ℝ (n + 1)) {idx : Nat} (h : idx < n + 1) (x : S)
    (cscale xscale : ℝ) : d.replace idx x (d.column kernel x) (kernel x x) cscale xscale =
      .ok ((d.remove ⟨idx, h⟩).add x ((d.remove ⟨idx, h⟩).column kernel x) (kernel x x) cscale
        xscale) := by
  rw [replace, dif_pos h]
  rfl

theorem replace_sound {d : Dictionary S ℝ (n + 1)} (h : d.Sound kernel) (hφ : IsFeatureMap kernel φ)
    (i : Fin (n + 1)) {x : S} (hx : 0 < d.delta kernel x) (cscale xscale : ℝ) :
    ((d.remove i).add x ((d.remove i).column kernel x) (kernel x x) cscale xscale).Sound kernel :=
  add_sound (remove_sound h hφ i) hφ (hx.trans_le (delta_le_remove h hφ i x)).ne' cscale xscale

end Dictionary

/-! ### One training step -/

namespace Kcentroid
variable {p : KcentroidSettings S ℝ} {φ : S → H}

/-- The convention that the source states for the members, where the weakest vector is known only
after the first replacement. -/
structure Convention (p : KcentroidSettings S ℝ) (c : Kcentroid S ℝ) : Prop where
  sound : c.dict.Sound p.kernel
  size_le : c.size ≤ p.my_max_dictionary_size
  bias_eq : c.bias_is_stale = false → c.bias = c.dict.squaredNorm
  weakest : c.min_strength = 0 ∨ p.my_remove_oldest_first = false ∧
    c.size = p.my_max_dictionary_size ∧ c.dict.Weakest (c.min_strength, c.min_vect_idx)

/-- What training on a dictionary that is not empty can do. -/
inductive TrainCase (p : KcentroidSettings S ℝ) (c : Kcentroid S ℝ) (d : Dictionary S ℝ (n + 1))
    (x : S) (cscale xscale : ℝ) : Kcentroid S ℝ → Prop where
  | blend (hnot : ¬ (c.min_strength < d.delta p.kernel x ∧ p.my_tolerance < d.delta p.kernel x)) :
      TrainCase p c d x cscale xscale { c with
        size := n + 1, dict := d.blend (d.K_inv *ᵥ d.column p.kernel x) cscale xscale,
        bias_is_stale := true }
  | add (hstrength : c.min_strength < d.delta p.kernel x)
      (htolerance : p.my_tolerance < d.delta p.kernel x)
      (hroom : n + 1 < p.my_max_dictionary_size) :
      TrainCase p c d x cscale xscale { c with
        size := n + 2, dict := d.add x (d.column p.kernel x) (p.kernel x x) cscale xscale,
        bias_is_stale := true }
  | replace (hstrength : c.min_strength < d.delta p.kernel x)
      (htolerance : p.my_tolerance < d.delta p.kernel x)
      (hfull : p.my_max_dictionary_size ≤ n + 1) (i : Fin (n + 1)) (weakest : ℝ × Nat)
      (holdest : p.my_remove_oldest_first = true → i = 0 ∧
        weakest = (c.min_strength, c.min_vect_idx))
      (hweakest : p.my_remove_oldest_first = false → (∀ j, d.strength i ≤ d.strength j) ∧
        ((d.remove i).add x ((d.remove i).column p.kernel x) (p.kernel x x) cscale
          xscale).Weakest weakest) :
      TrainCase p c d x cscale xscale { c with
        size := n + 1,
        dict := (d.remove i).add x ((d.remove i).column p.kernel x) (p.kernel x x) cscale xscale,
        min_strength := weakest.1, min_vect_idx := weakest.2, bias_is_stale := true }

/-- Training never reads out of range. -/
theorem trainOnDictionary_cases (hφ : IsFeatureMap p.kernel φ) (htol : 0 < p.my_tolerance)
    {c : Kcentroid S ℝ} {d : Dictionary S ℝ (n + 1)} (h : d.Sound p.kernel)
    (hweak : c.min_strength = 0 ∨ p.my_remove_oldest_first = false ∧
      d.Weakest (c.min_strength, c.min_vect_idx)) (x : S) (cscale xscale : ℝ) :
    ∃ c', c.trainOnDictionary p d x cscale xscale = .ok c' ∧
      TrainCase p c d x cscale xscale c' := by
  rw [trainOnDictionary]
  by_cases hnovel : c.min_strength < d.delta p.kernel x ∧ p.my_tolerance < d.delta p.kernel x
  · by_cases hfull : p.my_max_dictionary_size ≤ n + 1
    · have hpos : 0 < d.delta p.kernel x := htol.trans hnovel.2
      cases hold : p.my_remove_oldest_first with
      | true =>
        refine ⟨_, ?_, .replace hnovel.1 hnovel.2 hfull 0 (c.min_strength, c.min_vect_idx)
          (fun _ => ⟨rfl, rfl⟩) (by simp [hold])⟩
        refine (if_pos hnovel).trans ((if_pos hfull).trans ?_)
        rw [if_pos rfl, d.replace_of_lt n.succ_pos, Except.ok_bind]
        rfl
      | false =>
        obtain ⟨weakest, hdef, i, hi, hleast⟩ : ∃ weakest, (if c.min_strength = 0 then
            d.recomputeMinStrength c.min_vect_idx else (c.min_strength, c.min_vect_idx)) =
            weakest ∧ d.Weakest weakest := by
          refine ⟨_, rfl, ?_⟩
          split
          next => exact d.recomputeMinStrength_weakest h hφ _
          next hne => exact (hweak.resolve_left hne).2
        refine ⟨_, ?_, .replace hnovel.1 hnovel.2 hfull i _ (by simp [hold])
          fun _ => ⟨hleast, Dictionary.recomputeMinStrength_weakest
            (d.replace_sound h hφ i hpos cscale xscale) hφ weakest.2⟩⟩
        refine (if_pos hnovel).trans ((if_pos hfull).trans ?_)
        subst hi
        simp only [Bool.false_eq_true, if_false, hdef, d.replace_of_lt i.isLt, Except.ok_bind]
    · exact ⟨_, (if_pos hnovel).trans (if_neg hfull), .add hnovel.1 hnovel.2 (not_le.mp hfull)⟩
  · exact ⟨_, if_neg hnovel, .blend hnovel⟩

theorem TrainCase.convention (hφ : IsFeatureMap p.kernel φ) (htol : 0 < p.my_tolerance)
    {c c' : Kcentroid S ℝ} {d : Dictionary S ℝ (n + 1)} {x : S} {cscale xscale : ℝ}
    (ht : TrainCase p c d x cscale xscale c') (h : d.Sound p.kernel)
    (hsize : n + 1 ≤ p.my_max_dictionary_size)
    (hweak : c.min_strength = 0 ∨ p.my_remove_oldest_first = false ∧
      n + 1 = p.my_max_dictionary_size ∧ d.Weakest (c.min_strength, c.min_vect_idx)) :
    Convention p c' := by
  cases ht with
  | blend hnot => exact ⟨d.blend_sound h _ _ _, hsize, by simp, hweak⟩
  | add hstrength htolerance hroom =>
    refine ⟨d.add_sound h hφ (htol.trans htolerance).ne' _ _, hroom, by simp, .inl ?_⟩
    rcases hweak with h0 | ⟨-, hfull, -⟩
    · exact h0
    · omega
  | replace hstrength htolerance hfull i weakest holdest hweakest =>
    refine ⟨d.replace_sound h hφ i (htol.trans htolerance) _ _, hsize, by simp, ?_⟩
    cases hold : p.my_remove_oldest_first with
    | true =>
      obtain ⟨-, rfl⟩ := holdest hold
      rcases hweak with h0 | ⟨hnot, -⟩
      · exact .inl h0
      · simp [hold] at hnot
    | false => exact .inr ⟨rfl, le_antisymm hsize hfull, (hweakest hold).2⟩

theorem clearDictionary_convention (p : KcentroidSettings S ℝ) :
    Convention p (clearDictionary : Kcentroid S ℝ) where
  sound := ⟨fun r => r.elim0, Matrix.ext fun r => r.elim0⟩
  size_le := Nat.zero_le _
  bias_eq _ := Finset.sum_empty.symm
  weakest := .inl rfl

theorem refreshBias_convention {c : Kcentroid S ℝ} (h : Convention p c) :
    Convention p c.refreshBias := by
  rw [refreshBias]
  split
  · exact ⟨h.sound, h.size_le, fun _ => rfl, h.weakest⟩
  · exact h

/-- The cases of one training step. `tested` is the state after the bias may have been refreshed. -/
inductive StepCase (p : KcentroidSettings S ℝ) (c : Kcentroid S ℝ) (x : S) (cscale xscale : ℝ) :
    Kcentroid S ℝ → Prop where
  | ignored (hsize : c.size = 0) (hx : ¬ ScalarLimits.epsilon < |p.kernel x x|) :
      StepCase p c x cscale xscale c
  | first (hsize : c.size = 0) (hx : ScalarLimits.epsilon < |p.kernel x x|) :
      StepCase p c x cscale xscale
        { c with size := 1, dict := .first x (p.kernel x x) xscale, bias_is_stale := true }
  | trained {n : Nat} (d : Dictionary S ℝ (n + 1)) (tested c' : Kcentroid S ℝ) (bias : ℝ)
      (stale : Bool)
      (hc : c = ⟨n + 1, d, tested.min_strength, tested.min_vect_idx, tested.samples_seen, bias, stale⟩)
      (hcase : TrainCase p tested d x cscale xscale c') : StepCase p c x cscale xscale c'

/-- A training step succeeds. -/
theorem trainAndMaybeTest_cases (hφ : IsFeatureMap p.kernel φ) (htol : 0 < p.my_tolerance)
    {c : Kcentroid S ℝ} (h : Convention p c) (x : S) (cscale xscale : ℝ) (do_test : Bool) :
    ∃ r c', trainAndMaybeTest p c x cscale xscale do_test = .ok (r, c') ∧
      StepCase p c x cscale xscale c' := by
  obtain ⟨_ | n, d, min_strength, min_vect_idx, samples_seen, bias, stale⟩ := c
  · by_cases hx : ScalarLimits.epsilon < |p.kernel x x|
    · exact ⟨_, _, if_pos hx, .first rfl hx⟩
    · exact ⟨_, _, if_neg hx, .ignored rfl hx⟩
  · obtain ⟨r, tested, ⟨htested, heq⟩⟩ : ∃ (r : ℝ) (tested : Kcentroid S ℝ),
        (tested.min_strength = min_strength ∧ tested.min_vect_idx = min_vect_idx ∧
          tested.samples_seen = samples_seen) ∧
        trainAndMaybeTest p ⟨n + 1, d, min_strength, min_vect_idx, samples_seen, bias, stale⟩ x
          cscale xscale do_test =
            (tested.trainOnDictionary p d x cscale xscale).bind fun c => .ok (r, c) := by
      refine ⟨_, _, ?_, rfl⟩
      cases do_test <;> cases stale <;> exact ⟨rfl, rfl, rfl⟩
    obtain ⟨rfl, rfl, rfl⟩ := htested
    obtain ⟨c', hc', hcase⟩ := trainOnDictionary_cases (c := tested) hφ htol h.sound
      (h.weakest.imp id fun hw => ⟨hw.1, hw.2.2⟩) x cscale xscale
    exact ⟨r, c', by rw [heq, hc', Except.ok_bind], .trained d tested c' bias stale rfl hcase⟩

theorem kernel_ne_zero {x : S} (hx : ScalarLimits.epsilon < |p.kernel x x|) :
    p.kernel x x ≠ 0 := by
  have heps : (0 : ℝ) < ScalarLimits.epsilon := by
    simp only [ScalarLimits.epsilon]
    norm_num
  exact abs_pos.mp (heps.trans hx)

/-- It keeps the convention. -/
theorem StepCase.convention (hφ : IsFeatureMap p.kernel φ) (htol : 0 < p.my_tolerance)
    (hmax : 1 < p.my_max_dictionary_size) {c c' : Kcentroid S ℝ} {x : S} {cscale xscale : ℝ}
    (hstep : StepCase p c x cscale xscale c') (h : Convention p c) : Convention p c' := by
  cases hstep with
  | ignored => exact h
  | first hsize hx =>
    refine ⟨Dictionary.first_sound (kernel_ne_zero hx) xscale, hmax.le, by simp, ?_⟩
    rcases h.weakest with h0 | ⟨-, hfull, -⟩
    · exact .inl h0
    · omega
  | trained d tested c' bias stale hc hcase =>
    subst hc
    exact hcase.convention hφ htol h.sound h.size_le h.weakest

theorem samples_seen_convention {c : Kcentroid S ℝ} (h : Convention p c) (samples_seen : ℝ) :
    Convention p { c with samples_seen := samples_seen } :=
  ⟨h.sound, h.size_le, h.bias_eq, h.weakest⟩

theorem trainScaled_cases (hφ : IsFeatureMap p.kernel φ) (htol : 0 < p.my_tolerance)
    {c : Kcentroid S ℝ} (h : Convention p c) (x : S) (cscale xscale : ℝ) :
    ∃ c', c.trainScaled p x cscale xscale = .ok c' ∧
      StepCase p { c with samples_seen := c.samples_seen + 1 } x cscale xscale c' := by
  obtain ⟨r, c', heq, hcase⟩ := trainAndMaybeTest_cases hφ htol
    (samples_seen_convention h (c.samples_seen + 1)) x cscale xscale false
  exact ⟨c', by rw [trainScaled, heq]; rfl, hcase⟩

/-! ### Runs -/

/-- What a user of a centroid can do. -/
inductive Op (S : Type*) where
  | clear
  | train (x : S)
  | trainScaled (x : S) (cscale xscale : ℝ)
  | testAndTrain (x : S)
  | score (x : S)

/-- The state after an operation. -/
noncomputable def apply (p : KcentroidSettings S ℝ) (c : Kcentroid S ℝ) :
    Op S → Except BadIndex (Kcentroid S ℝ)
  | .clear => .ok clearDictionary
  | .train x => c.train p x
  | .trainScaled x cscale xscale => c.trainScaled p x cscale xscale
  | .testAndTrain x => (c.testAndTrain p x).map Prod.snd
  | .score _ => .ok c.refreshBias

noncomputable def applyAll (p : KcentroidSettings S ℝ) :
    Kcentroid S ℝ → List (Op S) → Except BadIndex (Kcentroid S ℝ)
  | c, [] => .ok c
  | c, op :: ops => (c.apply p op).bind fun c => c.applyAll p ops

theorem apply_convention (hφ : IsFeatureMap p.kernel φ) (htol : 0 < p.my_tolerance)
    (hmax : 1 < p.my_max_dictionary_size) {c : Kcentroid S ℝ} (h : Convention p c) (op : Op S) :
    ∃ c', c.apply p op = .ok c' ∧ Convention p c' := by
  have hseen := samples_seen_convention h (c.samples_seen + 1)
  cases op with
  | clear => exact ⟨_, rfl, clearDictionary_convention p⟩
  | train x =>
    obtain ⟨c', heq, hcase⟩ := trainScaled_cases hφ htol h x (1 - 1 / (c.samples_seen + 1))
      (1 / (c.samples_seen + 1))
    exact ⟨c', heq, hcase.convention hφ htol hmax hseen⟩
  | trainScaled x cscale xscale =>
    obtain ⟨c', heq, hcase⟩ := trainScaled_cases hφ htol h x cscale xscale
    exact ⟨c', heq, hcase.convention hφ htol hmax hseen⟩
  | testAndTrain x =>
    obtain ⟨r, c', heq, hcase⟩ := trainAndMaybeTest_cases hφ htol hseen x
      (1 - 1 / (c.samples_seen + 1)) (1 / (c.samples_seen + 1)) true
    exact ⟨c', by rw [apply, testAndTrain, heq]; rfl, hcase.convention hφ htol hmax hseen⟩
  | score x => exact ⟨_, rfl, refreshBias_convention h⟩

/-- From a clear centroid every run of operations succeeds, and the convention holds after it. -/
theorem applyAll_convention (hφ : IsFeatureMap p.kernel φ) (htol : 0 < p.my_tolerance)
    (hmax : 1 < p.my_max_dictionary_size) {c : Kcentroid S ℝ} (h : Convention p c)
    (ops : List (Op S)) : ∃ c', c.applyAll p ops = .ok c' ∧ Convention p c' := by
  induction ops generalizing c with
  | nil => exact ⟨c, rfl, h⟩
  | cons op ops ih =>
    obtain ⟨c₁, hc₁, h₁⟩ := apply_convention hφ htol hmax h op
    obtain ⟨c₂, hc₂, h₂⟩ := ih h₁
    exact ⟨c₂, by rw [applyAll, hc₁, Except.ok_bind, hc₂], h₂⟩

/-! ### What a score measures -/

/-- The squared distance of two vectors as the source computes it. -/
theorem inner_add_sub_inner (v w : H) :
    ⟪v, v⟫ + ⟪w, w⟫ - (2 : Nat) * ⟪v, w⟫ = ‖v - w‖ ^ 2 := by
  rw [norm_sub_sq_real, real_inner_self_eq_norm_sq, real_inner_self_eq_norm_sq, Nat.cast_ofNat]
  ring

theorem clamped_sqrt {r : ℝ} (hr : 0 ≤ r) : (if 0 < r ^ 2 then CFloat.sqrt (r ^ 2) else 0) = r := by
  by_cases hpos : 0 < r ^ 2
  · rw [if_pos hpos]
    exact Real.sqrt_sq hr
  · rw [if_neg hpos]
    have hzero : r ^ 2 = 0 := le_antisymm (not_lt.mp hpos) (sq_nonneg r)
    exact (pow_eq_zero_iff two_ne_zero).mp hzero |>.symm

/-- The sum of a centroid in the feature space. -/
def center (φ : S → H) (c : Kcentroid S ℝ) : H := c.dict.center φ

theorem squaredNorm_eq {d : Dictionary S ℝ n} (h : d.Sound p.kernel) (hφ : IsFeatureMap p.kernel φ) :
    d.squaredNorm = ⟪d.center φ, d.center φ⟫ := by
  rw [Dictionary.squaredNorm, Dictionary.center, inner_combo_left]
  refine Finset.sum_congr rfl fun i _ => ?_
  rw [inner_combo_right, Finset.mul_sum]
  refine Finset.sum_congr rfl fun j _ => ?_
  rw [h.K_eq, hφ.kernel_eq]
  simp only [Dictionary.vectors, Function.comp_apply]
  ring

theorem innerProduct_eq (hφ : IsFeatureMap p.kernel φ) (c : Kcentroid S ℝ) (x : S) :
    c.innerProduct p x = ⟪c.center φ, φ x⟫ := by
  rw [center, Dictionary.center, inner_combo_left]
  exact Finset.sum_congr rfl fun i _ => by rw [hφ.kernel_eq]; rfl

theorem refreshBias_eq {c : Kcentroid S ℝ} (h : Convention p c) :
    c.refreshBias.bias = c.dict.squaredNorm ∧
      c.refreshBias.innerProduct p = c.innerProduct p := by
  rw [refreshBias]
  cases hs : c.bias_is_stale with
  | true => exact ⟨rfl, rfl⟩
  | false => exact ⟨h.bias_eq hs, rfl⟩

/-- The score is the distance in the feature space. -/
theorem score_eq_norm (hφ : IsFeatureMap p.kernel φ) {c : Kcentroid S ℝ} (h : Convention p c)
    (x : S) : c.score p x = ‖φ x - c.center φ‖ := by
  obtain ⟨hbias, hinner⟩ := refreshBias_eq h
  rw [score, hbias, hinner, squaredNorm_eq h.sound hφ, innerProduct_eq hφ, hφ.kernel_eq,
    real_inner_comm (φ x) (c.center φ)]
  refine (congrArg (fun temp => if 0 < temp then CFloat.sqrt temp else 0) ?_).trans
    (clamped_sqrt (norm_nonneg (φ x - c.center φ)))
  exact inner_add_sub_inner _ _

end Kcentroid

end FaceRecognition
