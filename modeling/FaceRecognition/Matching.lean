import FaceRecognition.Calc
import Mathlib.Data.List.GetD
import Mathlib.Data.List.TakeWhile
import Mathlib.Analysis.Real.Sqrt

/-! What `search_MAX` and `identificate` report, over similarities that are linearly
ordered, and how far that depends on the order of the candidates. -/
namespace FaceRecognition

/-- Exact real arithmetic; a NaN or an infinity is not a real number. -/
noncomputable instance : CFloat ℝ where
  sqrt := Real.sqrt
  negOne := -1
  similarity := 0.65
  ofLiteral
    | .finite neg m b e => some ((if neg then -1 else 1) * m * (b : ℝ) ^ e)
    | _ => none

section Candidates
variable {F : Type*}

/-- What `txt_to_vector` can hand over: empty for a file that cannot be opened, else complete. -/
def Descriptors (ds : List (List F)) : Prop := ∀ d ∈ ds, d = [] ∨ d.length = maxSize

theorem Descriptors.perm {ds l : List (List F)} (h : Descriptors ds) (hp : l.Perm ds) :
    Descriptors l := fun d hd => h d (hp.mem_iff.mp hd)

theorem mem_searched {ds : List (List F)} {d : List F} (h : d ∈ searched ds) : d ∈ ds ∧ d ≠ [] := by
  refine ⟨List.takeWhile_subset _ h, ?_⟩
  have hd := List.mem_takeWhile_imp h
  simpa using hd

theorem searched_of_nonempty {ds : List (List F)} (h : ∀ d ∈ ds, d ≠ []) : searched ds = ds :=
  List.takeWhile_eq_self_iff.mpr fun d hd => by simpa using h d hd

end Candidates

section Report
variable {F : Type*} [LinearOrder F] [Zero F] [Add F] [Mul F] [Div F] [CFloat F]

/-- The result names a candidate of `listing` that no candidate of `ds` exceeds; candidates
that could not be opened are left out of the comparison. -/
def Greatest (bench : List F) (ds listing : List (List F)) (r : Int) : Prop :=
  ∃ (i : Nat) (d : List F), r = i ∧ listing[i]? = some d ∧ d ≠ [] ∧
    ∀ c ∈ ds, c ≠ [] → cosine bench c ≤ cosine bench d

/-- The decision that the candidates `ds` call for is the one made on `listing`. -/
structure DecidesRight (bench : List F) (ds listing : List (List F)) : Prop where
  searched : ∃ r, searchMAX listing bench = .ok r ∧
    (r ≠ -1 ↔ ∃ c ∈ ds, c ≠ [] ∧ CFloat.similarity ≤ cosine bench c) ∧
    (r ≠ -1 → Greatest bench ds listing r)
  identified : ∃ r, identificate listing bench = .ok r ∧
    ((∃ c ∈ ds, c ≠ [] ∧ CFloat.negOne < cosine bench c) → Greatest bench ds listing r)

variable {bench : List F} {ds listing : List (List F)}

theorem searchMAX_eq_scan (hb : bench.length = maxSize) (hd : Descriptors listing) :
    searchMAX listing bench = .ok (RunningMax.scan (fun s => decide (CFloat.similarity ≤ s)) 0
      CFloat.negOne (-1) ((searched listing).map (cosine bench))) :=
  searchLoop_eq_scan _ hb listing hd 0 _ (-1)

theorem identificate_eq_scan (hb : bench.length = maxSize) (hd : Descriptors listing) :
    identificate listing bench = .ok (RunningMax.scan (fun _ => true) 0
      CFloat.negOne (-1) ((searched listing).map (cosine bench))) :=
  searchLoop_eq_scan _ hb listing hd 0 _ (-1)

/-- The first best index of a listing without empty candidates names a greatest candidate,
as long as the candidates the test rejects are below those it accepts. -/
theorem greatest_of_firstBest {p : F → Bool} {m s : F} {k : Nat} (hp : listing.Perm ds)
    (hne : ∀ d ∈ ds, d ≠ []) (hlow : ∀ s t, p s = true → p t = false → t ≤ s)
    (h : RunningMax.IsFirstBest p m ((searched listing).map (cosine bench)) k s) :
    Greatest bench ds listing k := by
  have hne' : ∀ d ∈ listing, d ≠ [] := fun d hd => hne d (hp.mem_iff.mp hd)
  rw [searched_of_nonempty hne'] at h
  obtain ⟨d, hd, hs⟩ : ∃ d, listing[k]? = some d ∧ cosine bench d = s := by
    simpa using h.at_index
  refine ⟨k, d, rfl, hd, hne' d (List.mem_of_getElem? hd), fun c hc _ => ?_⟩
  rw [hs]
  have hmem : cosine bench c ∈ listing.map (cosine bench) :=
    List.mem_map_of_mem (hp.mem_iff.mpr hc)
  cases hpc : p (cosine bench c) with
  | true => exact not_lt.mp (h.maximal _ hmem hpc)
  | false => exact hlow s _ h.passes hpc

/-- With every candidate readable both decisions are right on every listing. -/
theorem decidesRight_of_nonempty (h1 : (CFloat.negOne : F) < CFloat.similarity)
    (hb : bench.length = maxSize) (hd : Descriptors ds) (hne : ∀ d ∈ ds, d ≠ [])
    (hp : listing.Perm ds) : DecidesRight bench ds listing := by
  have hmem : ∀ c ∈ ds, cosine bench c ∈ (searched listing).map (cosine bench) := by
    intro c hc
    rw [searched_of_nonempty fun d hd => hne d (hp.mem_iff.mp hd)]
    exact List.mem_map_of_mem (hp.mem_iff.mpr hc)
  constructor
  · refine ⟨_, searchMAX_eq_scan hb (hd.perm hp), ?_⟩
    rcases RunningMax.scan_start (fun s => decide (CFloat.similarity ≤ s))
      ((searched listing).map (cosine bench)) CFloat.negOne with ⟨hr, hmax⟩ | ⟨k, s, hr, hbest⟩
    · rw [hr]
      refine ⟨⟨fun h => absurd rfl h, ?_⟩, fun h => absurd rfl h⟩
      rintro ⟨c, hc, -, hsim⟩
      exact absurd (lt_of_lt_of_le h1 hsim) (hmax _ (hmem c hc) (by simpa using hsim))
    · rw [hr]
      have hg := greatest_of_firstBest hp hne (fun s t hs ht => by
        simp only [decide_eq_true_eq, decide_eq_false_iff_not, not_le] at hs ht
        exact le_trans (le_of_lt ht) hs) hbest
      refine ⟨⟨fun _ => ?_, fun _ => by omega⟩, fun _ => hg⟩
      obtain ⟨d, hdm, hs⟩ := List.mem_map.mp (List.mem_of_getElem? hbest.at_index)
      obtain ⟨hdl, hdne⟩ := mem_searched hdm
      exact ⟨d, hp.mem_iff.mp hdl, hdne, by simpa [hs] using hbest.passes⟩
  · refine ⟨_, identificate_eq_scan hb (hd.perm hp), ?_⟩
    rcases RunningMax.scan_start (fun _ => true)
      ((searched listing).map (cosine bench)) CFloat.negOne with ⟨hr, hmax⟩ | ⟨k, s, hr, hbest⟩
    · rintro ⟨c, hc, -, hlt⟩
      exact absurd hlt (hmax _ (hmem c hc) rfl)
    · rw [hr]
      exact fun _ => greatest_of_firstBest hp hne (by simp) hbest

/-- When no candidate exceeds the start value nothing is reported on any listing. -/
theorem decidesRight_of_low (h1 : (CFloat.negOne : F) < CFloat.similarity)
    (hb : bench.length = maxSize) (hd : Descriptors ds)
    (hlow : ∀ d ∈ ds, d ≠ [] → ¬ CFloat.negOne < cosine bench d)
    (hp : listing.Perm ds) : DecidesRight bench ds listing := by
  have hnone : ∀ p : F → Bool, RunningMax.scan p 0 CFloat.negOne (-1)
      ((searched listing).map (cosine bench)) = -1 := by
    intro p
    rcases RunningMax.scan_start p ((searched listing).map (cosine bench)) CFloat.negOne
      with ⟨hr, -⟩ | ⟨k, s, -, hbest⟩
    · exact hr
    · obtain ⟨d, hdm, hs⟩ := List.mem_map.mp (List.mem_of_getElem? hbest.at_index)
      obtain ⟨hdl, hdne⟩ := mem_searched hdm
      have habove := hbest.above
      rw [← hs] at habove
      exact absurd habove (hlow d (hp.mem_iff.mp hdl) hdne)
  constructor
  · refine ⟨_, searchMAX_eq_scan hb (hd.perm hp), ?_⟩
    rw [hnone]
    refine ⟨⟨fun h => absurd rfl h, ?_⟩, fun h => absurd rfl h⟩
    rintro ⟨c, hc, hcne, hsim⟩
    exact absurd (lt_of_lt_of_le h1 hsim) (hlow c hc hcne)
  · refine ⟨_, identificate_eq_scan hb (hd.perm hp), ?_⟩
    rintro ⟨c, hc, hcne, hlt⟩
    exact absurd hlt (hlow c hc hcne)

/-- An empty candidate in front ends both loops before they start. -/
theorem not_decidesRight_of_nil_front {c : List F} (hc : c ∈ ds) (hcne : c ≠ [])
    (hlt : CFloat.negOne < cosine bench c) : ¬ DecidesRight bench ds ([] :: listing) := by
  intro h
  obtain ⟨r, hr, hg⟩ := h.identified
  have hend : identificate ([] :: listing) bench = .ok (-1) := rfl
  rw [hend, Except.ok.injEq] at hr
  obtain ⟨i, d, hi, -⟩ := hg ⟨c, hc, hcne, hlt⟩
  omega

/-- The decision is the right one on every order of the candidates exactly when no candidate
is empty, or when no candidate could be reported anyway. -/
theorem decidesRight_every_order_iff (h1 : (CFloat.negOne : F) < CFloat.similarity)
    (bench : List F) (hb : bench.length = maxSize) (ds : List (List F)) (hd : Descriptors ds) :
    (∀ listing, listing.Perm ds → DecidesRight bench ds listing) ↔
      (∀ d ∈ ds, d ≠ []) ∨ ∀ d ∈ ds, d ≠ [] → ¬ CFloat.negOne < cosine bench d := by
  constructor
  · intro h
    by_contra hcon
    push Not at hcon
    obtain ⟨⟨e, he, hnil⟩, c, hc, hcne, hlt⟩ := hcon
    rw [hnil] at he
    exact not_decidesRight_of_nil_front hc hcne hlt
      (h ([] :: ds.erase []) (List.perm_cons_erase he).symm)
  · rintro (hne | hlow) listing hp
    · exact decidesRight_of_nonempty h1 hb hd hne hp
    · exact decidesRight_of_low h1 hb hd hlow hp

end Report

/-! ### A descriptor compared with itself -/

section Ones

/-- The descriptor with every entry 1. -/
def ones : List ℝ := List.replicate maxSize 1

theorem ones_length : ones.length = maxSize := List.length_replicate

theorem ones_ne_nil : ones ≠ [] := by
  intro h
  have hl := congrArg List.length h
  rw [ones_length] at hl
  exact absurd hl (by decide)

theorem dot_ones (n : Nat) (hn : n ≤ maxSize) : dot ones ones n = n := by
  induction n with
  | zero => simp [dot]
  | succ n ih =>
    have hlt : n < maxSize := by omega
    have hx : ones.getD n 0 = 1 := List.getD_replicate 1 hlt
    rw [dot, ih (by omega), hx]
    push_cast
    ring

theorem cosine_ones : cosine ones ones = 1 := by
  have hpos : (0 : ℝ) < (maxSize : ℝ) := by
    have : 0 < maxSize := by decide
    exact_mod_cast this
  have hs : Real.sqrt maxSize ≠ 0 := (Real.sqrt_pos.mpr hpos).ne'
  rw [cosine, dot_ones maxSize (le_refl _)]
  change (maxSize : ℝ) / Real.sqrt maxSize / Real.sqrt maxSize = 1
  rw [div_div, Real.mul_self_sqrt hpos.le, div_self hpos.ne']

theorem negOne_lt_similarity_real : (CFloat.negOne : ℝ) < CFloat.similarity := by
  change (-1 : ℝ) < 0.65
  norm_num

/-- The descriptor with the first entry 1 and the others 0. -/
def firstAxis : List ℝ := 1 :: List.replicate (maxSize - 1) 0

theorem firstAxis_length : firstAxis.length = maxSize := by
  rw [firstAxis, List.length_cons, List.length_replicate]
  decide

/-- Opposite to the benchmark, across it, along it and equal to it. -/
noncomputable def fourCandidates : List (List ℝ) := [ones.map (-1 * ·), firstAxis, ones.map (0.5 * ·), ones]

theorem fourCandidates_length : ∀ d ∈ fourCandidates, d.length = maxSize := by
  simp [fourCandidates, ones_length, firstAxis_length]

/-- Four readable candidates: the decision is right on every order. -/
theorem decidesRight_every_order_four :
    (∀ listing, listing.Perm fourCandidates → DecidesRight ones fourCandidates listing) ∧
      ones.length = maxSize := by
  refine ⟨(decidesRight_every_order_iff negOne_lt_similarity_real ones ones_length fourCandidates
    fun d hd => .inr (fourCandidates_length d hd)).mpr (.inl fun d hd hnil => ?_), ones_length⟩
  have hlen := fourCandidates_length d hd
  rw [hnil] at hlen
  exact absurd hlen (by decide)

/-- A candidate that equals the benchmark and one that could not be opened: when the latter is
listed first nobody is found. -/
theorem order_matters_ones : Descriptors [ones, []] ∧ ones.length = maxSize ∧
    ¬ ∀ listing, listing.Perm [ones, []] → DecidesRight ones [ones, []] listing := by
  refine ⟨?_, ones_length, fun h => ?_⟩
  · intro d hd
    rcases List.mem_cons.mp hd with rfl | hd
    · exact .inr ones_length
    · exact .inl (by simpa using hd)
  · have hlt : CFloat.negOne < cosine ones ones := by
      rw [cosine_ones]
      change (-1 : ℝ) < 1
      norm_num
    exact not_decidesRight_of_nil_front (by simp) ones_ne_nil hlt
      (h ([] :: [ones]) (List.Perm.swap _ _ _))

end Ones

end FaceRecognition
