import FaceRecognition.AttendanceRuns
import FaceRecognition.SearchModes
import FaceRecognition.Library.Directions

/-! `vector_inner_product` in exact real arithmetic is the cosine of the angle between two
descriptors. What follows for the searches: only the directions of the descriptors count,
and a similarity reaches the start value `-1` only where the directions are opposite. -/
namespace FaceRecognition
open CppString

section Cosine

theorem dot_eq_dotProduct (a b : List ℝ) (n : Nat) :
    dot a b n = Directions.coords n a ⬝ᵥ Directions.coords n b := by
  rw [Directions.dotProduct_coords]
  induction n with
  | zero => rfl
  | succ n ih => rw [dot, ih, Finset.sum_range_succ]

theorem cosine_eq_cos (a b : List ℝ) : cosine a b = Directions.cos maxSize a b := by
  rw [cosine, dot_eq_dotProduct, dot_eq_dotProduct, dot_eq_dotProduct, div_div]
  rfl

end Cosine

/-! ### Directions -/

/-- A complete descriptor that is not zero. -/
structure Direction where
  entries : List ℝ
  complete : entries.length = maxSize
  nonzero : ∃ x ∈ entries, x ≠ 0

/-- The same descriptor multiplied by a positive factor. -/
def Rescaled (d d' : List ℝ) : Prop := ∃ t : ℝ, 0 < t ∧ d' = d.map (t * ·)

theorem Rescaled.length_eq {d d' : List ℝ} (h : Rescaled d d') : d'.length = d.length := by
  obtain ⟨t, -, rfl⟩ := h
  exact List.length_map _

theorem Direction.vectorInnerProduct_eq (a b : Direction) :
    vectorInnerProduct a.entries b.entries = .ok (Directions.cos maxSize a.entries b.entries) := by
  rw [FaceRecognition.vectorInnerProduct_eq a.complete b.complete, cosine_eq_cos]

theorem vectorInnerProduct_rescaled (a b : Direction) {a' b' : List ℝ} (ha : Rescaled a.entries a')
    (hb : Rescaled b.entries b') : vectorInnerProduct a' b' = vectorInnerProduct a.entries b.entries := by
  rw [a.vectorInnerProduct_eq b, FaceRecognition.vectorInnerProduct_eq (ha.length_eq.trans a.complete)
    (hb.length_eq.trans b.complete), cosine_eq_cos]
  obtain ⟨s, hs, rfl⟩ := ha
  obtain ⟨t, ht, rfl⟩ := hb
  rw [Directions.cos_map_map _ _ _ hs ht]

theorem searchBy_rescaled (accept : ℝ → Bool) (bench : Direction) {bench' : List ℝ}
    (hbench : Rescaled bench.entries bench') {ds : List Direction} {ds' : List (List ℝ)}
    (hds : List.Forall₂ Rescaled (ds.map Direction.entries) ds') (i : Int) (m : ℝ) (best : Int) :
    searchBy accept (vectorInnerProduct bench') ds' i m best =
      searchBy accept (vectorInnerProduct bench.entries) (ds.map Direction.entries) i m best := by
  refine (searchBy_congr accept ?_ i m best).symm
  rw [List.forall₂_map_left_iff] at hds ⊢
  refine hds.imp fun d d' hd => ⟨by rw [hd.length_eq], ?_⟩
  exact (vectorInnerProduct_rescaled bench d hbench hd).symm

/-- The similarity of two descriptors is the cosine of the angle between their directions, and
both searches give the same result on descriptors of the same directions. -/
theorem directions_decide :
    (∀ a b : Direction, ∃ r, vectorInnerProduct a.entries b.entries = .ok r ∧
      -1 ≤ r ∧ r ≤ 1 ∧ vectorInnerProduct b.entries a.entries = .ok r ∧
      (∀ s t : ℝ, 0 < s → 0 < t →
        vectorInnerProduct (a.entries.map (s * ·)) (b.entries.map (t * ·)) = .ok r) ∧
      (r = 1 ↔ ∃ k, 0 < k ∧ b.entries = a.entries.map (k * ·))) ∧
    (∀ (bench : Direction) (ds : List Direction) (bench' : List ℝ) (ds' : List (List ℝ)),
      Rescaled bench.entries bench' → List.Forall₂ Rescaled (ds.map Direction.entries) ds' →
        searchMAX ds' bench' = searchMAX (ds.map Direction.entries) bench.entries ∧
        identificate ds' bench' = identificate (ds.map Direction.entries) bench.entries) := by
  refine ⟨fun a b => ?_, fun bench ds bench' ds' hbench hds => ?_⟩
  · have hbound := Directions.cos_mem_Icc maxSize a.entries b.entries
    refine ⟨_, a.vectorInnerProduct_eq b, hbound.1, hbound.2, ?_, fun s t hs ht => ?_, ?_⟩
    · rw [b.vectorInnerProduct_eq a, Directions.cos_comm]
    · rw [vectorInnerProduct_rescaled a b ⟨s, hs, rfl⟩ ⟨t, ht, rfl⟩, a.vectorInnerProduct_eq b]
    · exact Directions.cos_eq_one_iff a.complete b.complete a.nonzero
  · simp only [searchMAX_eq_searchMAXBy, identificate_eq_identificateBy]
    exact ⟨searchBy_rescaled _ bench hbench hds 0 _ (-1), searchBy_rescaled _ bench hbench hds 0 _ (-1)⟩

theorem one_mem_ones : (1 : ℝ) ∈ ones := List.mem_replicate.mpr ⟨by decide, rfl⟩

theorem ones_nonzero : ∃ x ∈ ones, x ≠ 0 := ⟨1, one_mem_ones, one_ne_zero⟩

theorem firstAxis_nonzero : ∃ x ∈ firstAxis, x ≠ 0 := ⟨1, List.mem_cons_self, one_ne_zero⟩

theorem map_nonzero {l : List ℝ} (h : ∃ x ∈ l, x ≠ 0) {k : ℝ} (hk : k ≠ 0) :
    ∃ x ∈ l.map (k * ·), x ≠ 0 := by
  obtain ⟨x, hx, hx0⟩ := h
  exact ⟨k * x, List.mem_map_of_mem hx, mul_ne_zero hk hx0⟩

def onesDirection : Direction := ⟨ones, ones_length, ones_nonzero⟩

def firstAxisDirection : Direction := ⟨firstAxis, firstAxis_length, firstAxis_nonzero⟩

def oppositeDirection : Direction where
  entries := ones.map (-1 * ·)
  complete := (List.length_map _).trans ones_length
  nonzero := map_nonzero ones_nonzero (by norm_num)

/-- The searches over three directions, each descriptor multiplied by a factor of its own. -/
theorem directions_decide_three :
    searchMAX [(ones.map (-1 * ·)).map (2 * ·), ones.map (0.3 * ·), firstAxis.map (7 * ·)]
        (ones.map (1.5 * ·)) = searchMAX [ones.map (-1 * ·), ones, firstAxis] ones ∧
      identificate [(ones.map (-1 * ·)).map (2 * ·), ones.map (0.3 * ·), firstAxis.map (7 * ·)]
        (ones.map (1.5 * ·)) = identificate [ones.map (-1 * ·), ones, firstAxis] ones :=
  directions_decide.2 onesDirection [oppositeDirection, onesDirection, firstAxisDirection] _ _
    ⟨1.5, by norm_num, rfl⟩
    (.cons ⟨2, by norm_num, rfl⟩ (.cons ⟨0.3, by norm_num, rfl⟩ (.cons ⟨7, by norm_num, rfl⟩ .nil)))

/-! ### Division by zero and the start value -/

inductive ArithError where
  | badIndex (e : BadIndex)
  | divisionByZero

noncomputable def divide (x y : ℝ) : Except ArithError ℝ :=
  if y = 0 then .error .divisionByZero else .ok (x / y)

/-- `vector_inner_product` with a division by zero as an error. -/
noncomputable def checkedInnerProduct (a b : List ℝ) : Except ArithError ℝ :=
  ((dotLoop a b maxSize).mapError .badIndex).bind fun result =>
    ((vectorLength a).mapError .badIndex).bind fun la => (divide result la).bind fun result =>
      ((vectorLength b).mapError .badIndex).bind fun lb => divide result lb

theorem divide_ok_iff (x y q : ℝ) : divide x y = .ok q ↔ y ≠ 0 ∧ x / y = q := by
  unfold divide
  split
  next h => simp [h]
  next h => simp [h]

theorem sqrt_dot_self_eq_zero_iff {a : List ℝ} (ha : a.length = maxSize) :
    (CFloat.sqrt (dot a a maxSize) : ℝ) = 0 ↔ ∀ x ∈ a, x = 0 := by
  rw [dot_eq_dotProduct]
  exact Directions.sqrt_dotProduct_self_eq_zero_iff ha

theorem checkedInnerProduct_eq {a b : List ℝ} (ha : a.length = maxSize) (hb : b.length = maxSize) :
    checkedInnerProduct a b = (divide (dot a b maxSize) (CFloat.sqrt (dot a a maxSize))).bind
      fun result => divide result (CFloat.sqrt (dot b b maxSize)) := by
  rw [checkedInnerProduct, dotLoop_eq (Nat.le_of_eq ha.symm) (Nat.le_of_eq hb.symm),
    vectorLength_eq ha, vectorLength_eq hb]
  rfl

/-- The two divisions go through exactly when neither descriptor is zero. -/
theorem checkedInnerProduct_ok_iff {a b : List ℝ} (ha : a.length = maxSize) (hb : b.length = maxSize)
    (r : ℝ) : checkedInnerProduct a b = .ok r ↔
      (∃ x ∈ a, x ≠ 0) ∧ (∃ x ∈ b, x ≠ 0) ∧ Directions.cos maxSize a b = r := by
  have hzero : ∀ l : List ℝ, (¬ ∀ x ∈ l, x = 0) ↔ ∃ x ∈ l, x ≠ 0 := fun l => by
    push Not
    exact Iff.rfl
  rw [checkedInnerProduct_eq ha hb, ← cosine_eq_cos, cosine]
  simp only [Except.bind_eq_ok, divide_ok_iff, ne_eq, sqrt_dot_self_eq_zero_iff ha,
    sqrt_dot_self_eq_zero_iff hb, hzero]
  constructor
  · rintro ⟨q, ⟨ha0, rfl⟩, hb0, hr⟩
    exact ⟨ha0, hb0, hr⟩
  · rintro ⟨ha0, hb0, hr⟩
    exact ⟨_, ⟨ha0, rfl⟩, hb0, hr⟩

/-- What identification calls for: no division by zero, a candidate of greatest similarity, and
an answer other than `absence`. -/
structure NamesBest (bench : List ℝ) (ds : List (List ℝ)) : Prop where
  divides : ∀ d ∈ ds, ∃ s, checkedInnerProduct bench d = .ok s
  named : ∃ (i : Nat) (d : List ℝ) (s : ℝ),
    identificateBy checkedInnerProduct ds bench = .ok (i : Int) ∧ ds[i]? = some d ∧
      checkedInnerProduct bench d = .ok s ∧
      ∀ c ∈ ds, ∀ t, checkedInnerProduct bench c = .ok t → t ≤ s
  answered : ∀ lines (l : List (Str × List ℝ)), l.map Prod.snd = ds →
    ∀ out, reportMatch identificate lines bench l = .ok out →
      ∃ line, out.stdout = lines ++ [line] ∧ line ≠ "absence".toList

/-- The direction of the candidate is not opposite to that of the benchmark. -/
def NotOpposite (bench d : List ℝ) : Prop := ¬ ∃ k : ℝ, k < 0 ∧ d = bench.map (k * ·)

section Names
variable {bench : List ℝ} {ds : List (List ℝ)}

theorem identificateBy_checked (hb : bench.length = maxSize) (hd : ∀ d ∈ ds, d.length = maxSize)
    (hb0 : ∃ x ∈ bench, x ≠ 0) (hd0 : ∀ d ∈ ds, ∃ x ∈ d, x ≠ 0) :
    identificateBy checkedInnerProduct ds bench =
      .ok (RunningMax.scan (fun _ => true) 0 (-1) (-1) (ds.map (Directions.cos maxSize bench))) := by
  have hsearched : searched ds = ds := searched_of_nonempty fun d hdm h => by
    obtain ⟨x, hx, -⟩ := hd0 d hdm
    simp [h] at hx
  rw [identificateBy, searchBy_eq_scan, hsearched, Except.mapM_eq_map fun d hdm =>
    (checkedInnerProduct_ok_iff hb (hd d hdm) _).mpr ⟨hb0, hd0 d hdm, rfl⟩]
  rfl

/-- The plain search agrees with the checked one, as no comparison is cut short. -/
theorem identificate_checked (hb : bench.length = maxSize) (hd : ∀ d ∈ ds, d.length = maxSize)
    (hd0 : ∀ d ∈ ds, d ≠ []) : identificate ds bench =
      .ok (RunningMax.scan (fun _ => true) 0 (-1) (-1) (ds.map (Directions.cos maxSize bench))) := by
  have hcos : cosine bench = Directions.cos maxSize bench := funext (cosine_eq_cos bench)
  rw [identificate_eq_scan hb fun d hdm => .inr (hd d hdm), searched_of_nonempty hd0, hcos]
  rfl

theorem neg_one_lt_cos_iff {d : List ℝ} (hb : bench.length = maxSize) (hd : d.length = maxSize)
    (hb0 : ∃ x ∈ bench, x ≠ 0) : -1 < Directions.cos maxSize bench d ↔ NotOpposite bench d := by
  rw [NotOpposite, ← Directions.cos_eq_neg_one_iff hb hd hb0]
  exact (Directions.cos_mem_Icc maxSize bench d).1.lt_iff_ne'

/-- What a match prints is an image path or the text of an exception. -/
theorem reportMatch_of_index {F : Type*} {search : List (List F) → List F → Except BadIndex Int}
    {lines : List Str} {b : List F} {l : List (Str × List F)} {i : Nat} {out : Outcome}
    (hi : search (l.map Prod.snd) b = .ok (i : Int)) (hl : l.length ≠ 0)
    (h : reportMatch search lines b l = .ok out) :
    ∃ line, out.stdout = lines ++ [line] ∧ line ≠ "absence".toList := by
  rw [reportMatch, if_neg hl, hi, Except.ok_bind, if_neg (by omega), Except.bind_eq_ok] at h
  obtain ⟨to_jpg, -, h⟩ := h
  cases hline : imagePath to_jpg with
  | ok line =>
    rw [hline] at h
    cases h
    obtain ⟨stem, rfl⟩ := imagePath_eq_append hline
    refine ⟨_, rfl, fun habs => ?_⟩
    have hlast := congrArg List.getLast? habs
    rw [List.getLast?_append_of_ne_nil _ (by decide)] at hlast
    exact absurd hlast (by decide)
  | error e =>
    rw [hline] at h
    cases h
    have he : e.what = "basic_string::erase".toList := by
      simp only [imagePath, erase] at hline
      split at hline
      · cases hline
        rfl
      · cases hline
    exact ⟨_, rfl, by rw [he]; decide⟩

theorem namesBest_of_notOpposite (hb : bench.length = maxSize) (hd : ∀ d ∈ ds, d.length = maxSize)
    (hb0 : ∃ x ∈ bench, x ≠ 0) (hd0 : ∀ d ∈ ds, ∃ x ∈ d, x ≠ 0) (hopp : ∃ d ∈ ds, NotOpposite bench d) :
    NamesBest bench ds := by
  have hne : ∀ d ∈ ds, d ≠ [] := fun d hdm h => by
    obtain ⟨x, hx, -⟩ := hd0 d hdm
    simp [h] at hx
  have hsim : ∀ d ∈ ds, checkedInnerProduct bench d = .ok (Directions.cos maxSize bench d) :=
    fun d hdm => (checkedInnerProduct_ok_iff hb (hd d hdm) _).mpr ⟨hb0, hd0 d hdm, rfl⟩
  obtain ⟨i, s, hscan, hbest⟩ : ∃ (i : Nat) (s : ℝ),
      RunningMax.scan (fun _ => true) 0 (-1) (-1) (ds.map (Directions.cos maxSize bench)) = (i : Int) ∧
        RunningMax.IsFirstBest (fun _ => true) (-1) (ds.map (Directions.cos maxSize bench)) i s := by
    rcases RunningMax.scan_start (fun _ => true) (ds.map (Directions.cos maxSize bench)) (-1)
      with ⟨-, hmax⟩ | hfound
    · obtain ⟨d, hdm, hdo⟩ := hopp
      have habove := (neg_one_lt_cos_iff hb (hd d hdm) hb0).mpr hdo
      exact absurd habove (hmax _ (List.mem_map_of_mem hdm) rfl)
    · exact hfound
  have hnamed := identificateBy_checked hb hd hb0 hd0
  have hplain := identificate_checked hb hd hne
  rw [hscan] at hnamed hplain
  refine ⟨fun d hdm => ⟨_, hsim d hdm⟩, ?_, ?_⟩
  · obtain ⟨d, hat, hs⟩ : ∃ d, ds[i]? = some d ∧ Directions.cos maxSize bench d = s := by
      simpa using hbest.at_index
    refine ⟨i, d, s, hnamed, hat, hs ▸ hsim d (List.mem_of_getElem? hat), fun c hc t ht => ?_⟩
    rw [hsim c hc, Except.ok.injEq] at ht
    exact ht ▸ hbest.le (List.mem_map_of_mem hc) rfl (le_refl _)
  · rintro lines l rfl out hout
    refine reportMatch_of_index hplain (fun h0 => ?_) hout
    obtain rfl := List.length_eq_zero_iff.mp h0
    simp at hopp

/-- Identification divides by zero or names nobody in exactly two cases: a descriptor is zero,
or all candidates are opposite to the benchmark. -/
theorem namesBest_iff (hb : bench.length = maxSize) (hd : ∀ d ∈ ds, d.length = maxSize) :
    NamesBest bench ds ↔ (∃ x ∈ bench, x ≠ 0) ∧ (∀ d ∈ ds, ∃ x ∈ d, x ≠ 0) ∧
      ∃ d ∈ ds, NotOpposite bench d := by
  constructor
  · intro h
    obtain ⟨i, d, s, hnamed, hat, hs, -⟩ := h.named
    have hdm := List.mem_of_getElem? hat
    have hsplit : ∀ c ∈ ds, (∃ x ∈ bench, x ≠ 0) ∧ ∃ x ∈ c, x ≠ 0 := fun c hc => by
      obtain ⟨t, ht⟩ := h.divides c hc
      obtain ⟨h1, h2, -⟩ := (checkedInnerProduct_ok_iff hb (hd c hc) t).mp ht
      exact ⟨h1, h2⟩
    have hb0 := (hsplit d hdm).1
    have hd0 : ∀ c ∈ ds, ∃ x ∈ c, x ≠ 0 := fun c hc => (hsplit c hc).2
    rw [identificateBy_checked hb hd hb0 hd0, Except.ok.injEq, RunningMax.scan_start_iff] at hnamed
    obtain ⟨t, hbest⟩ := hnamed
    obtain rfl : Directions.cos maxSize bench d = t := by simpa [hat] using hbest.at_index
    exact ⟨hb0, hd0, d, hdm, (neg_one_lt_cos_iff hb (hd d hdm) hb0).mp hbest.above⟩
  · rintro ⟨hb0, hd0, hopp⟩
    exact namesBest_of_notOpposite hb hd hb0 hd0 hopp

end Names

section Opposite

theorem notOpposite_ones : NotOpposite ones ones := by
  rintro ⟨k, hk, he⟩
  have hmem : (1 : ℝ) ∈ ones.map (k * ·) := by
    rw [← he]
    exact one_mem_ones
  obtain ⟨y, hy, hky⟩ := List.mem_map.mp hmem
  obtain rfl : y = 1 := (List.mem_replicate.mp hy).2
  linarith

/-- Among candidates that are opposite to the benchmark, across it and along it one is named. -/
theorem namesBest_four : NamesBest ones fourCandidates := by
  refine (namesBest_iff ones_length fourCandidates_length).mpr
    ⟨ones_nonzero, ?_, ones, by simp [fourCandidates], notOpposite_ones⟩
  simp only [fourCandidates, List.forall_mem_cons]
  exact ⟨map_nonzero ones_nonzero (by norm_num), firstAxis_nonzero,
    map_nonzero ones_nonzero (by norm_num), ones_nonzero, by simp⟩

/-- The only candidate is the benchmark turned round: nobody is named. -/
theorem opposite_not_named : ones.length = maxSize ∧ (ones.map (-1 * ·)).length = maxSize ∧
    ¬ NamesBest ones [ones.map (-1 * ·)] := by
  have hlen : (ones.map (-1 * ·)).length = maxSize := (List.length_map _).trans ones_length
  refine ⟨ones_length, hlen, fun h => ?_⟩
  obtain ⟨i, d, s, hnamed, -⟩ := h.named
  have hd : ∀ d ∈ [ones.map (-1 * ·)], d.length = maxSize := by
    simpa using hlen
  have hd0 : ∀ d ∈ [ones.map (-1 * ·)], ∃ x ∈ d, x ≠ 0 := by
    rintro d hdm
    rw [List.mem_singleton.mp hdm]
    exact map_nonzero ones_nonzero (by norm_num)
  have hcos : Directions.cos maxSize ones (ones.map (-1 * ·)) = -1 :=
    (Directions.cos_eq_neg_one_iff ones_length hlen ones_nonzero).mpr
      ⟨-1, by norm_num, rfl⟩
  rw [identificateBy_checked ones_length hd ones_nonzero hd0, List.map_singleton, hcos] at hnamed
  simp [RunningMax.scan] at hnamed

end Opposite

end FaceRecognition
