import FaceRecognition.Matching

/-! The two searches with the similarity as a parameter: they stop at the same candidate and
compare the same values, so they differ only in the threshold. -/
namespace FaceRecognition

section Loop
variable {F ε : Type*} [CFloat F] [LT F] [DecidableLT F]

/-- The loop of `search_MAX` and `identificate` with `vector_inner_product` as a parameter. -/
def searchBy (accept : F → Bool) (innerProduct : List F → Except ε F) :
    List (List F) → Int → F → Int → Except ε Int
  | [], _, _, max_index => .ok max_index
  | d :: ds, i, max, max_index =>
    if d.length = 0 then .ok max_index
    else (innerProduct d).bind fun similarity =>
      if accept similarity = true ∧ max < similarity then
        searchBy accept innerProduct ds (i + 1) similarity i
      else searchBy accept innerProduct ds (i + 1) max max_index

def searchMAXBy [LE F] [DecidableLE F] (innerProduct : List F → List F → Except ε F)
    (face_descriptors : List (List F)) (bench_descriptor : List F) : Except ε Int :=
  searchBy (fun s => decide (CFloat.similarity ≤ s)) (innerProduct bench_descriptor)
    face_descriptors 0 CFloat.negOne (-1)

def identificateBy (innerProduct : List F → List F → Except ε F)
    (face_descriptors : List (List F)) (bench_descriptor : List F) : Except ε Int :=
  searchBy (fun _ => true) (innerProduct bench_descriptor) face_descriptors 0 CFloat.negOne (-1)

variable [Zero F] [Add F] [Mul F] [Div F]

theorem searchLoop_eq_searchBy (accept : F → Bool) (bench : List F) (ds : List (List F)) (i : Int)
    (m : F) (best : Int) : searchLoop accept bench ds i m best =
      searchBy accept (vectorInnerProduct bench) ds i m best := by
  induction ds generalizing i m best with
  | nil => rfl
  | cons d ds ih =>
    simp only [searchLoop, searchBy, ih]

theorem searchMAX_eq_searchMAXBy [LE F] [DecidableLE F] (ds : List (List F)) (bench : List F) :
    searchMAX ds bench = searchMAXBy vectorInnerProduct ds bench :=
  searchLoop_eq_searchBy _ bench ds 0 _ (-1)

theorem identificate_eq_identificateBy (ds : List (List F)) (bench : List F) :
    identificate ds bench = identificateBy vectorInnerProduct ds bench :=
  searchLoop_eq_searchBy _ bench ds 0 _ (-1)

end Loop

section Scan
variable {F ε : Type*} [LT F] [DecidableLT F]

/-- The first comparison that fails ends either search, otherwise both scan the same values. -/
theorem searchBy_eq_scan [CFloat F] (accept : F → Bool) (innerProduct : List F → Except ε F)
    (ds : List (List F)) (i : Int) (m : F) (best : Int) :
    searchBy accept innerProduct ds i m best =
      ((searched ds).mapM innerProduct).map (RunningMax.scan accept i m best) := by
  induction ds generalizing i m best with
  | nil => rfl
  | cons d ds ih =>
    by_cases h0 : d.length = 0
    · have hs : searched (d :: ds) = [] := List.takeWhile_cons_of_neg (by simpa using h0)
      rw [searchBy, if_pos h0, hs]
      rfl
    · have hs : searched (d :: ds) = d :: searched ds := List.takeWhile_cons_of_pos (by simpa using h0)
      rw [searchBy, if_neg h0, hs, List.mapM_cons]
      cases hd : innerProduct d with
      | error e => rfl
      | ok s =>
        rw [Except.ok_bind, ih, ih]
        cases (searched ds).mapM innerProduct with
        | error e => split <;> rfl
        | ok ss =>
          change _ = Except.ok (RunningMax.scan accept i m best (s :: ss))
          rw [RunningMax.scan]
          split <;> rfl

/-- Candidates that are empty at the same places and compare with the same outcome. -/
theorem searchBy_congr [CFloat F] (accept : F → Bool) {ip ip' : List F → Except ε F}
    {ds ds' : List (List F)}
    (h : List.Forall₂ (fun d d' => (d.length = 0 ↔ d'.length = 0) ∧ ip d = ip' d') ds ds')
    (i : Int) (m : F) (best : Int) :
    searchBy accept ip ds i m best = searchBy accept ip' ds' i m best := by
  induction h generalizing i m best with
  | nil => rfl
  | cons hd _ ih => simp only [searchBy, hd.1, hd.2, ih]

end Scan

section Modes
variable {F ε : Type*} [LT F] [LE F] [DecidableLT F] [DecidableLE F] [CFloat F]

/-- `s` is the similarity of the `i`-th of the candidates before the first empty one. -/
def SimilarityAt (innerProduct : List F → Except ε F) (ds : List (List F)) (i : Nat) (s : F) : Prop :=
  ∃ d, (searched ds)[i]? = some d ∧ innerProduct d = .ok s

/-- How the attendance mode (`matched`) and the identification mode (`named`) are related. -/
structure ModesAgree (innerProduct : List F → Except ε F) (ds : List (List F))
    (matched named : Except ε Int) : Prop where
  matched_iff : ∀ i : Nat, matched = .ok (i : Int) ↔
    named = .ok (i : Int) ∧ ∃ s, SimilarityAt innerProduct ds i s ∧ CFloat.similarity ≤ s
  /-- The index named is the least one of greatest similarity, a NaN (`¬ t ≤ t`) left aside. -/
  named_least : ∀ i : Nat, named = .ok (i : Int) → ∃ s, SimilarityAt innerProduct ds i s ∧ s ≤ s ∧
    ∀ j t, SimilarityAt innerProduct ds j t → t ≤ t → t ≤ s ∧ (j < i → ¬ s ≤ t)
  unmatched_iff : matched = .ok (-1) ↔
    ∀ d ∈ searched ds, ∃ s, innerProduct d = .ok s ∧ ¬ CFloat.similarity ≤ s

theorem modesAgree_searchBy [RunningMax.NanOrder F] (h1 : (CFloat.negOne : F) < CFloat.similarity)
    (innerProduct : List F → List F → Except ε F) (bench : List F) (ds : List (List F)) :
    ModesAgree (innerProduct bench) ds (searchMAXBy innerProduct ds bench)
      (identificateBy innerProduct ds bench) := by
  rw [searchMAXBy, identificateBy, searchBy_eq_scan, searchBy_eq_scan]
  cases hss : (searched ds).mapM (innerProduct bench) with
  | error e =>
    refine ⟨by simp [Except.map], by simp [Except.map], ?_⟩
    constructor
    · intro h
      cases h
    · intro h
      obtain ⟨ss, hok⟩ := (Except.mapM_ok_exists_iff _ _).mpr fun d hd =>
        (h d hd).imp fun s hs => hs.1
      rw [hss] at hok
      cases hok
  | ok ss =>
    have hat : ∀ i s, SimilarityAt (innerProduct bench) ds i s ↔ ss[i]? = some s := fun i s =>
      (Except.mapM_getElem?_iff hss i s).symm
    simp only [Except.map]
    refine ⟨fun i => ?_, fun i hi => ?_, ?_⟩
    · simp only [Except.ok.injEq, hat, RunningMax.scan_start_iff,
        RunningMax.isFirstBest_threshold_iff h1]
      constructor
      · rintro ⟨s, hb, hc⟩
        exact ⟨⟨s, hb⟩, s, hb.at_index, hc⟩
      · rintro ⟨⟨s, hb⟩, t, ht, hc⟩
        obtain rfl : s = t := by simpa [hb.at_index] using ht
        exact ⟨s, hb, hc⟩
    · simp only [Except.ok.injEq, RunningMax.scan_start_iff] at hi
      obtain ⟨s, hb⟩ := hi
      refine ⟨s, (hat i s).mpr hb.at_index, hb.le_self, fun j t ht hn => ?_⟩
      have hj := (hat j t).mp ht
      exact ⟨hb.le (List.mem_of_getElem? hj) rfl hn, fun hji => hb.first j hji t hj rfl⟩
    · simp only [Except.ok.injEq, RunningMax.scan_start_none_iff, decide_eq_true_eq]
      constructor
      · intro h d hd
        obtain ⟨i, hi⟩ := List.mem_iff_getElem?.mp hd
        obtain ⟨s, hs⟩ := (Except.mapM_ok_exists_iff _ _).mp ⟨ss, hss⟩ d hd
        have hmem := List.mem_of_getElem? ((hat i s).mp ⟨d, hi, hs⟩)
        exact ⟨s, hs, fun hc => h s hmem hc (RunningMax.lt_of_lt_of_le h1 hc)⟩
      · intro h s hs hc
        obtain ⟨i, hi⟩ := List.mem_iff_getElem?.mp hs
        obtain ⟨d, hd, hds⟩ := (hat i s).mpr hi
        obtain ⟨t, ht, hlow⟩ := h d (List.mem_of_getElem? hd)
        rw [hds, Except.ok.injEq] at ht
        exact absurd (ht ▸ hc) hlow

/-- The attendance mode and the identification mode agree, whatever the similarities are, and
in particular for `vector_inner_product`. -/
theorem modes_agree [RunningMax.NanOrder F] [Zero F] [Add F] [Mul F] [Div F]
    (h1 : (CFloat.negOne : F) < CFloat.similarity) (bench : List F) (ds : List (List F)) :
    (∀ innerProduct : List F → List F → Except ε F,
      ModesAgree (innerProduct bench) ds (searchMAXBy innerProduct ds bench)
        (identificateBy innerProduct ds bench)) ∧
    ModesAgree (vectorInnerProduct bench) ds (searchMAX ds bench) (identificate ds bench) := by
  refine ⟨fun innerProduct => modesAgree_searchBy h1 innerProduct bench ds, ?_⟩
  rw [searchMAX_eq_searchMAXBy, identificate_eq_identificateBy]
  exact modesAgree_searchBy h1 vectorInnerProduct bench ds

end Modes

section Nan
open RunningMax

/-- Reals and a NaN, which comes out of a division by zero and of the root of a negative number. -/
noncomputable instance : CFloat (WithNan ℝ) where
  sqrt
    | .num x => if x < 0 then .nan else .num (CFloat.sqrt x)
    | .nan => .nan
  negOne := .num CFloat.negOne
  similarity := .num CFloat.similarity
  ofLiteral
    | .nan _ => some .nan
    | l => (CFloat.ofLiteral l).map .num

theorem negOne_lt_similarity_nan : (CFloat.negOne : WithNan ℝ) < CFloat.similarity :=
  (WithNan.num_lt_num (CFloat.negOne : ℝ) CFloat.similarity).mpr negOne_lt_similarity_real

/-- A similarity that is the first entry of the candidate. -/
def firstEntry (_ d : List (WithNan ℝ)) : Except BadIndex (WithNan ℝ) := .ok (d.headD .nan)

/-- A candidate whose similarity is a NaN, one that is similar enough and one that is not. -/
theorem modes_agree_nan :
    ModesAgree (firstEntry []) [[.nan], [.num 0.7], [.num (-1)]]
      (searchMAXBy firstEntry [[.nan], [.num 0.7], [.num (-1)]] [])
      (identificateBy firstEntry [[.nan], [.num 0.7], [.num (-1)]] []) :=
  (modes_agree negOne_lt_similarity_nan [] _).1 firstEntry

end Nan

end FaceRecognition
