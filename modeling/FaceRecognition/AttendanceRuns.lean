import FaceRecognition.CheckAttendance

/-! Whole runs of `check_attendance`: which of them stay inside their vectors, and
which of them answer with one line. -/
namespace FaceRecognition
open CppString
variable {W F : Type*}

section Load
variable [CFloat F] {fs : FileSystem W} {w : W} {bench : Str} {students : List Str}

theorem load_ok_iff (b : List F) (l : List (Str × List F)) :
    (load fs w bench students).result = .ok (b, l) ↔
      (txtToVector fs w bench).result = .ok b ∧ (loadStudents fs w students).result = .ok l := by
  simp only [load, Printing.bind_result, Except.bind_eq_ok, Printing.pure_result,
    Except.ok.injEq, Prod.mk.injEq]
  constructor
  · rintro ⟨_, hb, _, hl, rfl, rfl⟩
    exact ⟨hb, hl⟩
  · rintro ⟨hb, hl⟩
    exact ⟨b, hb, l, hl, rfl, rfl⟩

theorem load_error {e : StdException}
    (h : (load fs w bench students : Printing StdException (List F × _)).result = .error e) :
    e.what = "stof".toList := by
  cases hb : (txtToVector fs w bench : Printing StdException (List F)).result with
  | error e' =>
    rw [load, Printing.bind_of_error hb] at h
    obtain rfl : e' = e := by simpa using h
    exact txtToVector_error hb
  | ok b =>
    cases hl : (loadStudents fs w students : Printing StdException (List (Str × List F))).result with
    | error e' =>
      rw [load, Printing.bind_of_ok hb, Printing.bind_of_error hl] at h
      obtain rfl : e' = e := by simpa using h
      exact loadStudents_error hl
    | ok l => simp [(load_ok_iff b l).mpr ⟨hb, hl⟩] at h

/-- With a complete benchmark nothing but the candidates prints while loading. -/
theorem load_lines {b : List F} {l : List (Str × List F)}
    (hopen : fs.openFile w bench ≠ none) (h : (load fs w bench students).result = .ok (b, l)) :
    (load fs w bench students : Printing StdException (List F × _)).lines =
      (candidates fs w students).flatMap fun c =>
        (txtToVector fs c.1 c.2 : Printing StdException (List F)).lines := by
  obtain ⟨hb, hl⟩ := (load_ok_iff b l).mp h
  obtain ⟨content, hc⟩ := Option.ne_none_iff_exists'.mp hopen
  rw [load, Printing.bind_of_ok hb, Printing.bind_of_ok hl, txtToVector_lines_of_open hc,
    loadStudents_lines hl]
  simp

/-- Loaded descriptors are empty or complete. -/
theorem loaded_descriptors {l : List (Str × List F)}
    (h : (loadStudents fs w students).result = .ok l) : Descriptors (l.map Prod.snd) := by
  have hall := loadStudents_forall h
  clear h
  generalize candidates fs w students = cs at hall
  induction hall with
  | nil => simp [Descriptors]
  | @cons c x cs xs hx _ ih =>
    intro d hd
    rcases List.mem_cons.mp hd with rfl | hd
    · exact (txtToVector_length hx.2).imp And.right And.right
    · exact ih d hd

end Load

/-! ### Index safety -/

section Safety
variable [Zero F] [Add F] [Mul F] [Div F] [CFloat F] [LT F] [DecidableLT F]

/-- When the run reads no vector out of range: the benchmark can be opened, or loading ends
in an exception, or there is no candidate, or the first one cannot be opened. -/
def BenchmarkGuarded (F : Type*) [CFloat F] (fs : FileSystem W) (w : W) (argv : List Str) : Prop :=
  ∀ prog bench std_num rest, argv = prog :: bench :: std_num :: rest →
    fs.openFile w bench ≠ none ∨
    (∃ c ∈ candidates fs w (std_num :: rest), Malformed F fs c.1 c.2) ∨
    ∀ c ∈ (candidates fs w (std_num :: rest)).head?, fs.openFile c.1 c.2 = none

/-- The search as a main calls it, for either of the two tests. -/
def searchWith (accept : F → Bool) (ds : List (List F)) (bench : List F) : Except BadIndex Int :=
  searchLoop accept bench ds 0 CFloat.negOne (-1)

theorem reportMatch_ok {accept : F → Bool} {lines : List Str} {b : List F} {l : List (Str × List F)}
    (h : ∃ r, searchWith accept (l.map Prod.snd) b = .ok r ∧
      (r = -1 ∨ ∃ k < l.length, r = ((k : Nat) : Int))) :
    ∃ out, reportMatch (searchWith accept) lines b l = .ok out := by
  obtain ⟨r, hr, hrange⟩ := h
  by_cases hl : l.length = 0
  · exact ⟨_, by rw [reportMatch, if_pos hl]⟩
  · rw [reportMatch, if_neg hl, hr, Except.ok_bind]
    rcases hrange with rfl | ⟨k, hk, rfl⟩
    · exact ⟨_, if_pos rfl⟩
    · have hkl : ((k : Nat) : Int).toNat < (l.map Prod.fst).length := by simpa using hk
      rw [if_neg (by omega), access_of_lt hkl, Except.ok_bind]
      cases imagePath (l.map Prod.fst)[((k : Nat) : Int).toNat] with
      | ok line => exact ⟨_, rfl⟩
      | error e => exact ⟨_, rfl⟩

/-- With a complete benchmark the search stays in range and returns an index or `-1`. -/
theorem searchWith_ok (accept : F → Bool) {b : List F} (hb : b.length = maxSize)
    {ds : List (List F)} (hd : Descriptors ds) :
    ∃ r, searchWith accept ds b = .ok r ∧ (r = -1 ∨ ∃ k < ds.length, r = ((k : Nat) : Int)) := by
  refine ⟨_, searchLoop_eq_scan accept hb ds hd 0 _ (-1), ?_⟩
  rcases RunningMax.scan_index accept ((searched ds).map (cosine b)) 0 CFloat.negOne (-1)
    with hr | ⟨k, hk, hr⟩
  · exact .inl hr
  · refine .inr ⟨k, ?_, by rw [hr]; simp⟩
    have hle : (searched ds).length ≤ ds.length := (List.takeWhile_sublist _).length_le
    simp only [List.length_map] at hk
    omega

/-- An empty candidate in front, or none at all: the search returns before it compares. -/
theorem searchWith_empty_front (accept : F → Bool) (b : List F) {ds : List (List F)}
    (h : ∀ d ∈ ds.head?, d = []) : searchWith accept ds b = .ok (-1) := by
  cases ds with
  | nil => rfl
  | cons d ds =>
    obtain rfl : d = [] := h d rfl
    rfl

variable {fs : FileSystem W} {w : W} {argv : List Str}

theorem attendanceMain_ok_of_guarded (accept : F → Bool) (h : BenchmarkGuarded F fs w argv) :
    ∃ out, attendanceMain (searchWith accept) fs w argv = .ok out := by
  unfold attendanceMain
  split
  next prog bench std_num rest =>
    split
    next e _ => exact ⟨_, rfl⟩
    next b l hload =>
      obtain ⟨hb, hl⟩ := (load_ok_iff b l).mp hload
      apply reportMatch_ok
      by_cases hopen : fs.openFile w bench = none
      · -- the benchmark is empty, so the first candidate has to be empty as well
        refine ⟨-1, searchWith_empty_front accept b ?_, .inl rfl⟩
        have hfront : ∀ c ∈ (candidates fs w (std_num :: rest)).head?, fs.openFile c.1 c.2 = none := by
          rcases h prog bench std_num rest rfl with h | ⟨c, hc, hbad⟩ | h
          · exact absurd hopen h
          · exact absurd hbad ((loadStudents_ok_iff fs w (std_num :: rest)).mp ⟨l, hl⟩ c hc)
          · exact h
        have hall := loadStudents_forall hl
        generalize candidates fs w (std_num :: rest) = cs at hfront hall
        cases hall with
        | nil => simp
        | @cons c x cs xs hx _ =>
          intro d hd
          obtain rfl : x.2 = d := by simpa using hd
          rcases txtToVector_length hx.2 with ⟨-, h0⟩ | ⟨⟨content, hc, -⟩, -⟩
          · exact h0
          · simp [hfront c rfl] at hc
      · have hbl : b.length = maxSize := by
          rcases txtToVector_length hb with ⟨h0, -⟩ | ⟨-, h1⟩
          · exact absurd h0 hopen
          · exact h1
        obtain ⟨r, hr, hrange⟩ := searchWith_ok accept hbl (loaded_descriptors hl)
        exact ⟨r, hr, by simpa using hrange⟩
  next => exact ⟨_, rfl⟩

theorem guarded_of_attendanceMain_ok {accept : F → Bool}
    (h : ∃ out, attendanceMain (searchWith accept) fs w argv = .ok out) :
    BenchmarkGuarded F fs w argv := by
  rintro prog bench std_num rest rfl
  by_contra hcon
  push Not at hcon
  obtain ⟨hclosed, hgood, c, hc, hopen⟩ := hcon
  obtain ⟨l, hl⟩ := (loadStudents_ok_iff fs w (std_num :: rest)).mpr hgood
  have hb : (txtToVector fs w bench : Printing StdException (List F)).result = .ok [] := by
    simp [txtToVector, hclosed]
  have hload := (load_ok_iff [] l).mpr ⟨hb, hl⟩
  obtain ⟨out, hout⟩ := h
  simp only [attendanceMain, hload] at hout
  have hall := loadStudents_forall hl
  generalize candidates fs w (std_num :: rest) = cs at hc hall
  cases hall with
  | nil => simp at hc
  | @cons c' x cs xs hx _ =>
    obtain rfl : c' = c := by simpa using hc
    have hx0 : x.2 ≠ [] := by
      rcases txtToVector_length hx.2 with ⟨h0, -⟩ | ⟨-, h1⟩
      · exact absurd h0 hopen
      · intro h0
        simp [h0, maxSize] at h1
    rw [reportMatch, if_neg (by simp), Except.bind_eq_ok] at hout
    obtain ⟨r, hr, -⟩ := hout
    have hsize : maxSize ≤ ([] : List F).length := searchLoop_ok ⟨r, hr⟩ hx0
    simp [maxSize] at hsize

/-- Both programs stay inside their vectors on exactly the same runs. -/
theorem attendance_in_range_iff [LE F] [DecidableLE F] (fs : FileSystem W) (w : W)
    (argv : List Str) :
    ((∃ out, checkAttendance (F := F) fs w argv = .ok out) ↔ BenchmarkGuarded F fs w argv) ∧
      ((∃ out, checkAttendance2 (F := F) fs w argv = .ok out) ↔ BenchmarkGuarded F fs w argv) :=
  ⟨⟨guarded_of_attendanceMain_ok, attendanceMain_ok_of_guarded _⟩,
    ⟨guarded_of_attendanceMain_ok, attendanceMain_ok_of_guarded _⟩⟩

end Safety

/-! ### One line, from a readable candidate -/

section Protocol
variable [CFloat F]

open Classical in
/-- The same directories without the candidate files that hold no descriptor. -/
noncomputable def FileSystem.withoutBad (F : Type*) [CFloat F] (fs : FileSystem W) :
    FileSystem W where
  opendir w dir := (fs.opendir w dir).map fun names => names.filter fun name =>
    decide (isWanted dotTxt name = true → Readable F fs w (dir ++ name))
  mkdir := fs.mkdir
  openFile := fs.openFile

variable {fs : FileSystem W} {w : W}

/-- Nothing to remove: the listing of a student directory stays as it is. -/
theorem getFiles_withoutBad {dir : Str}
    (h : ∀ p ∈ (getFiles fs w dir dotTxt).2,
      Readable F fs (getFiles fs w dir dotTxt).1 p) :
    getFiles (fs.withoutBad F) w dir dotTxt = getFiles fs w dir dotTxt := by
  cases hop : fs.opendir w dir with
  | none => simp [getFiles, FileSystem.withoutBad, hop]
  | some names =>
    simp only [getFiles, hop] at h
    simp only [getFiles, FileSystem.withoutBad, hop, Option.map_some]
    rw [readdirLoop_filter]
    intro name hn hw
    simpa [hw] using h (dir ++ name) (mem_readdirLoop.mpr ⟨name, hn, hw, rfl⟩)

theorem candidates_withoutBad {students : List Str}
    (h : ∀ c ∈ candidates fs w students, Readable F fs c.1 c.2) :
    candidates (fs.withoutBad F) w students = candidates fs w students := by
  induction students generalizing w with
  | nil => rfl
  | cons std_num rest ih =>
    simp only [candidates, List.mem_append, List.mem_map] at h ⊢
    rw [getFiles_withoutBad fun p hp => h _ (.inl ⟨p, hp, rfl⟩), ih fun c hc => h c (.inr hc)]

theorem txtToVector_withoutBad (w : W) (p : Str) :
    (txtToVector (fs.withoutBad F) w p : Printing StdException (List F)) = txtToVector fs w p := by
  simp only [txtToVector, FileSystem.withoutBad]

theorem loadCandidate_withoutBad :
    loadCandidate (F := F) (fs.withoutBad F) = loadCandidate fs := by
  funext c
  rw [loadCandidate, txtToVector_withoutBad, loadCandidate]

theorem attendanceMain_withoutBad (search : List (List F) → List F → Except BadIndex Int)
    (prog bench std_num : Str) (rest : List Str)
    (h : ∀ c ∈ candidates fs w (std_num :: rest), Readable F fs c.1 c.2) :
    attendanceMain search (fs.withoutBad F) w (prog :: bench :: std_num :: rest) =
      attendanceMain search fs w (prog :: bench :: std_num :: rest) := by
  have hload : load (F := F) (fs.withoutBad F) w bench (std_num :: rest) =
      load fs w bench (std_num :: rest) := by
    unfold load
    rw [loadStudents_eq, loadStudents_eq, candidates_withoutBad h, loadCandidate_withoutBad]
    simp only [txtToVector_withoutBad]
  simp only [attendanceMain, hload]

/-- The image path of a candidate always exists: its name contains `.txt`. -/
theorem imagePath_candidate {students : List Str} {c : W × Str}
    (h : c ∈ candidates fs w students) : ∃ line, imagePath c.2 = .ok line := by
  obtain ⟨dir, name, hw, hpath⟩ := mem_candidates h
  obtain ⟨i, hi⟩ := find?_of_isWanted hw
  obtain ⟨j, hj, hf⟩ := find?_append_right hi dir
  refine ⟨c.2.take j ++ dotPng, ?_⟩
  have hfind : find c.2 dotTxt = j := by rw [hpath, find, hf, Option.getD_some]
  rw [imagePath, hfind, erase, if_neg (by rw [hpath]; omega), Except.ok_bind]

theorem imagePath_eq_append {p line : Str} (h : imagePath p = .ok line) :
    ∃ s, line = s ++ dotPng := by
  simp only [imagePath, Except.bind_eq_ok, Except.ok.injEq] at h
  obtain ⟨s, -, rfl⟩ := h
  exact ⟨s, rfl⟩

/-- `what()` of the exceptions of `stof` is neither of the two answers. -/
theorem stof_ne_answer {line : Str} (h : line = "stof".toList) :
    ¬ (line = "absence".toList ∨ ∃ p, imagePath p = .ok line) := by
  rintro (habs | ⟨p, hp⟩)
  · exact absurd (h.symm.trans habs) (by decide)
  · obtain ⟨s, hs⟩ := imagePath_eq_append hp
    have hlast := congrArg List.getLast? (h.symm.trans hs)
    rw [List.getLast?_append_of_ne_nil _ (by decide)] at hlast
    exact absurd hlast (by decide)

end Protocol

section Report

/-- Once loading has printed something, no answer line stands alone. -/
theorem reportMatch_stdout {search : List (List F) → List F → Except BadIndex Int}
    {lines : List Str} {b : List F} {l : List (Str × List F)} {out : Outcome}
    (h : reportMatch search lines b l = .ok out) : ∃ line, out.stdout = lines ++ [line] := by
  unfold reportMatch at h
  split at h
  · cases h
    exact ⟨_, rfl⟩
  · obtain ⟨r, -, h⟩ := Except.bind_eq_ok.mp h
    split at h
    · cases h
      exact ⟨_, rfl⟩
    · obtain ⟨p, -, h⟩ := Except.bind_eq_ok.mp h
      split at h <;> cases h <;> exact ⟨_, rfl⟩

theorem reportMatch_status {search : List (List F) → List F → Except BadIndex Int}
    {lines : List Str} {b : List F} {l : List (Str × List F)} {out : Outcome}
    (h : reportMatch search lines b l = .ok out) (hl : l.length ≠ 0) : out.status = 0 := by
  rw [reportMatch, if_neg hl] at h
  obtain ⟨r, -, h⟩ := Except.bind_eq_ok.mp h
  split at h
  · cases h
    rfl
  · obtain ⟨p, -, h⟩ := Except.bind_eq_ok.mp h
    split at h <;> cases h <;> rfl

end Report

section Answer
variable [Zero F] [Add F] [Mul F] [Div F] [CFloat F] [LT F] [DecidableLT F] [LE F] [DecidableLE F]
  {fs : FileSystem W} {w : W} {prog bench std_num : Str} {rest : List Str}

/-- A run that exits with status 0 prints one line, `absence` or the image path of a
candidate, and it is the line that the run without the bad files prints. -/
def AnswersOnce (F : Type*) [Zero F] [Add F] [Mul F] [Div F] [CFloat F] [LT F] [DecidableLT F]
    [LE F] [DecidableLE F] (fs : FileSystem W) (w : W) (prog bench std_num : Str)
    (rest : List Str) : Prop :=
  ∃ out, checkAttendance (F := F) fs w (prog :: bench :: std_num :: rest) = .ok out ∧
    (out.status = 0 →
      (∃ line, out.stdout = [line] ∧ (line = "absence".toList ∨
        ∃ c ∈ candidates fs w (std_num :: rest), imagePath c.2 = .ok line)) ∧
      ∃ out', checkAttendance (F := F) (fs.withoutBad F) w (prog :: bench :: std_num :: rest) =
        .ok out' ∧ out'.stdout = out.stdout)

theorem readable_of_answersOnce (hbench : Readable F fs w bench)
    (h : AnswersOnce F fs w prog bench std_num rest) :
    ∀ c ∈ candidates fs w (std_num :: rest), Readable F fs c.1 c.2 := by
  obtain ⟨out, hout, hanswer⟩ := h
  obtain ⟨content, hopen, -⟩ := hbench
  cases hload : (load (F := F) fs w bench (std_num :: rest)).result with
  | error e =>
    -- the handler prints `stof` after whatever loading has printed
    simp only [checkAttendance, attendanceMain, hload, Except.ok.injEq] at hout
    subst hout
    obtain ⟨⟨line, hline, hans⟩, -⟩ := hanswer rfl
    have hlast := congrArg List.getLast? hline
    simp only [List.getLast?_append, List.getLast?_singleton, Option.some_or,
      Option.some.injEq] at hlast
    refine absurd (hans.imp id fun ⟨c, _, hc⟩ => ⟨c.2, hc⟩) (stof_ne_answer ?_)
    rw [← hlast]
    exact load_error hload
  | ok bl =>
    obtain ⟨b, l⟩ := bl
    simp only [checkAttendance, attendanceMain, hload] at hout
    obtain ⟨hb, hl⟩ := (load_ok_iff b l).mp hload
    have hgood := (loadStudents_ok_iff (F := F) fs w (std_num :: rest)).mp ⟨l, hl⟩
    intro c hc
    by_contra hbad
    have hclosed : fs.openFile c.1 c.2 = none := by
      cases ho : fs.openFile c.1 c.2 with
      | none => rfl
      | some text =>
        by_cases hwf : WellFormed F text
        · exact absurd ⟨text, ho, hwf⟩ hbad
        · exact absurd ⟨text, ho, hwf⟩ (hgood c hc)
    have hne : l.length ≠ 0 := by
      have hlen := (loadStudents_forall hl).length_eq
      have hpos := List.length_pos_of_mem hc
      omega
    obtain ⟨line, hstdout⟩ := reportMatch_stdout hout
    obtain ⟨⟨line', hone, -⟩, -⟩ := hanswer (reportMatch_status hout hne)
    have hprinted : "error in txt to vector".toList ∈ out.stdout.dropLast := by
      rw [hstdout, List.dropLast_concat, load_lines (by simp [hopen]) hload]
      exact List.mem_flatMap.mpr ⟨c, hc, by simp [txtToVector_lines_of_not_open hclosed]⟩
    simp [hone] at hprinted

theorem answersOnce_of_readable (hbench : Readable F fs w bench)
    (h : ∀ c ∈ candidates fs w (std_num :: rest), Readable F fs c.1 c.2) :
    AnswersOnce F fs w prog bench std_num rest := by
  obtain ⟨content, hopen, hwf⟩ := hbench
  have hsame := attendanceMain_withoutBad (searchMAX (F := F)) prog bench std_num rest h
  obtain ⟨b, hb⟩ := (txtToVector_ok_iff (F := F) fs w bench).mpr (by
    rintro ⟨text, ho, hbad⟩
    obtain rfl : content = text := by simpa [hopen] using ho
    exact hbad hwf)
  obtain ⟨l, hl⟩ := (loadStudents_ok_iff (F := F) fs w (std_num :: rest)).mpr (by
    rintro c hc ⟨text, ho, hbad⟩
    obtain ⟨text', ho', hgood⟩ := h c hc
    obtain rfl : text = text' := by simpa [ho] using ho'
    exact hbad hgood)
  have hload := (load_ok_iff b l).mpr ⟨hb, hl⟩
  have hlines : (load (F := F) fs w bench (std_num :: rest)).lines = [] := by
    rw [load_lines (by simp [hopen]) hload, List.flatMap_eq_nil_iff]
    intro c hc
    obtain ⟨text, ho, -⟩ := h c hc
    exact txtToVector_lines_of_open ho
  have hbl : b.length = maxSize := by
    rcases txtToVector_length hb with ⟨h0, -⟩ | ⟨-, h1⟩
    · simp [hopen] at h0
    · exact h1
  obtain ⟨r, hr, hrange⟩ := searchWith_ok (fun s => decide (CFloat.similarity ≤ s)) hbl
    (loaded_descriptors hl)
  have hsearch : searchMAX (l.map Prod.snd) b = .ok r := hr
  have hmain : checkAttendance (F := F) fs w (prog :: bench :: std_num :: rest) =
      reportMatch searchMAX [] b l := by
    simp only [checkAttendance, attendanceMain, hload, hlines]
  have hclean : checkAttendance (F := F) (fs.withoutBad F) w (prog :: bench :: std_num :: rest) =
      checkAttendance fs w (prog :: bench :: std_num :: rest) := hsame
  rw [AnswersOnce, hclean, hmain]
  by_cases hempty : l.length = 0
  · exact ⟨_, by rw [reportMatch, if_pos hempty], fun h0 => absurd h0 (by simp)⟩
  · rw [reportMatch, if_neg hempty, hsearch, Except.ok_bind]
    rcases hrange with rfl | ⟨k, hk, rfl⟩
    · exact ⟨_, if_pos rfl, fun _ => ⟨⟨_, rfl, .inl rfl⟩, _, if_pos rfl, rfl⟩⟩
    · rw [List.length_map] at hk
      have hall := loadStudents_forall hl
      have hkc : k < (candidates fs w (std_num :: rest)).length := hall.length_eq ▸ hk
      have hkl : ((k : Nat) : Int).toNat < (l.map Prod.fst).length := by simpa using hk
      have hpath : (l.map Prod.fst)[((k : Nat) : Int).toNat] =
          ((candidates fs w (std_num :: rest))[k]).2 := by
        have hx := (hall.get hkc hk).1
        simpa using hx
      obtain ⟨line, hline⟩ := imagePath_candidate (List.getElem_mem hkc)
      rw [if_neg (by omega), access_of_lt hkl, Except.ok_bind, hpath, hline]
      exact ⟨_, rfl, fun _ => ⟨⟨line, rfl, .inr ⟨_, List.getElem_mem hkc, hline⟩⟩, _, rfl, rfl⟩⟩

/-- With a well-formed benchmark the run answers as it should exactly when every candidate
file of the listed students holds a descriptor. -/
theorem answersOnce_iff (fs : FileSystem W) (w : W) (prog bench std_num : Str) (rest : List Str)
    (hbench : Readable F fs w bench) :
    AnswersOnce F fs w prog bench std_num rest ↔
      ∀ c ∈ candidates fs w (std_num :: rest), Readable F fs c.1 c.2 :=
  ⟨readable_of_answersOnce hbench, answersOnce_of_readable hbench⟩

end Answer
/-! ### One student with one file -/

section OneStudent

/-- One student directory with one descriptor file, next to a benchmark file. -/
def oneStudent (bench candidate : Option Str) : FileSystem Unit where
  opendir _ _ := some [".".toList, "..".toList, "a.txt".toList]
  mkdir w _ := w
  openFile _ path := if path = "bench".toList then bench else candidate

theorem openFile_oneStudent {path : Str} (h : path ≠ "bench".toList) (bench candidate : Option Str) :
    (oneStudent bench candidate).openFile () path = candidate := if_neg h

theorem candidates_oneStudent (bench candidate : Option Str) :
    ∃ path, path ≠ "bench".toList ∧
      candidates (oneStudent bench candidate) () ["s".toList] = [((), path)] :=
  ⟨studentDir ++ "s".toList ++ "/".toList ++ "a.txt".toList, by decide, rfl⟩

/-- The text of a descriptor with every entry 1. -/
def onesText : Str := (List.replicate maxSize "1\n".toList).flatten

theorem lineAt_replicate (n i : Nat) (h : i < n) :
    lineAt i (List.replicate n "1\n".toList).flatten = "1".toList := by
  induction n generalizing i with
  | zero => omega
  | succ n ih =>
    have hline : getline (List.replicate (n + 1) "1\n".toList).flatten =
        ("1".toList, (List.replicate n "1\n".toList).flatten) := by
      simp [List.replicate_succ, getline]
    cases i with
    | zero => rw [lineAt, hline]
    | succ i =>
      rw [lineAt, hline]
      exact ih i (by omega)

theorem onesText_wellFormed : WellFormed ℝ onesText := by
  intro i hi
  rw [onesText, lineAt_replicate maxSize i hi]
  have hread : strtof "1".toList = some (.finite false 1 10 0) := by decide
  exact ⟨_, by rw [stof, hread]; rfl⟩

theorem blank_not_wellFormed : ¬ WellFormed ℝ [] := by
  intro h
  obtain ⟨x, hx⟩ := h 0 (by decide)
  have hread : strtof (lineAt 0 []) = none := by decide
  simp [stof, hread] at hx

/-- No benchmark file and a readable candidate: the search reads `bench_descriptor[0]` of an
empty vector. -/
theorem missing_benchmark_out_of_range :
    ¬ ∃ out, checkAttendance (F := ℝ) (oneStudent none (some onesText)) ()
      ["check_attendance".toList, "bench".toList, "s".toList] = .ok out := by
  intro h
  obtain ⟨path, hpath, hcand⟩ := candidates_oneStudent none (some onesText)
  have hguard : BenchmarkGuarded ℝ (oneStudent none (some onesText)) ()
      ["check_attendance".toList, "bench".toList, "s".toList] := guarded_of_attendanceMain_ok h
  rcases hguard _ _ _ _ rfl with hopen | ⟨c, hc, hbad⟩ | hfront
  · exact hopen rfl
  · rw [hcand] at hc
    obtain rfl : c = ((), path) := by simpa using hc
    obtain ⟨text, htext, hnot⟩ := hbad
    rw [openFile_oneStudent hpath, Option.some.injEq] at htext
    subst htext
    exact hnot onesText_wellFormed
  · have hnone := hfront ((), path) (by rw [hcand]; rfl)
    rw [openFile_oneStudent hpath] at hnone
    cases hnone

theorem answersOnce_readable_student :
    AnswersOnce ℝ (oneStudent (some onesText) (some onesText)) () "check_attendance".toList
      "bench".toList "s".toList [] := by
  obtain ⟨path, hpath, hcand⟩ := candidates_oneStudent (some onesText) (some onesText)
  refine (answersOnce_iff _ _ _ _ _ _ ⟨onesText, rfl, onesText_wellFormed⟩).mpr fun c hc => ?_
  rw [hcand] at hc
  obtain rfl : c = ((), path) := by simpa using hc
  exact ⟨onesText, openFile_oneStudent hpath _ _, onesText_wellFormed⟩

/-- A blank candidate file: the one line printed is `stof`, with exit status 0. -/
theorem blank_candidate_answer :
    Readable ℝ (oneStudent (some onesText) (some [])) () "bench".toList ∧
      ¬ AnswersOnce ℝ (oneStudent (some onesText) (some [])) () "check_attendance".toList
        "bench".toList "s".toList [] := by
  have hbench : Readable ℝ (oneStudent (some onesText) (some [])) () "bench".toList :=
    ⟨onesText, rfl, onesText_wellFormed⟩
  refine ⟨hbench, fun h => ?_⟩
  obtain ⟨path, hpath, hcand⟩ := candidates_oneStudent (some onesText) (some [])
  obtain ⟨text, htext, hwf⟩ := readable_of_answersOnce hbench h ((), path) (by rw [hcand]; simp)
  rw [openFile_oneStudent hpath, Option.some.injEq] at htext
  subst htext
  exact blank_not_wellFormed hwf

end OneStudent
end FaceRecognition
