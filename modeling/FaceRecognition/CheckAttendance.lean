import FaceRecognition.Matching

/-! The mains of `check_attendance` and `check_attendance2`: which candidates they
load, when a run reads a vector out of range, and what a run prints. -/
namespace FaceRecognition
open CppString

def studentDir : Str := "/home/wj/work/Im_Here/Web/public/faceImage/".toList

/-- Lines written to standard output, each ended by `endl`, and the exit status. -/
structure Outcome where
  stdout : List Str
  status : Int

/-- `to_jpg.erase(to_jpg.find(".txt")); to_jpg += ".png";` -/
def imagePath (to_jpg : Str) : Except StdException Str :=
  (erase to_jpg (find to_jpg dotTxt)).bind fun s => .ok (s ++ dotPng)

section Mains
variable {W F : Type*} [CFloat F]

/-- The inner loop of main: the files of one student. -/
def loadFiles (fs : FileSystem W) (w : W) (temp_dir : List Str) :
    Printing StdException (List (Str × List F)) :=
  Printing.traverse (fun p => (txtToVector fs w p).bind fun v => .pure (p, v)) temp_dir

/-- The outer loop of main; the two vectors that it fills are kept as one list of pairs. -/
def loadStudents (fs : FileSystem W) : W → List Str → Printing StdException (List (Str × List F))
  | _, [] => .pure []
  | w, std_num :: rest =>
    let r := getFiles fs w (studentDir ++ std_num ++ "/".toList) dotTxt
    (loadFiles fs r.1 r.2).bind fun l => (loadStudents fs r.1 rest).bind fun ls => .pure (l ++ ls)

/-- What main does once everything is loaded; `lines` is what loading has printed. -/
def reportMatch (search : List (List F) → List F → Except BadIndex Int) (lines : List Str)
    (benchmark_descriptor : List F) (l : List (Str × List F)) : Except BadIndex Outcome :=
  if l.length = 0 then .ok ⟨lines ++ ["-1".toList], 1⟩
  else (search (l.map Prod.snd) benchmark_descriptor).bind fun max_index =>
    if max_index = -1 then .ok ⟨lines ++ ["absence".toList], 0⟩
    else (access (l.map Prod.fst) max_index.toNat).bind fun to_jpg =>
      match imagePath to_jpg with
      | .ok line => .ok ⟨lines ++ [line], 0⟩
      | .error e => .ok ⟨lines ++ [e.what], 0⟩

def load (fs : FileSystem W) (w : W) (bench : Str) (students : List Str) :
    Printing StdException (List F × List (Str × List F)) :=
  (txtToVector fs w bench).bind fun benchmark_descriptor =>
    (loadStudents fs w students).bind fun l => .pure (benchmark_descriptor, l)

/-- `main` with the search it calls. An exception is reported by the handler of the
function-try-block, whose end counts as `return 0`. -/
def attendanceMain (search : List (List F) → List F → Except BadIndex Int)
    (fs : FileSystem W) (w : W) (argv : List Str) : Except BadIndex Outcome :=
  match argv with
  | _ :: bench :: std_num :: rest =>
    match (load fs w bench (std_num :: rest)).result with
    | .error e => .ok ⟨(load (F := F) fs w bench (std_num :: rest)).lines ++ [e.what], 0⟩
    | .ok (b, l) => reportMatch search (load (F := F) fs w bench (std_num :: rest)).lines b l
  | _ => .ok ⟨[" not enough arguments, please type like this".toList,
      "-> ./check_attendance benchmark_descriptor student_numbers".toList], -1⟩

end Mains

section
variable {W F : Type*} [Zero F] [Add F] [Mul F] [Div F] [CFloat F] [LT F] [DecidableLT F]

def checkAttendance [LE F] [DecidableLE F] (fs : FileSystem W) (w : W) (argv : List Str) :
    Except BadIndex Outcome :=
  attendanceMain (searchMAX (F := F)) fs w argv

def checkAttendance2 (fs : FileSystem W) (w : W) (argv : List Str) : Except BadIndex Outcome :=
  attendanceMain (identificate (F := F)) fs w argv

end

/-! ### The candidates of a run -/

section Candidates
variable {W F : Type*} [CFloat F]

/-- The candidate files in the order of the loops, each with the state of the file system in
which it is opened (a missing student directory is created on the way). -/
def candidates (fs : FileSystem W) : W → List Str → List (W × Str)
  | _, [] => []
  | w, std_num :: rest =>
    let r := getFiles fs w (studentDir ++ std_num ++ "/".toList) dotTxt
    r.2.map (fun p => (r.1, p)) ++ candidates fs r.1 rest

def loadCandidate (fs : FileSystem W) (c : W × Str) : Printing StdException (Str × List F) :=
  (txtToVector fs c.1 c.2).bind fun v => .pure (c.2, v)

/-- Both loops together load the candidates one after the other. -/
theorem loadStudents_eq (fs : FileSystem W) (w : W) (students : List Str) :
    loadStudents fs w students =
      Printing.traverse (loadCandidate (F := F) fs) (candidates fs w students) := by
  induction students generalizing w with
  | nil => rfl
  | cons std_num rest ih =>
    simp only [loadStudents, candidates, Printing.traverse_append, Printing.traverse_map, ih]
    rfl

theorem loadCandidate_ok_iff (fs : FileSystem W) (c : W × Str) (x : Str × List F) :
    (loadCandidate fs c).result = .ok x ↔
      x.1 = c.2 ∧ (txtToVector fs c.1 c.2).result = .ok x.2 := by
  simp only [loadCandidate, Printing.bind_result, Except.bind_eq_ok, Printing.pure_result,
    Except.ok.injEq]
  constructor
  · rintro ⟨v, hv, rfl⟩
    exact ⟨rfl, hv⟩
  · rintro ⟨h1, hv⟩
    exact ⟨x.2, hv, by rw [← h1]⟩

/-- Loading throws exactly when a candidate file is malformed. -/
theorem loadStudents_ok_iff (fs : FileSystem W) (w : W) (students : List Str) :
    (∃ l : List (Str × List F), (loadStudents fs w students).result = .ok l) ↔
      ∀ c ∈ candidates fs w students, ¬ Malformed F fs c.1 c.2 := by
  rw [loadStudents_eq, Printing.traverse_ok_exists_iff]
  refine forall_congr' fun c => imp_congr_right fun _ => ?_
  rw [← txtToVector_ok_iff]
  constructor
  · rintro ⟨x, hx⟩
    exact ⟨x.2, ((loadCandidate_ok_iff fs c x).mp hx).2⟩
  · rintro ⟨v, hv⟩
    exact ⟨(c.2, v), (loadCandidate_ok_iff fs c _).mpr ⟨rfl, hv⟩⟩

/-- What was loaded, candidate by candidate. -/
theorem loadStudents_forall {fs : FileSystem W} {w : W} {students : List Str}
    {l : List (Str × List F)} (h : (loadStudents fs w students).result = .ok l) :
    List.Forall₂ (fun c x => x.1 = c.2 ∧ (txtToVector fs c.1 c.2).result = .ok x.2)
      (candidates fs w students) l := by
  rw [loadStudents_eq, Printing.traverse_result_ok_iff] at h
  exact h.imp fun c x hx => (loadCandidate_ok_iff fs c x).mp hx

theorem loadStudents_error {fs : FileSystem W} {w : W} {students : List Str} {e : StdException}
    (h : (loadStudents fs w students : Printing StdException (List (Str × List F))).result =
      .error e) : e.what = "stof".toList := by
  rw [loadStudents_eq] at h
  generalize candidates fs w students = cs at h
  induction cs generalizing e with
  | nil => cases h
  | cons c cs ih =>
    cases hc : (txtToVector fs c.1 c.2 : Printing StdException (List F)).result with
    | error e' =>
      have hthrow : (loadCandidate fs c : Printing StdException (Str × List F)).result = .error e' := by
        rw [loadCandidate, Printing.bind_of_error hc]
      rw [Printing.traverse, Printing.bind_of_error hthrow] at h
      obtain rfl : e' = e := by simpa using h
      exact txtToVector_error hc
    | ok v =>
      have hgo : (loadCandidate fs c : Printing StdException (Str × List F)).result = .ok (c.2, v) :=
        (loadCandidate_ok_iff fs c _).mpr ⟨rfl, hc⟩
      rw [Printing.traverse, Printing.bind_of_ok hgo] at h
      cases ht : (Printing.traverse (loadCandidate (F := F) fs) cs).result with
      | error e' =>
        rw [Printing.bind_of_error ht] at h
        obtain rfl : e' = e := by simpa using h
        exact ih ht
      | ok xs => simp [Printing.bind_of_ok ht] at h

/-- Each candidate that cannot be opened leaves a line behind; the others leave none. -/
theorem loadStudents_lines {fs : FileSystem W} {w : W} {students : List Str}
    {l : List (Str × List F)} (h : (loadStudents fs w students).result = .ok l) :
    (loadStudents fs w students : Printing StdException (List (Str × List F))).lines =
      (candidates fs w students).flatMap fun c =>
        (txtToVector fs c.1 c.2 : Printing StdException (List F)).lines := by
  have hall := (loadStudents_ok_iff fs w students).mp ⟨l, h⟩
  rw [loadStudents_eq] at h ⊢
  rw [Printing.traverse_lines_of_ok h]
  refine List.flatMap_congr fun c hc => ?_
  obtain ⟨v, hv⟩ := (txtToVector_ok_iff (F := F) fs c.1 c.2).mpr (hall c hc)
  simp [loadCandidate, Printing.bind_of_ok hv]

/-- A candidate's name passes the `.txt` filter. -/
theorem mem_candidates {fs : FileSystem W} {w : W} {students : List Str} {c : W × Str}
    (h : c ∈ candidates fs w students) :
    ∃ dir name, isWanted dotTxt name = true ∧ c.2 = dir ++ name := by
  induction students generalizing w with
  | nil => simp [candidates] at h
  | cons std_num rest ih =>
    simp only [candidates, List.mem_append, List.mem_map] at h
    rcases h with ⟨p, hp, rfl⟩ | h
    · unfold getFiles at hp
      split at hp
      · simp at hp
      · obtain ⟨name, -, hw, hpath⟩ := mem_readdirLoop.mp hp
        exact ⟨_, name, hw, hpath⟩
    · exact ih h

end Candidates
end FaceRecognition
