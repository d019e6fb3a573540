import FaceRecognition.AttendanceRuns

/-! Which image the mains name for a match: the filter of `get_files` and the rewriting of
the path look for `.txt` in different strings, the one in the bare name, the other in the
path with the student argument in it. -/
namespace FaceRecognition
open CppString

section Paths

/-- The rewritten path is the path with its ending replaced exactly when the first `.txt` in it
is the ending. -/
theorem imagePath_stem_iff (stem : Str) :
    imagePath (stem ++ dotTxt) = .ok (stem ++ dotPng) ↔ OnlyAtEnd dotTxt (stem ++ dotTxt) := by
  have hlen : (stem ++ dotTxt).length - dotTxt.length = stem.length := by
    rw [List.length_append]
    omega
  obtain ⟨i, hi, hf⟩ := find?_append_right (w := dotTxt) (n := dotTxt) (i := 0) (by decide) stem
  have hfind : find (stem ++ dotTxt) dotTxt = i := by rw [find, hf, Option.getD_some]
  have hle := find?_add_length_le hf
  rw [OnlyAtEnd, hlen, hf, imagePath, hfind, erase, if_neg (by omega), Except.ok_bind, Except.ok.injEq,
    List.append_left_inj, Option.some.injEq]
  rw [List.length_append] at hle
  have htake : (stem ++ dotTxt).take i = stem.take i := List.take_append_of_le_length (by omega)
  rw [htake, List.take_eq_self_iff]
  omega

/-- Every match prints the path of its descriptor with the ending `.txt` replaced by `.png`, so
different descriptor files never lead to the same line. -/
structure PrintsOwnImage (F : Type*) (paths : List Str) : Prop where
  printed : ∀ (search : List (List F) → List F → Except BadIndex Int) lines b (l : List (Str × List F)),
    l.map Prod.fst = paths → ∀ (i : Nat) path, search (l.map Prod.snd) b = .ok (i : Int) →
      paths[i]? = some path →
        ∃ stem, path = stem ++ dotTxt ∧ reportMatch search lines b l = .ok ⟨lines ++ [stem ++ dotPng], 0⟩
  distinct : ∀ p ∈ paths, ∀ q ∈ paths, imagePath p = imagePath q → p = q

variable {F : Type*} {paths : List Str}

/-- A match at index `i` prints the rewritten path of the `i`-th candidate. -/
theorem reportMatch_eq_imagePath {search : List (List F) → List F → Except BadIndex Int}
    {lines : List Str} {b : List F} {l : List (Str × List F)} {i : Nat} {path line : Str}
    (hi : search (l.map Prod.snd) b = .ok (i : Int)) (hpath : (l.map Prod.fst)[i]? = some path)
    (hline : imagePath path = .ok line) :
    reportMatch search lines b l = .ok ⟨lines ++ [line], 0⟩ := by
  have hl : l.length ≠ 0 := fun h0 => by
    obtain rfl := List.length_eq_zero_iff.mp h0
    simp at hpath
  have haccess : access (l.map Prod.fst) (i : Int).toNat = .ok path := by
    rw [Int.toNat_natCast, access, hpath]
  rw [reportMatch, if_neg hl, hi, Except.ok_bind, if_neg (by omega), haccess, Except.ok_bind, hline]

theorem reportMatch_line {search : List (List F) → List F → Except BadIndex Int}
    {lines : List Str} {b : List F} {l : List (Str × List F)} {i : Nat} {path stem : Str}
    (hi : search (l.map Prod.snd) b = .ok (i : Int)) (hpath : (l.map Prod.fst)[i]? = some path)
    (hcontains : ∃ line, imagePath path = .ok line)
    (h : reportMatch search lines b l = .ok ⟨lines ++ [stem ++ dotPng], 0⟩) :
    imagePath path = .ok (stem ++ dotPng) := by
  obtain ⟨line, hline⟩ := hcontains
  rw [reportMatch_eq_imagePath hi hpath hline, Except.ok.injEq, Outcome.mk.injEq,
    List.append_cancel_left_eq] at h
  rw [hline, (List.cons.inj h.1).1]

theorem printsOwnImage_of_onlyAtEnd (h : ∀ p ∈ paths, OnlyAtEnd dotTxt p) : PrintsOwnImage F paths := by
  have hstem : ∀ p ∈ paths, ∃ stem, p = stem ++ dotTxt ∧ imagePath p = .ok (stem ++ dotPng) := by
    intro p hp
    obtain ⟨stem, rfl, -⟩ := (onlyAtEnd_iff dotTxt p).mp (h p hp)
    exact ⟨stem, rfl, (imagePath_stem_iff stem).mpr (h _ hp)⟩
  constructor
  · rintro search lines b l rfl i path hi hpath
    obtain ⟨stem, hs, himage⟩ := hstem path (List.mem_of_getElem? hpath)
    exact ⟨stem, hs, reportMatch_eq_imagePath hi hpath himage⟩
  · intro p hp q hq hpq
    obtain ⟨s, rfl, hs⟩ := hstem p hp
    obtain ⟨t, rfl, ht⟩ := hstem q hq
    rw [hs, ht, Except.ok.injEq, List.append_left_inj] at hpq
    rw [hpq]

theorem onlyAtEnd_of_printsOwnImage (hcontains : ∀ p ∈ paths, ∃ line, imagePath p = .ok line)
    (h : PrintsOwnImage F paths) : ∀ p ∈ paths, OnlyAtEnd dotTxt p := by
  intro p hp
  obtain ⟨i, hi⟩ := List.mem_iff_getElem?.mp hp
  have hfst : (paths.map fun q => ((q, []) : Str × List F)).map Prod.fst = paths := by
    rw [List.map_map]
    exact List.map_id paths
  obtain ⟨stem, rfl, hreport⟩ := h.printed (fun _ _ => .ok (i : Int)) [] []
    (paths.map fun q => (q, [])) hfst i p rfl hi
  exact (imagePath_stem_iff stem).mp (reportMatch_line rfl (by rw [hfst]; exact hi)
    (hcontains _ hp) hreport)

end Paths

/-! ### Student arguments and file names -/

section Listed
variable {W : Type*}

/-- The student argument and the name of each candidate file. -/
def listedFiles (fs : FileSystem W) : W → List Str → List (Str × Str)
  | _, [] => []
  | w, std_num :: rest =>
    let dir := studentDir ++ std_num ++ "/".toList
    (((fs.opendir w dir).getD []).filter (isWanted dotTxt)).map (fun name => (std_num, name)) ++
      listedFiles fs (getFiles fs w dir dotTxt).1 rest

def listedPath (p : Str × Str) : Str := studentDir ++ p.1 ++ "/".toList ++ p.2

theorem candidates_paths (fs : FileSystem W) (w : W) (students : List Str) :
    (candidates fs w students).map Prod.snd = (listedFiles fs w students).map listedPath := by
  induction students generalizing w with
  | nil => rfl
  | cons std_num rest ih =>
    rw [candidates, listedFiles, List.map_append, List.map_append, ih, List.map_map, List.map_map]
    congr 1
    rw [getFiles]
    cases fs.opendir w (studentDir ++ std_num ++ "/".toList) with
    | none => rfl
    | some names =>
      simp only [Option.getD_some, readdirLoop, List.map_map]
      rfl

theorem studentDir_eq : ∃ root, studentDir = root ++ "/".toList ∧ find? dotTxt root = none :=
  ⟨"/home/wj/work/Im_Here/Web/public/faceImage".toList, rfl, by decide⟩

/-- The first `.txt` of a candidate's path is in the student argument, if that contains one. -/
theorem onlyAtEnd_listedPath (p : Str × Str) :
    OnlyAtEnd dotTxt (listedPath p) ↔ find? dotTxt p.1 = none ∧ OnlyAtEnd dotTxt p.2 := by
  obtain ⟨root, hroot, hnone⟩ := studentDir_eq
  have hw : dotTxt ≠ [] := by decide
  have hc : '/' ∉ dotTxt := by decide
  have hsep : listedPath p = (root ++ '/' :: p.1) ++ '/' :: p.2 := by
    rw [listedPath, hroot]
    simp
  rw [hsep, onlyAtEnd_append_sep hw hc, find?_append_sep hw hc, hnone, Option.none_or,
    Option.map_eq_none_iff]

theorem imagePath_of_mem {fs : FileSystem W} {w : W} {students : List Str} :
    ∀ p ∈ (candidates fs w students).map Prod.snd, ∃ line, imagePath p = .ok line := by
  intro p hp
  obtain ⟨c, hc, rfl⟩ := List.mem_map.mp hp
  exact imagePath_candidate hc

/-- Exactly when every match names the image of its own descriptor. -/
theorem printsOwnImage_iff (F : Type*) (fs : FileSystem W) (w : W) (students : List Str) :
    PrintsOwnImage F ((candidates fs w students).map Prod.snd) ↔
      ∀ p ∈ listedFiles fs w students, find? dotTxt p.1 = none ∧ OnlyAtEnd dotTxt p.2 := by
  have hiff : (∀ path ∈ (candidates fs w students).map Prod.snd, OnlyAtEnd dotTxt path) ↔
      ∀ p ∈ listedFiles fs w students, find? dotTxt p.1 = none ∧ OnlyAtEnd dotTxt p.2 := by
    rw [candidates_paths, List.forall_mem_map]
    exact forall₂_congr fun p _ => onlyAtEnd_listedPath p
  rw [← hiff]
  exact ⟨onlyAtEnd_of_printsOwnImage imagePath_of_mem, printsOwnImage_of_onlyAtEnd⟩

/-- A student directory with a descriptor and a copy of it. -/
def withBackup : FileSystem Unit where
  opendir _ _ := some ["a.txt".toList, "a.txt.bak".toList]
  mkdir w _ := w
  openFile _ _ := none

/-- The copy passes the filter, but its path does not end in `.txt`. -/
theorem backup_prints_other_image :
    ¬ PrintsOwnImage ℝ ((candidates withBackup () ["s".toList]).map Prod.snd) := by
  intro h
  have hlisted : ("s".toList, "a.txt.bak".toList) ∈ listedFiles withBackup () ["s".toList] := by
    decide
  have hmem : listedPath ("s".toList, "a.txt.bak".toList) ∈
      (candidates withBackup () ["s".toList]).map Prod.snd := by
    rw [candidates_paths]
    exact List.mem_map_of_mem hlisted
  have hend := (onlyAtEnd_listedPath _).mp (onlyAtEnd_of_printsOwnImage imagePath_of_mem h _ hmem)
  exact absurd hend.2 (by rw [OnlyAtEnd]; decide)

end Listed

end FaceRecognition
