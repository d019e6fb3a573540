import FaceRecognition.Library.CppFloat
import FaceRecognition.Library.Printing
import FaceRecognition.Library.RunningMax

/-! `calc.h`: loading descriptors, comparing them, searching for the best match and
listing the files of a directory. Reads of `std::vector` are not checked in the
source; here a read past the end is an error of its own, `BadIndex`. -/
namespace FaceRecognition
open CppString

/-! ### The operating system -/

/-- What the programs ask of the file system, whatever its state `W` is.
`readdir` is folded into `opendir`: the names of the entries in the order they come. -/
structure FileSystem (W : Type*) where
  opendir : W → Str → Option (List Str)
  mkdir : W → Str → W
  openFile : W → Str → Option Str

variable {W : Type*}

def dotTxt : Str := ".txt".toList
def dotPng : Str := ".png".toList

/-- `(int)file_name.find(want_to_get) > 0`. -/
def isWanted (want name : Str) : Bool := castInt (find name want) > 0

/-- The `readdir` loop of `get_files`. -/
def readdirLoop (dir want : Str) (names : List Str) : List Str :=
  (names.filter (isWanted want)).map (dir ++ ·)

/-- A directory that cannot be opened is created and lists nothing. -/
def getFiles (fs : FileSystem W) (w : W) (dir want : Str) : W × List Str :=
  match fs.opendir w dir with
  | none => (fs.mkdir w dir, [])
  | some names => (w, readdirLoop dir want names)

theorem mem_readdirLoop {dir want path : Str} {names : List Str} :
    path ∈ readdirLoop dir want names ↔
      ∃ name ∈ names, isWanted want name = true ∧ path = dir ++ name := by
  simp only [readdirLoop, List.mem_map, List.mem_filter]
  constructor
  · rintro ⟨name, ⟨hn, hw⟩, rfl⟩
    exact ⟨name, hn, hw, rfl⟩
  · rintro ⟨name, hn, hw, rfl⟩
    exact ⟨name, ⟨hn, hw⟩, rfl⟩

/-- Removing names that are not wanted anyway changes nothing. -/
theorem readdirLoop_filter {dir want : Str} {names : List Str} {keep : Str → Bool}
    (h : ∀ name ∈ names, isWanted want name = true → keep name = true) :
    readdirLoop dir want (names.filter keep) = readdirLoop dir want names := by
  have hfilter : (names.filter keep).filter (isWanted want) = names.filter (isWanted want) := by
    rw [List.filter_filter]
    refine List.filter_congr fun name hn => ?_
    cases hw : isWanted want name with
    | true => simp [h name hn hw]
    | false => simp
  rw [readdirLoop, readdirLoop, hfilter]

/-- A name passes the filter only if it contains the text that is wanted. -/
theorem find?_of_isWanted {want name : Str} (h : isWanted want name = true) :
    ∃ i, find? want name = some i := by
  cases hf : find? want name with
  | some i => exact ⟨i, rfl⟩
  | none =>
    have hn : find name want = npos := by simp [find, hf]
    simp [isWanted, hn, castInt_npos] at h

/-! ### Floats -/

/-- What the code needs of `float` beyond `+`, `*`, `/` and the comparisons. -/
class CFloat (F : Type*) where
  sqrt : F → F
  /-- The start value `-1` of the searches. -/
  negOne : F
  /-- `SIMILARITY`, 0.65. -/
  similarity : F
  ofLiteral : FloatLiteral → Option F

def maxSize : Nat := 4096

/-- A read of `v[index]` where `v.size()` is `size ≤ index`. -/
structure BadIndex where
  index : Nat
  size : Nat
  deriving DecidableEq

/-- `v[i]`. -/
def access {α : Type*} (v : List α) (i : Nat) : Except BadIndex α :=
  match v[i]? with
  | some x => .ok x
  | none => .error ⟨i, v.length⟩

theorem access_of_lt {α : Type*} {v : List α} {i : Nat} (h : i < v.length) :
    access v i = .ok v[i] := by
  simp [access, h]

theorem access_of_ge {α : Type*} {v : List α} {i : Nat} (h : v.length ≤ i) :
    access v i = .error ⟨i, v.length⟩ := by
  simp [access, h]

section Vectors
variable {F : Type*} [Zero F] [Add F] [Mul F] [Div F] [CFloat F]

/-- The lines of the file from here on, `n` of them, each converted by `stof`. -/
def readVector : Nat → Str → Except StdException (List F)
  | 0, _ => .ok []
  | n + 1, in_file =>
    let (str1, rest) := getline in_file
    (stof CFloat.ofLiteral str1).bind fun x => (readVector n rest).bind fun v => .ok (x :: v)

def txtToVector (fs : FileSystem W) (w : W) (path : Str) : Printing StdException (List F) :=
  match fs.openFile w path with
  | some in_file => ⟨[], readVector maxSize in_file⟩
  | none => ⟨["error in txt to vector".toList], .ok []⟩

/-- `a[0]*b[0] + .. + a[n-1]*b[n-1]`, the accumulation loop of `vector_length` (with
`b = a`) and of `vector_inner_product`. -/
def dotLoop (a b : List F) : Nat → Except BadIndex F
  | 0 => .ok 0
  | i + 1 => (dotLoop a b i).bind fun result => (access a i).bind fun x =>
      (access b i).bind fun y => .ok (result + x * y)

def vectorLength (v : List F) : Except BadIndex F :=
  (dotLoop v v maxSize).bind fun distance => .ok (CFloat.sqrt distance)

def vectorInnerProduct (a b : List F) : Except BadIndex F :=
  (dotLoop a b maxSize).bind fun result => (vectorLength a).bind fun la =>
    (vectorLength b).bind fun lb => .ok (result / la / lb)

/-- The loop shared by `search_MAX` and `identificate`; `accept` is the test that
`search_MAX` makes beside `similarity > max`. -/
def searchLoop [LT F] [DecidableLT F] (accept : F → Bool) (bench : List F) :
    List (List F) → Int → F → Int → Except BadIndex Int
  | [], _, _, max_index => .ok max_index
  | d :: ds, i, max, max_index =>
    if d.length = 0 then .ok max_index
    else (vectorInnerProduct bench d).bind fun similarity =>
      if accept similarity = true ∧ max < similarity then searchLoop accept bench ds (i + 1) similarity i
      else searchLoop accept bench ds (i + 1) max max_index

def searchMAX [LT F] [LE F] [DecidableLT F] [DecidableLE F]
    (face_descriptors : List (List F)) (bench_descriptor : List F) : Except BadIndex Int :=
  searchLoop (fun s => decide (CFloat.similarity ≤ s)) bench_descriptor face_descriptors 0 CFloat.negOne (-1)

def identificate [LT F] [DecidableLT F]
    (face_descriptors : List (List F)) (bench_descriptor : List F) : Except BadIndex Int :=
  searchLoop (fun _ => true) bench_descriptor face_descriptors 0 CFloat.negOne (-1)

end Vectors

/-! ### What the loader returns -/

section Loader
variable {F : Type*} [CFloat F]

/-- The `i`-th line that the loader reads; empty from the end of the file on. -/
def lineAt : Nat → Str → Str
  | 0, s => (getline s).1
  | i + 1, s => lineAt i (getline s).2

/-- Each of the 4096 lines the loader reads is a number in the range of the format. -/
def WellFormed (F : Type*) [CFloat F] (content : Str) : Prop :=
  ∀ i < maxSize, ∃ x : F, stof CFloat.ofLiteral (lineAt i content) = .ok x

theorem readVector_ok_iff (n : Nat) (s : Str) :
    (∃ v : List F, readVector n s = .ok v) ↔
      ∀ i < n, ∃ x : F, stof CFloat.ofLiteral (lineAt i s) = .ok x := by
  induction n generalizing s with
  | zero => simp [readVector]
  | succ n ih =>
    simp only [readVector, Except.bind_eq_ok, Except.ok.injEq]
    constructor
    · rintro ⟨_, x, hx, v, hv, -⟩ i hi
      cases i with
      | zero => exact ⟨x, hx⟩
      | succ i => exact (ih _).mp ⟨v, hv⟩ i (by omega)
    · intro h
      obtain ⟨x, hx⟩ := h 0 (by omega)
      obtain ⟨v, hv⟩ := (ih (getline s).2).mpr fun i hi => h (i + 1) (by omega)
      exact ⟨x :: v, x, hx, v, hv, rfl⟩

theorem readVector_length {n : Nat} {s : Str} {v : List F} (h : readVector n s = .ok v) :
    v.length = n := by
  induction n generalizing s v with
  | zero =>
    cases h
    rfl
  | succ n ih =>
    simp only [readVector, Except.bind_eq_ok, Except.ok.injEq] at h
    obtain ⟨x, -, t, ht, rfl⟩ := h
    simp [ih ht]

theorem readVector_error {n : Nat} {s : Str} {e : StdException}
    (h : (readVector n s : Except StdException (List F)) = .error e) : e.what = "stof".toList := by
  induction n generalizing s e with
  | zero => cases h
  | succ n ih =>
    simp only [readVector] at h
    cases hx : (stof CFloat.ofLiteral (getline s).1 : Except StdException F) with
    | error e' =>
      simp only [hx, Except.error_bind, Except.error.injEq] at h
      exact h ▸ stof_error hx
    | ok x =>
      cases hv : (readVector n (getline s).2 : Except StdException (List F)) with
      | error e' =>
        simp only [hx, hv, Except.ok_bind, Except.error_bind, Except.error.injEq] at h
        exact h ▸ ih hv
      | ok v => simp [hx, hv] at h

variable (fs : FileSystem W) (w : W) (path : Str)

/-- The file can be opened and holds a descriptor. -/
def Readable (F : Type*) [CFloat F] (fs : FileSystem W) (w : W) (path : Str) : Prop :=
  ∃ content, fs.openFile w path = some content ∧ WellFormed F content

/-- The file can be opened but one of its lines is not a number. -/
def Malformed (F : Type*) [CFloat F] (fs : FileSystem W) (w : W) (path : Str) : Prop :=
  ∃ content, fs.openFile w path = some content ∧ ¬ WellFormed F content

theorem txtToVector_ok_iff :
    (∃ v : List F, (txtToVector fs w path).result = .ok v) ↔ ¬ Malformed F fs w path := by
  cases h : fs.openFile w path with
  | none => simp [txtToVector, Malformed, h]
  | some content => simp [txtToVector, Malformed, h, WellFormed, ← readVector_ok_iff]

variable {fs w path}

/-- A vector that comes back without an exception is empty or complete. -/
theorem txtToVector_length {v : List F} (h : (txtToVector fs w path).result = .ok v) :
    (fs.openFile w path = none ∧ v = []) ∨ (Readable F fs w path ∧ v.length = maxSize) := by
  cases ho : fs.openFile w path with
  | none =>
    simp only [txtToVector, ho, Except.ok.injEq] at h
    exact .inl ⟨rfl, h.symm⟩
  | some content =>
    simp only [txtToVector, ho] at h
    exact .inr ⟨⟨content, ho, (readVector_ok_iff _ _).mp ⟨v, h⟩⟩, readVector_length h⟩

theorem txtToVector_error {e : StdException}
    (h : (txtToVector fs w path : Printing StdException (List F)).result = .error e) :
    e.what = "stof".toList := by
  cases ho : fs.openFile w path with
  | none => simp [txtToVector, ho] at h
  | some content =>
    simp only [txtToVector, ho] at h
    exact readVector_error h

theorem txtToVector_lines_of_open {content : Str} (h : fs.openFile w path = some content) :
    (txtToVector fs w path : Printing StdException (List F)).lines = [] := by
  simp [txtToVector, h]

theorem txtToVector_lines_of_not_open (h : fs.openFile w path = none) :
    (txtToVector fs w path : Printing StdException (List F)).lines =
      ["error in txt to vector".toList] := by
  simp [txtToVector, h]

end Loader

/-! ### Index safety and values of the comparison -/

section Dot
variable {F : Type*} [Zero F] [Add F] [Mul F]

/-- The value that the accumulation loop computes on vectors that are long enough. -/
def dot (a b : List F) : Nat → F
  | 0 => 0
  | i + 1 => dot a b i + a.getD i 0 * b.getD i 0

theorem dotLoop_eq {a b : List F} {n : Nat} (ha : n ≤ a.length) (hb : n ≤ b.length) :
    dotLoop a b n = .ok (dot a b n) := by
  induction n with
  | zero => rfl
  | succ n ih =>
    have hi := ih (by omega) (by omega)
    have hx : access a n = .ok a[n] := access_of_lt (by omega)
    have hy : access b n = .ok b[n] := access_of_lt (by omega)
    have hxd : a.getD n 0 = a[n] := by simp [show n < a.length by omega]
    have hyd : b.getD n 0 = b[n] := by simp [show n < b.length by omega]
    simp only [dotLoop, dot, hi, hx, hy, hxd, hyd, Except.ok_bind]

/-- The loop stays in range exactly when both vectors are long enough for it. -/
theorem dotLoop_ok_iff (a b : List F) (n : Nat) :
    (∃ x, dotLoop a b n = .ok x) ↔ n ≤ a.length ∧ n ≤ b.length := by
  constructor
  · intro h
    induction n with
    | zero => simp
    | succ n ih =>
      simp only [dotLoop, Except.bind_eq_ok] at h
      obtain ⟨_, r, hr, x, hx, y, hy, -⟩ := h
      have ha : n < a.length := by
        by_contra hge
        simp [access_of_ge (Nat.le_of_not_lt hge)] at hx
      have hb : n < b.length := by
        by_contra hge
        simp [access_of_ge (Nat.le_of_not_lt hge)] at hy
      exact ⟨ha, hb⟩
  · rintro ⟨ha, hb⟩
    exact ⟨dot a b n, dotLoop_eq ha hb⟩

end Dot

section Similarity
variable {F : Type*} [Zero F] [Add F] [Mul F] [Div F] [CFloat F]

/-- The similarity of two complete descriptors. -/
def cosine (a b : List F) : F :=
  dot a b maxSize / CFloat.sqrt (dot a a maxSize) / CFloat.sqrt (dot b b maxSize)

omit [Div F] in
theorem vectorLength_eq {a : List F} (ha : a.length = maxSize) :
    vectorLength a = .ok (CFloat.sqrt (dot a a maxSize)) := by
  rw [vectorLength, dotLoop_eq (Nat.le_of_eq ha.symm) (Nat.le_of_eq ha.symm), Except.ok_bind]

theorem vectorInnerProduct_eq {a b : List F} (ha : a.length = maxSize) (hb : b.length = maxSize) :
    vectorInnerProduct a b = .ok (cosine a b) := by
  rw [vectorInnerProduct, dotLoop_eq (Nat.le_of_eq ha.symm) (Nat.le_of_eq hb.symm), Except.ok_bind,
    vectorLength_eq ha, Except.ok_bind, vectorLength_eq hb, Except.ok_bind, cosine]

theorem vectorInnerProduct_ok {a b : List F} (h : ∃ x, vectorInnerProduct a b = .ok x) :
    maxSize ≤ a.length ∧ maxSize ≤ b.length := by
  obtain ⟨x, hx⟩ := h
  simp only [vectorInnerProduct, Except.bind_eq_ok] at hx
  obtain ⟨r, hr, -⟩ := hx
  exact (dotLoop_ok_iff a b maxSize).mp ⟨r, hr⟩

end Similarity

/-! ### The searches as a running maximum -/

section Search
variable {F : Type*} [Zero F] [Add F] [Mul F] [Div F] [CFloat F] [LT F] [DecidableLT F]

/-- The candidates that the search looks at: those before the first empty one. -/
def searched (ds : List (List F)) : List (List F) := ds.takeWhile fun d => d.length ≠ 0

theorem searchLoop_eq_scan (accept : F → Bool) {bench : List F} (hbench : bench.length = maxSize)
    (ds : List (List F)) (hds : ∀ d ∈ ds, d = [] ∨ d.length = maxSize) (i : Int) (m : F) (best : Int) :
    searchLoop accept bench ds i m best =
      .ok (RunningMax.scan accept i m best ((searched ds).map (cosine bench))) := by
  induction ds generalizing i m best with
  | nil => rfl
  | cons d ds ih =>
    have hrest := ih fun d' hd' => hds d' (List.mem_cons_of_mem d hd')
    by_cases h0 : d.length = 0
    · have hs : searched (d :: ds) = [] := List.takeWhile_cons_of_neg (by simpa using h0)
      rw [searchLoop, if_pos h0, hs]
      rfl
    · have hd : d.length = maxSize := by
        rcases hds d (by simp) with rfl | h
        · simp at h0
        · exact h
      have hs : searched (d :: ds) = d :: searched ds := List.takeWhile_cons_of_pos (by simpa using h0)
      rw [searchLoop, if_neg h0, vectorInnerProduct_eq hbench hd, hs, List.map_cons, RunningMax.scan,
        Except.ok_bind]
      split
      · exact hrest _ _ _
      · exact hrest _ _ _

/-- A search that has no complete benchmark reads out of range on the first candidate. -/
theorem searchLoop_ok {accept : F → Bool} {bench d : List F} {ds : List (List F)} {i : Int} {m : F}
    {best : Int} (h : ∃ r, searchLoop accept bench (d :: ds) i m best = .ok r) (hd : d ≠ []) :
    maxSize ≤ bench.length := by
  obtain ⟨r, hr⟩ := h
  have h0 : ¬ d.length = 0 := by simpa using hd
  rw [searchLoop, if_neg h0, Except.bind_eq_ok] at hr
  obtain ⟨s, hs, -⟩ := hr
  exact (vectorInnerProduct_ok ⟨s, hs⟩).1

end Search

end FaceRecognition
