import FaceRecognition.Calc
import FaceRecognition.Library.GapScan

/-! How `crop` numbers the files it saves: it lists the output directory, parses the
number in every `.png` name, sorts the numbers and takes the first that is missing.
The signed subtraction `temp_int[j]-1` may overflow, which is a failure of its own. -/
namespace FaceRecognition
open CppString

inductive SaveFailure where
  | thrown (e : StdException)
  | intOverflow
  deriving DecidableEq

/-- The text between the last `/` and the first `.png` of the path, with the wrap-around that
the difference of two positions has. -/
def tempName (path : Str) : Except StdException Str :=
  substr path (sizeT ((findLastOf path '/' : Int) + 1))
    (sizeT ((find path dotPng : Int) - findLastOf path '/' - 1))

def fileNumber (path : Str) : Except StdException Int := (tempName path).bind stoi

/-- The loop that fills `temp_int`. -/
def tempInts : List Str → Except StdException (List Int)
  | [] => .ok []
  | path :: rest => (fileNumber path).bind fun n => (tempInts rest).bind fun ns => .ok (n :: ns)

def sorted (ns : List Int) : List Int := ns.mergeSort fun a b => decide (a ≤ b)

/-- The scan for a free number: `j` is a `size_t`, so `temp_int[j]-1` is converted to one. -/
def scanLoop : Nat → List Int → Except SaveFailure Nat
  | j, [] => .ok j
  | j, t :: ts =>
    if t - 1 < intMin then .error .intOverflow
    else if j = sizeT (t - 1) then scanLoop (j + 1) ts
    else .ok j

def saveNumber (temp_dir : List Str) : Except SaveFailure Nat :=
  match tempInts temp_dir with
  | .error e => .error (.thrown e)
  | .ok temp_int => (scanLoop 0 (sorted temp_int)).bind fun j => .ok (j + 1)

/-- `output += to_string(j+1) + ".png";` -/
def numberedPath (output : Str) (k : Nat) : Str := output ++ CppString.toString k ++ dotPng

/-- The path one save writes to; `names` is what `opendir` yields for the output directory. -/
def cropSave (output : Str) (names : Option (List Str)) : Except SaveFailure Str :=
  (saveNumber ((names.map (readdirLoop output dotPng)).getD [])).bind fun k =>
    .ok (numberedPath output k)

/-! ### The scan on sorted numbers -/

theorem sorted_perm (ns : List Int) : (sorted ns).Perm ns := List.mergeSort_perm _ _

theorem sorted_pairwise (ns : List Int) : (sorted ns).Pairwise (· ≤ ·) := by
  have h : (ns.mergeSort fun a b => decide (a ≤ b)).Pairwise fun a b => decide (a ≤ b) = true :=
    List.pairwise_mergeSort
      (by intro a b c; simp only [decide_eq_true_eq]; omega)
      (by intro a b; simp only [Bool.or_eq_true, decide_eq_true_eq]; omega) ns
  simpa [sorted] using h

theorem tempInts_range {paths : List Str} {ns : List Int} (h : tempInts paths = .ok ns) :
    ∀ n ∈ ns, intMin ≤ n ∧ n ≤ intMax := by
  induction paths generalizing ns with
  | nil =>
    cases h
    simp
  | cons path rest ih =>
    simp only [tempInts, fileNumber, Except.bind_eq_ok, Except.ok.injEq] at h
    obtain ⟨n, ⟨name, -, hn⟩, ms, hms, rfl⟩ := h
    intro m hm
    rcases List.mem_cons.mp hm with rfl | hm
    · exact stoi_range hn
    · exact ih hms m hm

/-- On positive numbers the converted comparison is the plain one. -/
theorem scanLoop_of_pos (l : List Int) (j : Nat) (h : ∀ n ∈ l, 1 ≤ n ∧ n ≤ intMax) :
    scanLoop j l = .ok (GapScan.scanFrom j l) := by
  induction l generalizing j with
  | nil => rfl
  | cons t ts ih =>
    obtain ⟨h1, h2⟩ := h t (by simp)
    have hmax : intMax = 2147483647 := rfl
    have hmin : intMin = -2147483648 := rfl
    have hsize : sizeT (t - 1) = (t - 1).toNat := sizeT_of_nonneg (by omega) (by omega)
    rw [scanLoop, GapScan.scanFrom, if_neg (by omega), hsize]
    by_cases ht : t = j + 1
    · rw [if_pos ht, if_pos (by omega)]
      exact ih (j + 1) fun n hn => h n (List.mem_cons_of_mem t hn)
    · rw [if_neg ht, if_neg (by omega)]

/-- A number that is not positive sorts to the front and stops the scan at once, or overflows. -/
theorem scanLoop_of_nonpos {t : Int} {ts : List Int} (h0 : t ≤ 0) (hmin : intMin ≤ t) :
    scanLoop 0 (t :: ts) = if t = intMin then .error .intOverflow else .ok 0 := by
  have hm : intMin = -2147483648 := rfl
  rw [scanLoop]
  by_cases ht : t = intMin
  · rw [if_pos (by omega), if_pos ht]
  · have hsize := sizeT_of_neg (i := t - 1) (by omega) (by omega)
    rw [if_neg (by omega), if_neg ht, if_neg (by omega)]

theorem scanLoop_sorted {l : List Int} (hs : l.Pairwise (· ≤ ·))
    (hr : ∀ n ∈ l, intMin ≤ n ∧ n ≤ intMax) :
    scanLoop 0 l = if intMin ∈ l then .error .intOverflow else .ok (GapScan.scanFrom 0 l) := by
  cases l with
  | nil => simp [scanLoop, GapScan.scanFrom]
  | cons t ts =>
    have hfirst := (List.pairwise_cons.mp hs).1
    have hm : intMin = -2147483648 := rfl
    by_cases h0 : t ≤ 0
    · have hstop : GapScan.scanFrom 0 (t :: ts) = 0 := by
        rw [GapScan.scanFrom, if_neg]
        omega
      rw [scanLoop_of_nonpos h0 (hr t (by simp)).1, hstop]
      by_cases ht : t = intMin
      · rw [if_pos ht, if_pos (by simp [ht])]
      · rw [if_neg ht, if_neg]
        intro hmem
        rcases List.mem_cons.mp hmem with h | h
        · exact ht h.symm
        · have h1 := hfirst _ h
          have h2 := (hr t (by simp)).1
          omega
    · have hpos : ∀ n ∈ t :: ts, 1 ≤ n ∧ n ≤ intMax := by
        intro n hn
        refine ⟨?_, (hr n hn).2⟩
        rcases List.mem_cons.mp hn with rfl | hn
        · omega
        · have h1 := hfirst n hn
          omega
      rw [scanLoop_of_pos _ _ hpos, if_neg]
      intro hmem
      have h1 := (hpos _ hmem).1
      omega

/-- One save in terms of the numbers in the listing. -/
theorem saveNumber_eq {paths : List Str} {ns : List Int} (h : tempInts paths = .ok ns) :
    saveNumber paths = if intMin ∈ ns then .error .intOverflow
      else .ok (GapScan.scanFrom 0 (sorted ns) + 1) := by
  have hp := sorted_perm ns
  have hr : ∀ n ∈ sorted ns, intMin ≤ n ∧ n ≤ intMax := fun n hn =>
    tempInts_range h n (hp.mem_iff.mp hn)
  have hmem : intMin ∈ sorted ns ↔ intMin ∈ ns := hp.mem_iff
  simp only [saveNumber, h, scanLoop_sorted (sorted_pairwise ns) hr, hmem]
  split <;> rfl

theorem saveNumber_ok_iff {paths : List Str} {ns : List Int} (h : tempInts paths = .ok ns) (k : Nat) :
    saveNumber paths = .ok k ↔ intMin ∉ ns ∧ GapScan.Selects ns k := by
  rw [saveNumber_eq h, GapScan.selects_iff_scan (sorted_perm ns) (sorted_pairwise ns)]
  split
  next hmin => simp [hmin]
  next hmin => simp [hmin]

/-! ### What a save can destroy -/

section Save
variable {Mat : Type*}

/-- One complete save on the files that exist, by path: `imwrite` replaces what is there. -/
def saveStep (output : Str) (names : Option (List Str)) (img : Mat) (files : Str → Option Mat) :
    Except SaveFailure Unit × (Str → Option Mat) :=
  match cropSave output names with
  | .error e => (.error e, files)
  | .ok path => (.ok (), Function.update files path (some img))

/-- The save ends in an exception and leaves the files alone, or it writes a path that was
free; no arithmetic overflows. -/
def SavesSafely (output : Str) (names : Option (List Str)) (img : Mat) (files : Str → Option Mat) :
    Prop :=
  (∃ e, saveStep output names img files = (.error (.thrown e), files)) ∨
    ∃ path, files path = none ∧
      saveStep output names img files = (.ok (), Function.update files path (some img))

/-- Where the scan does not stop at a gap, what it picks is free: `1` when a number is not
positive, else the number after the first one that is listed twice. -/
structure OffGapFree (output : Str) (ns : List Int) (files : Str → Option Mat) : Prop where
  inRange : intMin ∉ ns
  nonpositive : ∀ n ∈ ns, n ≤ 0 → files (numberedPath output 1) = none
  repeated : ∀ i, GapScan.FirstRepeat ns i → files (numberedPath output (i + 1)) = none

def GapFree (output : Str) (ns : List Int) (files : Str → Option Mat) : Prop :=
  ∀ k, GapScan.FirstGap ns k → files (numberedPath output k) = none

theorem selects_free_iff (output : Str) (ns : List Int) (files : Str → Option Mat) :
    (intMin ∉ ns ∧ ∀ k, GapScan.Selects ns k → files (numberedPath output k) = none) ↔
      OffGapFree output ns files ∧ GapFree output ns files := by
  constructor
  · intro h
    exact ⟨⟨h.1, fun n hn h0 => h.2 1 (.nonpositive n hn h0), fun i hi => h.2 (i + 1) (.repeated i hi)⟩,
      fun k hk => h.2 k (.gap k hk)⟩
  · intro h
    refine ⟨h.1.inRange, fun k hk => ?_⟩
    cases hk with
    | nonpositive n hn h0 => exact h.1.nonpositive n hn h0
    | gap _ hg => exact h.2 k hg
    | repeated i hr => exact h.1.repeated i hr

/-- If the names parse, the numbers select a free path without overflow. -/
def NumberFree (output : Str) (names : Option (List Str)) (files : Str → Option Mat) : Prop :=
  ∀ ns, tempInts ((names.map (readdirLoop output dotPng)).getD []) = .ok ns →
    OffGapFree output ns files ∧ GapFree output ns files

theorem update_eq_of_some {files : Str → Option Mat} {p q : Str} {img : Mat}
    (h : Function.update files p (some img) = Function.update files q (some img))
    (hq : files q = none) : files p = none ∨ p = q := by
  by_cases hpq : p = q
  · exact .inr hpq
  · have hv := congrFun h q
    rw [Function.update_of_ne (fun h => hpq h.symm), Function.update_self, hq] at hv
    cases hv

theorem numberFree_of_savesSafely {output : Str} {names : Option (List Str)} {img : Mat}
    {files : Str → Option Mat} (h : SavesSafely output names img files) :
    NumberFree output names files := by
  intro ns hns
  refine (selects_free_iff output ns files).mp ?_
  by_cases hmin : intMin ∈ ns
  · have hover : cropSave output names = .error .intOverflow := by
      rw [cropSave, saveNumber_eq hns, if_pos hmin, Except.error_bind]
    rcases h with ⟨e, he⟩ | ⟨path, -, hp⟩
    · simp [saveStep, hover] at he
    · simp [saveStep, hover] at hp
  · refine ⟨hmin, fun k hk => ?_⟩
    have hsave : cropSave output names = .ok (numberedPath output k) := by
      rw [cropSave, (saveNumber_ok_iff hns k).mpr ⟨hmin, hk⟩, Except.ok_bind]
    rcases h with ⟨e, he⟩ | ⟨path, hfree, hp⟩
    · simp [saveStep, hsave] at he
    · simp only [saveStep, hsave, Prod.mk.injEq, true_and] at hp
      rcases update_eq_of_some hp hfree with hnone | hsame
      · exact hnone
      · rwa [hsame]

theorem savesSafely_of_numberFree {output : Str} {names : Option (List Str)} (img : Mat)
    {files : Str → Option Mat} (h : NumberFree output names files) :
    SavesSafely output names img files := by
  cases hns : tempInts ((names.map (readdirLoop output dotPng)).getD []) with
  | error e =>
    refine .inl ⟨e, ?_⟩
    simp [saveStep, cropSave, saveNumber, hns]
  | ok ns =>
    obtain ⟨hmin, hfree⟩ := (selects_free_iff output ns files).mpr (h ns hns)
    have hk := GapScan.selects_scan (sorted_pairwise ns)
    have hk' := hk.perm (sorted_perm ns)
    refine .inr ⟨_, hfree _ hk', ?_⟩
    have hsave : cropSave output names =
        .ok (numberedPath output (GapScan.scanFrom 0 (sorted ns) + 1)) := by
      rw [cropSave, (saveNumber_ok_iff hns _).mpr ⟨hmin, hk'⟩, Except.ok_bind]
    simp [saveStep, hsave]

end Save

end FaceRecognition
