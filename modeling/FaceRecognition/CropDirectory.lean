import FaceRecognition.CropSave
import FaceRecognition.Library.Run
import Mathlib.Data.Set.Card
import Mathlib.Order.Interval.Finset.Nat

/-! The output directory of `crop` over whole histories and under concurrent saves:
a directory whose files are numbered stays numbered, and a save adds the least
number that is not in use. -/
namespace FaceRecognition
open CppString

/-! ### Names and paths -/

/-- An output argument that ends in `/`. A `std::string` is far shorter than the `size_t` range. -/
structure OutDir where
  stem : Str
  bounded : stem.length < 2 ^ 62

def OutDir.text (d : OutDir) : Str := d.stem ++ ['/']

/-- `k.png` with `k` in decimal. -/
def fileName (k : Nat) : Str := CppString.toString k ++ dotPng

theorem numberedPath_eq (output : Str) (k : Nat) :
    numberedPath output k = output ++ fileName k := by
  rw [numberedPath, fileName, List.append_assoc]

theorem dotPng_eq : dotPng = '.' :: "png".toList := rfl

theorem fileName_injective {k l : Nat} (h : fileName k = fileName l) : k = l :=
  toString_injective (List.append_cancel_right h)

theorem not_mem_toString {c : Char} (hc : c.isDigit = false) (k : Nat) :
    c ∉ CppString.toString k := by
  intro h
  rw [toString_isDigit h] at hc
  cases hc

theorem slash_not_mem_fileName (k : Nat) : '/' ∉ fileName k := by
  rw [fileName, List.mem_append, not_or]
  exact ⟨not_mem_toString (by decide) k, by decide⟩

theorem toString_length_le {k : Nat} (hk : k ≤ 2 ^ 31) : (CppString.toString k).length ≤ 10 := by
  refine (Nat.length_toDigits_le_iff (by decide) (by decide)).mpr ?_
  omega

theorem find?_fileName (k : Nat) : find? dotPng (fileName k) = some (CppString.toString k).length := by
  have h := find?_append_of_not_mem (w := "png".toList) (not_mem_toString (c := '.') (by decide) k) []
  simpa [fileName, dotPng_eq] using h

theorem isWanted_fileName {k : Nat} (hk : k ≤ 2 ^ 31) : isWanted dotPng (fileName k) = true := by
  have hpos : 0 < (CppString.toString k).length := Nat.length_toDigits_pos
  have hlen := toString_length_le hk
  have hfind : find (fileName k) dotPng = (CppString.toString k).length := by
    rw [find, find?_fileName, Option.getD_some]
  rw [isWanted, hfind, castInt_of_lt (by omega), decide_eq_true_eq]
  omega

theorem head_dotPng : ∀ c ∈ dotPng.head?, c.isDigit = false := by
  have hhead : dotPng.head? = some '.' := rfl
  intro c hc
  rw [hhead] at hc
  cases hc
  rfl

/-- Whatever the directory is called, the text cut out of the path of `k.png` starts with the
digits of `k`: either `.png` is found behind them, or it is found inside the directory name,
and then the length wraps around and the cut takes the whole name. -/
theorem tempName_fileName (d : OutDir) {k : Nat} (hk : k ≤ 2 ^ 31) :
    ∃ tail, tempName (d.text ++ fileName k) = .ok (CppString.toString k ++ tail) ∧
      ∀ c ∈ tail.head?, c.isDigit = false := by
  have hb := d.bounded
  have hlen := toString_length_le hk
  have hpath : d.text ++ fileName k = d.stem ++ '/' :: fileName k := by
    simp [OutDir.text]
  have hslash : findLastOf (d.stem ++ '/' :: fileName k) '/' = d.stem.length := by
    rw [findLastOf, findLast?_append '/' d.stem _ (slash_not_mem_fileName k), Option.getD_some]
  have hpos : sizeT (((d.stem.length : Nat) : Int) + 1) = d.stem.length + 1 := by
    exact_mod_cast sizeT_natCast (n := d.stem.length + 1) (by omega)
  have hdrop : (d.stem ++ '/' :: fileName k).drop (d.stem.length + 1) = fileName k := by
    rw [← List.drop_drop, List.drop_left]
    rfl
  rw [hpath, tempName, hslash, hpos, substr, if_neg (by simp), hdrop]
  have hfind := find?_append_sep (w := dotPng) (c := '/') (by decide) (by decide) d.stem (fileName k)
  cases hf : find? dotPng d.stem with
  | some i =>
    have hi := ((find?_some_iff dotPng d.stem i).mp hf).1
    have hval : find (d.stem ++ '/' :: fileName k) dotPng = i := by
      rw [find, hfind, hf, Option.some_or, Option.getD_some]
    have hwrap := sizeT_of_neg (i := (i : Int) - d.stem.length - 1) (by omega) (by omega)
    have hall : (fileName k).length ≤ sizeT ((i : Int) - d.stem.length - 1) := by
      have hname : (fileName k).length = (CppString.toString k).length + 4 := by
        rw [fileName, List.length_append, show dotPng.length = 4 by decide]
      omega
    rw [hval, List.take_of_length_le hall]
    exact ⟨dotPng, rfl, head_dotPng⟩
  | none =>
    have hval : find (d.stem ++ '/' :: fileName k) dotPng =
        (CppString.toString k).length + (d.stem.length + 1) := by
      rw [find, hfind, hf, find?_fileName, Option.map_some, Option.none_or, Option.getD_some]
    have hcount : sizeT ((((CppString.toString k).length + (d.stem.length + 1) : Nat) : Int) -
        d.stem.length - 1) = (CppString.toString k).length := by
      have hsub : (((CppString.toString k).length + (d.stem.length + 1) : Nat) : Int) -
          d.stem.length - 1 = (CppString.toString k).length := by omega
      rw [hsub, sizeT_natCast (by omega)]
    refine ⟨[], ?_, by simp⟩
    rw [hval, hcount, fileName, List.take_left, List.append_nil]

theorem fileNumber_fileName (d : OutDir) {k : Nat} (hk : k < 2 ^ 31) :
    fileNumber (d.text ++ fileName k) = .ok (k : Int) := by
  obtain ⟨tail, ht, hd⟩ := tempName_fileName d (Nat.le_of_lt hk)
  rw [fileNumber, ht, Except.ok_bind, stoi_toString k tail hk hd]

/-- The first number that no longer fits an `int` makes `stoi` throw. -/
theorem fileNumber_big (d : OutDir) :
    fileNumber (d.text ++ fileName (2 ^ 31)) = .error (.outOfRange "stoi".toList) := by
  obtain ⟨tail, ht, hd⟩ := tempName_fileName d (Nat.le_refl (2 ^ 31))
  rw [fileNumber, ht, Except.ok_bind, stoi_toString_big (2 ^ 31) tail (Nat.le_refl _) hd]

/-! ### Numbered directories -/

/-- What a directory holds, by name. -/
abbrev Directory (Mat : Type*) := Str → Option Mat

/-- The entries in some order in which `readdir` may list them. -/
def Lists {Mat : Type*} (names : List Str) (files : Directory Mat) : Prop :=
  names.Nodup ∧ ∀ n, n ∈ names ↔ n = ".".toList ∨ n = "..".toList ∨ files n ≠ none

/-- The files are exactly the `k.png` with `k` in `s`. -/
def Numbered {Mat : Type*} (files : Directory Mat) (s : Set Nat) : Prop :=
  ∀ name, files name ≠ none ↔ ∃ k ∈ s, name = fileName k

/-- `imwrite` of a path in the directory: creates the file or replaces it. -/
def imwriteIn {Mat : Type*} (d : OutDir) (path : Str) (img : Mat) (files : Directory Mat) :
    Directory Mat :=
  if d.text.isPrefixOf path then Function.update files (path.drop d.text.length) (some img)
  else files

section Numbered
variable {Mat : Type*} {files : Directory Mat} {s : Set Nat} {names : List Str} {d : OutDir}

theorem imwriteIn_append (d : OutDir) (name : Str) (img : Mat) (files : Directory Mat) :
    imwriteIn d (d.text ++ name) img files = Function.update files name (some img) := by
  have hp : d.text.isPrefixOf (d.text ++ name) = true :=
    List.isPrefixOf_iff_prefix.mpr (List.prefix_append _ _)
  rw [imwriteIn, if_pos hp, List.drop_left]

theorem Numbered.mem_iff (h : Numbered files s) (k : Nat) : files (fileName k) ≠ none ↔ k ∈ s := by
  rw [h]
  constructor
  · rintro ⟨l, hl, he⟩
    rwa [fileName_injective he]
  · exact fun hk => ⟨k, hk, rfl⟩

theorem Numbered.insert (h : Numbered files s) (k : Nat) (img : Mat) :
    Numbered (Function.update files (fileName k) (some img)) (insert k s) := by
  intro name
  by_cases hn : name = fileName k
  · rw [hn, Function.update_self]
    exact ⟨fun _ => ⟨k, Set.mem_insert k s, rfl⟩, fun _ => by simp⟩
  · rw [Function.update_of_ne hn, h]
    constructor
    · rintro ⟨l, hl, he⟩
      exact ⟨l, Set.mem_insert_of_mem k hl, he⟩
    · rintro ⟨l, hl, he⟩
      rcases Set.mem_insert_iff.mp hl with rfl | hl
      · exact absurd he hn
      · exact ⟨l, hl, he⟩

theorem Numbered.erase (h : Numbered files s) (k : Nat) :
    Numbered (Function.update files (fileName k) none) (s \ {k}) := by
  intro name
  by_cases hn : name = fileName k
  · rw [hn, Function.update_self]
    refine ⟨fun hf => absurd rfl hf, ?_⟩
    rintro ⟨l, ⟨-, hlk⟩, he⟩
    exact absurd (fileName_injective he).symm hlk
  · rw [Function.update_of_ne hn, h]
    constructor
    · rintro ⟨l, hl, he⟩
      refine ⟨l, ⟨hl, ?_⟩, he⟩
      rintro rfl
      exact hn he
    · rintro ⟨l, ⟨hl, -⟩, he⟩
      exact ⟨l, hl, he⟩

/-- A list of file names is a list of numbers. -/
theorem exists_map_fileName {l : List Str} (h : ∀ n ∈ l, ∃ k ∈ s, n = fileName k) :
    ∃ ks : List Nat, l = ks.map fileName ∧ ∀ k ∈ ks, k ∈ s := by
  induction l with
  | nil => exact ⟨[], rfl, by simp⟩
  | cons n l ih =>
    obtain ⟨k, hk, rfl⟩ := h n (by simp)
    obtain ⟨ks, rfl, hks⟩ := ih fun n hn => h n (List.mem_cons_of_mem _ hn)
    refine ⟨k :: ks, rfl, fun j hj => ?_⟩
    rcases List.mem_cons.mp hj with rfl | hj
    · exact hk
    · exact hks j hj

/-- What `get_files` returns on a numbered directory: each number once, in some order. -/
theorem readdirLoop_numbered (h : Numbered files s) (hsmall : ∀ k ∈ s, k < 2 ^ 31)
    (hl : Lists names files) :
    ∃ ks : List Nat, readdirLoop d.text dotPng names = ks.map (fun k => d.text ++ fileName k) ∧
      ks.Nodup ∧ ∀ k, k ∈ ks ↔ k ∈ s := by
  have hmem : ∀ n, n ∈ names.filter (isWanted dotPng) ↔ files n ≠ none := by
    intro n
    rw [List.mem_filter, hl.2]
    constructor
    · rintro ⟨rfl | rfl | hn, hw⟩
      · exact absurd hw (by decide)
      · exact absurd hw (by decide)
      · exact hn
    · intro hn
      obtain ⟨k, hk, rfl⟩ := (h n).mp hn
      exact ⟨.inr (.inr hn), isWanted_fileName (Nat.le_of_lt (hsmall k hk))⟩
  obtain ⟨ks, hks, hin⟩ := exists_map_fileName (l := names.filter (isWanted dotPng))
    fun n hn => (h n).mp ((hmem n).mp hn)
  refine ⟨ks, ?_, ?_, fun k => ⟨hin k, fun hk => ?_⟩⟩
  · rw [readdirLoop, hks, List.map_map]
    rfl
  · have hnd : (ks.map fileName).Nodup := hks ▸ hl.1.filter _
    exact hnd.of_map
  · have hn := (hmem (fileName k)).mpr ((h.mem_iff k).mpr hk)
    rw [hks] at hn
    obtain ⟨l, hl', he⟩ := List.mem_map.mp hn
    rwa [← fileName_injective he]

theorem tempInts_fileNames (d : OutDir) {ks : List Nat} (hsmall : ∀ k ∈ ks, k < 2 ^ 31) :
    tempInts (ks.map fun k => d.text ++ fileName k) = .ok (ks.map fun k : Nat => (k : Int)) := by
  induction ks with
  | nil => rfl
  | cons k ks ih =>
    rw [List.map_cons, tempInts, fileNumber_fileName d (hsmall k (by simp)), Except.ok_bind,
      ih fun j hj => hsmall j (List.mem_cons_of_mem k hj), Except.ok_bind, List.map_cons]

/-- A save on a numbered directory picks the least positive number that is not in use. -/
theorem cropSave_numbered (d : OutDir) (h : Numbered files s) (hpos : ∀ k ∈ s, 1 ≤ k)
    (hsmall : ∀ k ∈ s, k < 2 ^ 31) (hl : Lists names files) :
    ∃ k, IsLeast {m | 1 ≤ m ∧ m ∉ s} k ∧
      cropSave d.text (some names) = .ok (d.text ++ fileName k) := by
  obtain ⟨ks, hpaths, hnd, hmem⟩ := readdirLoop_numbered (d := d) h hsmall hl
  have hns : tempInts (readdirLoop d.text dotPng names) = .ok (ks.map fun k : Nat => (k : Int)) := by
    rw [hpaths]
    exact tempInts_fileNames d fun k hk => hsmall k ((hmem k).mp hk)
  have hpos' : ∀ n ∈ ks.map (fun k : Nat => (k : Int)), (1 : Int) ≤ n := by
    intro n hn
    obtain ⟨k, hk, rfl⟩ := List.mem_map.mp hn
    exact_mod_cast hpos k ((hmem k).mp hk)
  have hmin : intMin ∉ ks.map (fun k : Nat => (k : Int)) := by
    intro hm
    exact absurd (hpos' _ hm) (by decide)
  have hsel := (GapScan.selects_scan (sorted_pairwise _)).perm (sorted_perm (ks.map fun k : Nat => (k : Int)))
  have hleast := hsel.isLeast hpos' (hnd.map Nat.cast_injective)
  have hset : {m : Nat | 1 ≤ m ∧ (m : Int) ∉ ks.map fun k : Nat => (k : Int)} = {m | 1 ≤ m ∧ m ∉ s} := by
    ext m
    simp [hmem]
  refine ⟨_, hset ▸ hleast, ?_⟩
  rw [cropSave, Option.map_some, Option.getD_some, (saveNumber_ok_iff hns _).mpr ⟨hmin, hsel⟩,
    Except.ok_bind, numberedPath_eq]

theorem tempInts_ok_mem {paths : List Str} {ns : List Int} (h : tempInts paths = .ok ns) :
    ∀ p ∈ paths, ∃ n ∈ ns, fileNumber p = .ok n := by
  induction paths generalizing ns with
  | nil => simp
  | cons path rest ih =>
    simp only [tempInts, Except.bind_eq_ok, Except.ok.injEq] at h
    obtain ⟨n, hn, ms, hms, rfl⟩ := h
    intro p hp
    rcases List.mem_cons.mp hp with rfl | hp
    · exact ⟨n, by simp, hn⟩
    · obtain ⟨m, hm, he⟩ := ih hms p hp
      exact ⟨m, List.mem_cons_of_mem n hm, he⟩

/-- Once `2147483648.png` is listed the numbers do not parse. -/
theorem tempInts_big (d : OutDir) (hbig : fileName (2 ^ 31) ∈ names) (ns : List Int) :
    tempInts (readdirLoop d.text dotPng names) ≠ .ok ns := by
  intro hns
  have hmem : d.text ++ fileName (2 ^ 31) ∈ readdirLoop d.text dotPng names :=
    mem_readdirLoop.mpr ⟨_, hbig, isWanted_fileName (Nat.le_refl _), rfl⟩
  obtain ⟨n, -, hn⟩ := tempInts_ok_mem hns _ hmem
  rw [fileNumber_big d] at hn
  cases hn

/-- Once `2147483648.png` exists every further save throws. -/
theorem cropSave_big (d : OutDir) (hbig : files (fileName (2 ^ 31)) ≠ none)
    (hl : Lists names files) : ∃ e, cropSave d.text (some names) = .error (.thrown e) := by
  cases hns : tempInts (readdirLoop d.text dotPng names) with
  | error e => exact ⟨e, by simp [cropSave, saveNumber, hns]⟩
  | ok ns => exact absurd hns (tempInts_big d ((hl.2 _).mpr (.inr (.inr hbig))) ns)

end Numbered

/-! ### Saves that destroy nothing -/

section Safe
variable {Mat : Type*} {d : OutDir} {names : Option (List Str)} {files : Str → Option Mat}

/-- The listing shows every file whose path is in the directory. -/
def ListsAll (d : OutDir) (names : Option (List Str)) (files : Str → Option Mat) : Prop :=
  ∀ name, '/' ∉ name → files (d.text ++ name) ≠ none → name ∈ names.getD []

/-- A gap in the numbers of a complete listing is a free path, as every existing `k.png` is read
back as `k`. -/
theorem gapFree_of_listsAll (hl : ListsAll d names files) {ns : List Int}
    (hns : tempInts ((names.map (readdirLoop d.text dotPng)).getD []) = .ok ns) :
    GapFree d.text ns files := by
  intro k hk
  by_contra hfile
  rw [numberedPath_eq] at hfile
  have hlisted := hl (fileName k) (slash_not_mem_fileName k) hfile
  cases names with
  | none => simp at hlisted
  | some names =>
    rw [Option.map_some, Option.getD_some] at hns
    rw [Option.getD_some] at hlisted
    rcases Nat.lt_trichotomy k (2 ^ 31) with hlt | rfl | hgt
    · have hpath : d.text ++ fileName k ∈ readdirLoop d.text dotPng names :=
        mem_readdirLoop.mpr ⟨_, hlisted, isWanted_fileName hlt.le, rfl⟩
      obtain ⟨n, hn, hnum⟩ := tempInts_ok_mem hns _ hpath
      rw [fileNumber_fileName d hlt, Except.ok.injEq] at hnum
      exact List.count_eq_zero.mp hk.absent (hnum ▸ hn)
    · exact tempInts_big d hlisted ns hns
    · -- a gap this high needs the number 2^31 in the listing, which is no `int`
      have hone := hk.once (2 ^ 31) (by omega) hgt
      have hmem := List.count_pos_iff.mp (by omega : 0 < ns.count (((2 ^ 31 : Nat)) : Int))
      have hrange := (tempInts_range hns _ hmem).2
      exact absurd hrange (by decide)

/-- Exactly when a save is harmless, whatever the output argument and the existing files; a gap
can be taken only where the output argument does not name the directory that is written to. -/
theorem savesSafely_iff (img : Mat) (files : Str → Option Mat) :
    (∀ output names, SavesSafely output names img files ↔
      ∀ ns, tempInts ((names.map (readdirLoop output dotPng)).getD []) = .ok ns →
        OffGapFree output ns files ∧ GapFree output ns files) ∧
    (∀ d names, ListsAll d names files → (SavesSafely d.text names img files ↔
      ∀ ns, tempInts ((names.map (readdirLoop d.text dotPng)).getD []) = .ok ns →
        OffGapFree d.text ns files)) := by
  refine ⟨fun output names => ⟨numberFree_of_savesSafely, savesSafely_of_numberFree img⟩,
    fun d names hl => ⟨fun h ns hns => (numberFree_of_savesSafely h ns hns).1, fun h => ?_⟩⟩
  exact savesSafely_of_numberFree img fun ns hns => ⟨h ns hns, gapFree_of_listsAll hl hns⟩

/-- The directory `out/` holds `0.png` and `1.png`: the save overwrites `1.png`. -/
theorem zero_file_destroys : ¬ SavesSafely "out/".toList
    (some [".".toList, "..".toList, "0.png".toList, "1.png".toList]) ()
    (fun path => if path ∈ ["out/0.png".toList, "out/1.png".toList] then some () else none) := by
  intro h
  have hns : tempInts ((some [".".toList, "..".toList, "0.png".toList, "1.png".toList]).map
      (readdirLoop "out/".toList dotPng) |>.getD []) = .ok [0, 1] := by decide
  have hfree := (numberFree_of_savesSafely h _ hns).1.nonpositive 0 (by simp) (by simp)
  exact absurd hfree (by decide)

end Safe

/-! ### Histories of saves and deletions -/

section History
variable {Mat : Type*}

inductive DirAction (Mat : Type*) where
  | save (names : List Str) (img : Mat)
  | delete (name : Str)

def DirAction.isSave : DirAction Mat → Bool
  | .save _ _ => true
  | .delete _ => false

/-- One complete save, on a listing in some order, or the deletion of a file by someone else. -/
def DirStep (d : OutDir) (files : Directory Mat) : DirAction Mat → Directory Mat → Prop
  | .save names img, files' => Lists names files ∧
      files' = match cropSave d.text (some names) with
        | .ok path => imwriteIn d path img files
        | .error _ => files
  | .delete name, files' => files name ≠ none ∧ files' = Function.update files name none

/-- Every number in use fits an `int`. -/
def SmallNumbers (files : Directory Mat) : Prop := ∀ k, files (fileName k) ≠ none → k < 2 ^ 31

/-- A step of a history in which the numbers stay below 2^31. -/
def SmallStep (d : OutDir) (files : Directory Mat) (a : DirAction Mat) (files' : Directory Mat) :
    Prop :=
  DirStep d files a files' ∧ SmallNumbers files'

structure Tidy (files : Directory Mat) : Prop where
  numbered : ∃ s, Numbered files s ∧ ∀ k ∈ s, 1 ≤ k
  small : SmallNumbers files

theorem tidy_empty : Tidy (fun _ => none : Directory Mat) where
  numbered := ⟨∅, by simp [Numbered], by simp⟩
  small := by simp [SmallNumbers]

/-- A save in a numbered directory adds the file with the least free number and nothing else. -/
theorem save_iff (d : OutDir) {files : Directory Mat} {s : Set Nat} (h : Numbered files s)
    (hpos : ∀ k ∈ s, 1 ≤ k) (hsmall : SmallNumbers files) {names : List Str}
    (hl : Lists names files) :
    ∃ k, IsLeast {m | 1 ≤ m ∧ m ∉ s} k ∧ ∀ img files',
      DirStep d files (.save names img) files' ↔
        files' = Function.update files (fileName k) (some img) := by
  obtain ⟨k, hk, hsave⟩ := cropSave_numbered d h hpos
    (fun k hk => hsmall k ((h.mem_iff k).mpr hk)) hl
  refine ⟨k, hk, fun img files' => ?_⟩
  simp only [DirStep, hsave, imwriteIn_append, hl, true_and]

theorem tidy_step (d : OutDir) {files files' : Directory Mat} {a : DirAction Mat}
    (h : Tidy files) (hs : SmallStep d files a files') : Tidy files' := by
  obtain ⟨s, hn, hpos⟩ := h.numbered
  refine ⟨?_, hs.2⟩
  cases a with
  | save names img =>
    obtain ⟨k, hk, hiff⟩ := save_iff d hn hpos h.small hs.1.1
    rw [(hiff img files').mp hs.1]
    refine ⟨insert k s, hn.insert k img, fun j hj => ?_⟩
    rcases Set.mem_insert_iff.mp hj with rfl | hj
    · exact hk.1.1
    · exact hpos j hj
  | delete name =>
    obtain ⟨hname, rfl⟩ := hs.1
    obtain ⟨k, -, rfl⟩ := (hn name).mp hname
    exact ⟨s \ {k}, hn.erase k, fun j hj => hpos j hj.1⟩

/-- The least number above `1 .. n` is `n + 1`. -/
theorem isLeast_above_Icc {n k : Nat} (h : IsLeast {m | 1 ≤ m ∧ m ∉ Set.Icc 1 n} k) : k = n + 1 := by
  have h1 : n + 1 ∈ {m | 1 ≤ m ∧ m ∉ Set.Icc 1 n} := by simp
  have hle := h.2 h1
  have hk := h.1.2
  have hk1 := h.1.1
  simp only [Set.mem_Icc, not_and, not_le] at hk
  have := hk hk1
  omega

theorem insert_Icc (n : Nat) : insert (n + 1) (Set.Icc 1 n) = Set.Icc 1 (n + 1) := by
  ext m
  simp only [Set.mem_insert_iff, Set.mem_Icc]
  omega

theorem count_step (d : OutDir) {files files' : Directory Mat} {a : DirAction Mat} {n : Nat}
    (h : Numbered files (Set.Icc 1 n) ∧ SmallNumbers files)
    (hs : SmallStep d files a files') (ha : a.isSave = true) :
    Numbered files' (Set.Icc 1 (n + 1)) ∧ SmallNumbers files' := by
  refine ⟨?_, hs.2⟩
  cases a with
  | delete name => cases ha
  | save names img =>
    obtain ⟨k, hk, hiff⟩ := save_iff d h.1 (fun k hk => hk.1) h.2 hs.1.1
    rw [(hiff img files').mp hs.1, isLeast_above_Icc hk, ← insert_Icc]
    exact h.1.insert (n + 1) img

/-- Every history from the empty directory: the files are distinct `k.png`, every save adds
the least number not in use, and saves alone leave `1.png` to `n.png`. -/
theorem directory_history (d : OutDir) (acts : List (DirAction Mat)) (files : Directory Mat)
    (hrun : Run (SmallStep d) (fun _ => none) acts files) :
    (∀ name, files name ≠ none → ∃ k, 1 ≤ k ∧ name = fileName k) ∧
    (∀ names, Lists names files → ∃ k, IsLeast {m | 1 ≤ m ∧ files (fileName m) = none} k ∧
      ∀ img files', DirStep d files (.save names img) files' ↔
        files' = Function.update files (fileName k) (some img)) ∧
    ((∀ a ∈ acts, a.isSave = true) → ∀ name, files name ≠ none ↔
      ∃ k, (1 ≤ k ∧ k ≤ acts.length) ∧ name = fileName k) := by
  have htidy : Tidy files := hrun.invariant (fun _ _ _ h hs => tidy_step d h hs) tidy_empty
  obtain ⟨s, hn, hpos⟩ := htidy.numbered
  refine ⟨fun name hname => ?_, fun names hl => ?_, fun hsaves => ?_⟩
  · obtain ⟨k, hk, he⟩ := (hn name).mp hname
    exact ⟨k, hpos k hk, he⟩
  · have hset : {m | 1 ≤ m ∧ files (fileName m) = none} = {m | 1 ≤ m ∧ m ∉ s} := by
      ext m
      simp [← hn.mem_iff m]
    rw [hset]
    exact save_iff d hn hpos htidy.small hl
  · have hcount := (hrun.restrict hsaves).counted (p := DirAction.isSave)
      (I := fun n files => Numbered files (Set.Icc 1 n) ∧ SmallNumbers files)
      (fun n f a f' h hs => by rw [if_pos hs.2]; exact count_step d h hs.1 hs.2)
      (n := 0) ⟨by simp [Numbered], tidy_empty.small⟩
    rw [List.countP_eq_length.mpr hsaves, Nat.zero_add] at hcount
    exact hcount.1

/-! ### Histories from the empty directory -/

theorem lists_of_numbered {files : Directory Mat} {s : Set Nat} {names : List Str}
    (h : Numbered files s) (hnodup : names.Nodup)
    (hmem : ∀ n, n ∈ names ↔ n = ".".toList ∨ n = "..".toList ∨ ∃ k ∈ s, n = fileName k) :
    Lists names files :=
  ⟨hnodup, fun n => (hmem n).trans (or_congr_right (or_congr_right (h n).symm))⟩

theorem numbered_empty : Numbered (fun _ => none : Directory Mat) (Set.Icc 1 0) := by
  simp [Numbered]

def emptyListing : List Str := [".".toList, "..".toList]

theorem lists_empty : Lists emptyListing (fun _ => none : Directory Mat) := by
  refine ⟨by decide, fun n => ?_⟩
  simp [emptyListing]

theorem smallStep_save {d : OutDir} {files : Directory Mat} {s : Set Nat} {names : List Str} {k : Nat}
    (h : Numbered files s) (hs : ∀ j ∈ s, 1 ≤ j ∧ j < 2 ^ 31) (hk : k < 2 ^ 31)
    (hleast : IsLeast {m | 1 ≤ m ∧ m ∉ s} k) (hl : Lists names files) (img : Mat) :
    SmallStep d files (.save names img) (Function.update files (fileName k) (some img)) := by
  have hsmall : SmallNumbers files := fun j hj => (hs j ((h.mem_iff j).mp hj)).2
  obtain ⟨k', hk', hiff⟩ := save_iff d h (fun j hj => (hs j hj).1) hsmall hl
  obtain rfl := hleast.unique hk'
  refine ⟨(hiff img _).mpr rfl, fun j hj => ?_⟩
  rcases Set.mem_insert_iff.mp (((h.insert k img).mem_iff j).mp hj) with rfl | hj
  · exact hk
  · exact (hs j hj).2

theorem smallStep_delete {d : OutDir} {files : Directory Mat} {s : Set Nat} {k : Nat}
    (h : Numbered files s) (hs : ∀ j ∈ s, 1 ≤ j ∧ j < 2 ^ 31) (hk : k ∈ s) :
    SmallStep d files (.delete (fileName k)) (Function.update files (fileName k) none) :=
  ⟨⟨(h.mem_iff k).mpr hk, rfl⟩, fun j hj => (hs j (((h.erase k).mem_iff j).mp hj).1).2⟩

def plainOut : OutDir := ⟨"out".toList, by decide⟩

/-- A save, a second one and, once `1.png` is deleted, a third one, each on a listing in another
order: the third save takes the number that has become free. -/
def refillHistory : List (DirAction Nat) :=
  [.save emptyListing 10, .save ["..".toList, fileName 1, ".".toList] 20, .delete (fileName 1),
    .save [fileName 2, "..".toList, ".".toList] 30]

theorem run_two_saves : ∃ files, Run (SmallStep plainOut) (fun _ => none) (refillHistory.take 2) files ∧
    Numbered files {2, 1} ∧ files (fileName 2) = some 20 := by
  have hone := numbered_empty.insert 1 10
  have hsets : insert 1 (Set.Icc 1 0) = ({1} : Set Nat) := by simp
  rw [hsets] at hone
  have hfirst := smallStep_save (d := plainOut) numbered_empty (by simp) (by decide) (k := 1)
    ⟨by simp, fun m hm => hm.1⟩ lists_empty 10
  have hlisted : Lists ["..".toList, fileName 1, ".".toList] _ :=
    lists_of_numbered hone (by decide) fun n => by simp; tauto
  have hsecond := smallStep_save (d := plainOut) hone (by simp) (by decide) (k := 2)
    ⟨by simp, fun m hm => by simp at hm; omega⟩ hlisted 20
  exact ⟨_, .cons hfirst (.cons hsecond (.nil _)), hone.insert 2 20, Function.update_self ..⟩

theorem run_refill : ∃ files, Run (SmallStep plainOut) (fun _ => none) refillHistory files ∧
    files (fileName 1) = some 30 ∧ files (fileName 2) = some 20 := by
  obtain ⟨files, hrun, hnum, htwo⟩ := run_two_saves
  have hdelete := smallStep_delete (d := plainOut) hnum (by simp) (k := 1) (by simp)
  have hleft : ({2, 1} \ {1} : Set Nat) = {2} := by simp
  have herased := hnum.erase 1
  rw [hleft] at herased
  have hlisted : Lists [fileName 2, "..".toList, ".".toList] _ :=
    lists_of_numbered herased (by decide) fun n => by simp; tauto
  have hrefill := smallStep_save (d := plainOut) herased (by simp) (by decide) (k := 1)
    ⟨by simp, fun m hm => hm.1⟩ hlisted 30
  refine ⟨_, hrun.append (.cons hdelete (.cons hrefill (.nil _))), Function.update_self .., ?_⟩
  have hne : fileName 2 ≠ fileName 1 := by decide
  rw [Function.update_of_ne hne, Function.update_of_ne hne, htwo]

/-- The two saves leave `1.png` and `2.png`; after the refill both are there again and nothing else
than files `k.png`. -/
theorem directory_history_refill :
    (∃ files, Run (SmallStep plainOut) (fun _ => none) (refillHistory.take 2) files ∧
      ∀ name, files name ≠ none ↔ ∃ k, (1 ≤ k ∧ k ≤ 2) ∧ name = fileName k) ∧
    ∃ files, Run (SmallStep plainOut) (fun _ => none) refillHistory files ∧
      files (fileName 1) = some 30 ∧ files (fileName 2) = some 20 ∧
      (∀ name, files name ≠ none → ∃ k, 1 ≤ k ∧ name = fileName k) ∧
      ∀ names, Lists names files → ∃ k, IsLeast {m | 1 ≤ m ∧ files (fileName m) = none} k ∧
        ∀ img files', DirStep plainOut files (.save names img) files' ↔
          files' = Function.update files (fileName k) (some img) := by
  obtain ⟨saved, hsaves, -⟩ := run_two_saves
  obtain ⟨files, hrun, hone, htwo⟩ := run_refill
  have hhistory := directory_history plainOut refillHistory files hrun
  exact ⟨⟨saved, hsaves, (directory_history plainOut _ saved hsaves).2.2 (by decide)⟩,
    files, hrun, hone, htwo, hhistory.1, hhistory.2.1⟩

end History
end FaceRecognition
