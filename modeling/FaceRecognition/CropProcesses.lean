import FaceRecognition.CropDirectory
import Mathlib.Data.Set.Card

/-! Several `crop` processes on one output directory. A save is two atomic steps, listing
the directory and writing the file; nothing keeps another process from writing in
between. -/
namespace FaceRecognition
open CppString
variable {ι Mat : Type*} [DecidableEq ι]

/-- The shared directory, the faces each process still has to save, and the path that a
process has computed from its listing but not written yet. -/
structure Processes (ι Mat : Type*) where
  files : Directory Mat
  todo : ι → List Mat
  output : ι → Option Str

inductive Event (ι : Type*) where
  | list (p : ι) (names : List Str)
  | write (p : ι)

def Event.isWrite : Event ι → Bool
  | .list _ _ => false
  | .write _ => true

/-- One atomic step. A listing that throws ends its process. -/
def CropStep (d : OutDir) (s : Processes ι Mat) : Event ι → Processes ι Mat → Prop
  | .list p names, t => s.output p = none ∧ s.todo p ≠ [] ∧ Lists names s.files ∧
      t = match cropSave d.text (some names) with
        | .ok path => { s with output := Function.update s.output p (some path) }
        | .error _ => { s with todo := Function.update s.todo p [] }
  | .write p, t => ∃ path img rest, s.output p = some path ∧ s.todo p = img :: rest ∧
      t = { files := imwriteIn d path img s.files
            todo := Function.update s.todo p rest
            output := Function.update s.output p none }

/-- The step writes a file name that exists. -/
def Hits (d : OutDir) (s : Processes ι Mat) (e : Event ι) : Prop :=
  ∃ p name, e = .write p ∧ s.output p = some (d.text ++ name) ∧ s.files name ≠ none

/-- `1.png` to `m.png` and no save under way. -/
structure Started (m : Nat) (s : Processes ι Mat) : Prop where
  numbered : Numbered s.files (Set.Icc 1 m)
  idle : ∀ p, s.output p = none

/-- Every write is by a process that has listed the directory since the last write of anyone;
`fresh` holds the processes that have listed since. -/
def FreshWrites (fresh : Set ι) : List (Event ι) → Prop
  | [] => True
  | .list p _ :: es => FreshWrites (insert p fresh) es
  | .write p :: es => p ∈ fresh ∧ FreshWrites ∅ es

/-- `1.png` to `c.png` exist, and the number that a process holds is the next free one exactly
when its listing is fresh. -/
structure Pending (d : OutDir) (c : Nat) (fresh : Set ι) (s : Processes ι Mat) : Prop where
  numbered : Numbered s.files (Set.Icc 1 c)
  held : ∀ p path, s.output p = some path →
    ∃ k, path = d.text ++ fileName k ∧ 1 ≤ k ∧ k ≤ c + 1 ∧ (k = c + 1 ↔ p ∈ fresh)

omit [DecidableEq ι] in
theorem pending_of_started {m : Nat} {s : Processes ι Mat} (d : OutDir) (h : Started m s) :
    Pending d m ∅ s where
  numbered := h.numbered
  held p path hp := by
    rw [h.idle p] at hp
    cases hp

/-- What a listing yields on `1.png` to `c.png`: the next number. -/
theorem cropSave_next (d : OutDir) {c : Nat} {files : Directory Mat} {names : List Str}
    (h : Numbered files (Set.Icc 1 c)) (hc : c < 2 ^ 31) (hl : Lists names files) :
    cropSave d.text (some names) = .ok (d.text ++ fileName (c + 1)) := by
  obtain ⟨k, hk, hsave⟩ := cropSave_numbered d h (fun j hj => hj.1)
    (fun j hj => lt_of_le_of_lt hj.2 hc) hl
  rw [hsave, isLeast_above_Icc hk]

/-- Beyond the `int` range the listing ends in an exception. -/
theorem cropSave_Icc (d : OutDir) {c : Nat} {files : Directory Mat} {names : List Str}
    (h : Numbered files (Set.Icc 1 c)) (hl : Lists names files) :
    cropSave d.text (some names) = .ok (d.text ++ fileName (c + 1)) ∨
      ∃ e, cropSave d.text (some names) = .error (.thrown e) := by
  by_cases hc : c < 2 ^ 31
  · exact .inl (cropSave_next d h hc hl)
  · have hbig : files (fileName (2 ^ 31)) ≠ none :=
      (h.mem_iff (2 ^ 31)).mpr ⟨by omega, by omega⟩
    exact .inr (cropSave_big d hbig hl)

theorem pending_list {d : OutDir} {c : Nat} {fresh : Set ι} {s t : Processes ι Mat} {p : ι}
    {names : List Str} (h : Pending d c fresh s) (hs : CropStep d s (.list p names) t) :
    Pending d c (insert p fresh) t := by
  obtain ⟨hidle, -, hl, rfl⟩ := hs
  have hothers : ∀ q path, q ≠ p → s.output q = some path → ∃ k, path = d.text ++ fileName k ∧
      1 ≤ k ∧ k ≤ c + 1 ∧ (k = c + 1 ↔ q ∈ insert p fresh) := by
    intro q path hqp hq
    obtain ⟨k, hpath, h1, hle, hiff⟩ := h.held q path hq
    exact ⟨k, hpath, h1, hle, hiff.trans (by simp [hqp])⟩
  rcases cropSave_Icc d h.numbered hl with hsave | ⟨e, hsave⟩
  · rw [hsave]
    refine ⟨h.numbered, fun q path hq => ?_⟩
    by_cases hqp : q = p
    · subst hqp
      obtain rfl : d.text ++ fileName (c + 1) = path := by simpa using hq
      exact ⟨c + 1, rfl, by omega, by omega, by simp⟩
    · exact hothers q path hqp (by simpa [Function.update_of_ne hqp] using hq)
  · rw [hsave]
    refine ⟨h.numbered, fun q path hq => hothers q path ?_ hq⟩
    rintro rfl
    rw [hidle] at hq
    cases hq

/-- A write on a fresh listing creates the next file. -/
theorem pending_write {d : OutDir} {c : Nat} {fresh : Set ι} {s t : Processes ι Mat} {p : ι}
    (h : Pending d c fresh s) (hs : CropStep d s (.write p) t) (hp : p ∈ fresh) :
    ¬ Hits d s (.write p) ∧ Pending d (c + 1) ∅ t := by
  obtain ⟨path, img, rest, hout, -, rfl⟩ := hs
  obtain ⟨k, rfl, -, -, hiff⟩ := h.held p path hout
  obtain rfl := hiff.mpr hp
  constructor
  · rintro ⟨q, name, hq, hname, hfile⟩
    obtain rfl : p = q := by simpa using hq
    rw [hout, Option.some.injEq, List.append_cancel_left_eq] at hname
    rw [← hname, h.numbered.mem_iff, Set.mem_Icc] at hfile
    omega
  · refine ⟨?_, fun q path hq => ?_⟩
    · change Numbered (imwriteIn d (d.text ++ fileName (c + 1)) img s.files) _
      rw [imwriteIn_append, ← insert_Icc]
      exact h.numbered.insert (c + 1) img
    · by_cases hqp : q = p
      · simp [hqp] at hq
      · obtain ⟨k, hpath, h1, hle, -⟩ := h.held q path (by simpa [Function.update_of_ne hqp] using hq)
        exact ⟨k, hpath, h1, by omega, by simp; omega⟩

omit [DecidableEq ι] in
/-- A write on an older listing hits the file that was written since. -/
theorem hits_of_stale [DecidableEq ι] {d : OutDir} {c : Nat} {fresh : Set ι} {s t : Processes ι Mat}
    {p : ι} (h : Pending d c fresh s) (hs : CropStep d s (.write p) t) (hp : p ∉ fresh) :
    Hits d s (.write p) := by
  obtain ⟨path, img, rest, hout, -, rfl⟩ := hs
  obtain ⟨k, rfl, h1, hle, hiff⟩ := h.held p path hout
  have hne : k ≠ c + 1 := fun hk => hp (hiff.mp hk)
  exact ⟨p, fileName k, rfl, hout, (h.numbered.mem_iff k).mpr ⟨h1, by omega⟩⟩

/-- A step that does not write over an existing file. -/
def CleanStep (d : OutDir) (s : Processes ι Mat) (e : Event ι) (t : Processes ι Mat) : Prop :=
  CropStep d s e t ∧ ¬ Hits d s e

theorem freshWrites_of_clean {d : OutDir} {c : Nat} {fresh : Set ι} {s t : Processes ι Mat}
    {es : List (Event ι)} (hrun : Run (CleanStep d) s es t) (h : Pending d c fresh s) :
    FreshWrites fresh es := by
  induction hrun generalizing c fresh with
  | nil => trivial
  | @cons s t u e es hs _ ih =>
    cases e with
    | list p names => exact ih (pending_list h hs.1)
    | write p =>
      have hp : p ∈ fresh := by
        by_contra hnot
        exact hs.2 (hits_of_stale h hs.1 hnot)
      exact ⟨hp, ih (pending_write h hs.1 hp).2⟩

/-- Fresh writes never hit a file, and each of them adds one. -/
theorem clean_of_freshWrites {d : OutDir} {c : Nat} {fresh : Set ι} {s t : Processes ι Mat}
    {es : List (Event ι)} (hrun : Run (CropStep d) s es t) (h : Pending d c fresh s)
    (hf : FreshWrites fresh es) :
    Run (CleanStep d) s es t ∧ Numbered t.files (Set.Icc 1 (c + es.countP Event.isWrite)) := by
  induction hrun generalizing c fresh with
  | nil s => exact ⟨.nil s, by simpa using h.numbered⟩
  | @cons s t u e es hs _ ih =>
    cases e with
    | list p names =>
      obtain ⟨hclean, hnum⟩ := ih (pending_list h hs) hf
      refine ⟨.cons ⟨hs, ?_⟩ hclean, by simpa [List.countP_cons, Event.isWrite] using hnum⟩
      rintro ⟨q, name, he, -⟩
      cases he
    | write p =>
      obtain ⟨hp, hf⟩ := hf
      obtain ⟨hnot, hpend⟩ := pending_write h hs hp
      obtain ⟨hclean, hnum⟩ := ih hpend hf
      refine ⟨.cons ⟨hs, hnot⟩ hclean, ?_⟩
      have hcount : c + (Event.write p :: es).countP Event.isWrite =
          c + 1 + es.countP Event.isWrite := by
        simp [List.countP_cons, Event.isWrite]
        omega
      rw [hcount]
      exact hnum

theorem ncard_numbered {files : Directory Mat} {n : Nat} (h : Numbered files (Set.Icc 1 n)) :
    {name | files name ≠ none}.ncard = n := by
  have himage : {name | files name ≠ none} = fileName '' Set.Icc 1 n := by
    ext name
    simp only [Set.mem_image]
    exact (h name).trans ⟨fun ⟨k, hk, he⟩ => ⟨k, hk, he.symm⟩, fun ⟨k, hk, he⟩ => ⟨k, hk, he.symm⟩⟩
  rw [himage, Set.ncard_image_of_injective _ fun k l hkl => fileName_injective hkl,
    ← Finset.coe_Icc, Set.ncard_coe_finset, Nat.card_Icc]
  omega

/-- Any number of processes, any interleaving: no write hits an existing file exactly when
every write uses a listing that nobody has written after, and then no crop is lost. -/
theorem concurrent_saves_iff (d : OutDir) (m : Nat) (s t : Processes ι Mat) (es : List (Event ι))
    (hs : Started m s) (hrun : Run (CropStep d) s es t) :
    (Run (CleanStep d) s es t ↔ FreshWrites ∅ es) ∧
      (FreshWrites ∅ es → {name | t.files name ≠ none}.ncard = m + es.countP Event.isWrite) := by
  have h := pending_of_started d hs
  exact ⟨⟨fun hclean => freshWrites_of_clean hclean h, fun hf => (clean_of_freshWrites hrun h hf).1⟩,
    fun hf => ncard_numbered (clean_of_freshWrites hrun h hf).2⟩

/-! ### Two processes, one face each -/

section TwoProcesses

/-- An empty directory and two processes that have one face to save each. -/
def twoIdle : Processes Bool Unit := ⟨fun _ => none, fun _ => [()], fun _ => none⟩

theorem twoIdle_started : Started 0 twoIdle where
  numbered := numbered_empty
  idle _ := rfl

theorem step_list {s : Processes Bool Unit} {p : Bool} {c : Nat} {names : List Str}
    (h : Numbered s.files (Set.Icc 1 c)) (hc : c < 2 ^ 31) (hl : Lists names s.files)
    (hp : s.output p = none) (ht : s.todo p ≠ []) :
    CropStep plainOut s (.list p names)
      { s with output := Function.update s.output p (some (plainOut.text ++ fileName (c + 1))) } := by
  refine ⟨hp, ht, hl, ?_⟩
  rw [cropSave_next plainOut h hc hl]

theorem step_write (s : Processes Bool Unit) (p : Bool) {k : Nat}
    (hp : s.output p = some (plainOut.text ++ fileName k)) (ht : s.todo p = [()]) :
    CropStep plainOut s (.write p)
      { files := Function.update s.files (fileName k) (some ())
        todo := Function.update s.todo p []
        output := Function.update s.output p none } :=
  ⟨_, (), [], hp, ht, by rw [imwriteIn_append]⟩

theorem step_list_empty {s : Processes Bool Unit} {p : Bool} (h : s.files = fun _ => none)
    (hp : s.output p = none) (ht : s.todo p ≠ []) :
    CropStep plainOut s (.list p emptyListing)
      { s with output := Function.update s.output p (some (plainOut.text ++ fileName 1)) } :=
  step_list (by rw [h]; exact numbered_empty) (by decide) (by rw [h]; exact lists_empty) hp ht

/-- Both list, then both write: the second write hits `1.png` and one of two crops is lost. -/
theorem two_processes_lose_crop :
    Started 0 twoIdle ∧ ∃ t, Run (CropStep plainOut) twoIdle
        [.list false emptyListing, .list true emptyListing, .write false, .write true] t ∧
      ¬ Run (CleanStep plainOut) twoIdle
        [.list false emptyListing, .list true emptyListing, .write false, .write true] t ∧
      {name | t.files name ≠ none}.ncard ≠ 0 + 2 := by
  refine ⟨twoIdle_started, _, .cons (step_list_empty rfl rfl (by simp [twoIdle]))
    (.cons (step_list_empty rfl rfl (by simp [twoIdle]))
      (.cons (step_write _ _ rfl rfl) (.cons (step_write _ _ rfl rfl) (.nil _)))), ?_, ?_⟩
  · intro hclean
    have hf := freshWrites_of_clean hclean (pending_of_started plainOut twoIdle_started)
    exact absurd hf.2.1 (Set.notMem_empty true)
  · have hn := (twoIdle_started.numbered.insert (0 + 1) ()).insert (0 + 1) ()
    rw [Set.insert_idem, insert_Icc] at hn
    intro htwo
    exact absurd ((ncard_numbered hn).symm.trans htwo) (by decide)

/-- One process lists and writes, then the other: neither write hits a file and both crops are
there. -/
theorem two_processes_in_turn :
    ∃ t, Run (CropStep plainOut) twoIdle [.list false emptyListing, .write false,
        .list true ["..".toList, fileName 1, ".".toList], .write true] t ∧
      Run (CleanStep plainOut) twoIdle [.list false emptyListing, .write false,
        .list true ["..".toList, fileName 1, ".".toList], .write true] t ∧
      {name | t.files name ≠ none}.ncard = 0 + 2 := by
  have hone := twoIdle_started.numbered.insert (0 + 1) ()
  rw [insert_Icc] at hone
  have hlisted : Lists ["..".toList, fileName 1, ".".toList] _ :=
    lists_of_numbered hone (by decide) fun n => by simp; tauto
  have hrun := Run.cons (step_list_empty (s := twoIdle) (p := false) rfl rfl (by simp [twoIdle]))
    (.cons (step_write _ false rfl rfl)
      (.cons (step_list (p := true) hone (by decide) hlisted rfl (by simp [twoIdle]))
        (.cons (step_write _ true rfl rfl) (.nil _))))
  have hfresh : FreshWrites ∅ [Event.list false emptyListing, .write false,
      .list true ["..".toList, fileName 1, ".".toList], .write true] := by
    simp [FreshWrites]
  obtain ⟨hclean, hcard⟩ := concurrent_saves_iff plainOut 0 twoIdle _ _ twoIdle_started hrun
  exact ⟨_, hrun, hclean.mpr hfresh, hcard hfresh⟩

end TwoProcesses
end FaceRecognition
