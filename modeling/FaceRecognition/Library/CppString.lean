import Mathlib.Data.List.Basic
import Mathlib.Data.List.Infix
import Mathlib.Tactic.Linarith

/-! The part of `std::string` that path handling uses, on lists of characters:
`find`, `find_last_of`, `substr`, `erase`, `stoi`, `to_string`, `getline`.
Positions are 64-bit `size_t` values, so a difference of positions wraps. -/
namespace CppString

abbrev Str := List Char

/-- What `e.what()` prints is the text each of these carries. -/
inductive StdException where
  | invalidArgument (what : Str)
  | outOfRange (what : Str)
  | other (what : Str)
  deriving DecidableEq

def StdException.what : StdException → Str
  | .invalidArgument w | .outOfRange w | .other w => w

/-! ### Positions -/

/-- Conversion of a signed value or difference to `size_t`. -/
def sizeT (i : Int) : Nat := (i % 2 ^ 64).toNat

def npos : Nat := 2 ^ 64 - 1

/-- Conversion of a `size_t` to `int`, as in `(int)s.find(w)`. -/
def castInt (n : Nat) : Int := Int.bmod n (2 ^ 32)

theorem sizeT_of_nonneg {i : Int} (h0 : 0 ≤ i) (h : i < 2 ^ 64) : sizeT i = i.toNat := by
  rw [sizeT, Int.emod_eq_of_lt h0 h]

theorem sizeT_natCast {n : Nat} (h : n < 2 ^ 64) : sizeT n = n := by
  rw [sizeT_of_nonneg (by omega) (by omega)]
  omega

/-- A difference that is negative but not huge wraps to a count beyond any string. -/
theorem sizeT_of_neg {i : Int} (h0 : i < 0) (h : -(2 ^ 64) ≤ i) :
    (sizeT i : Int) = i + 2 ^ 64 := by
  have hs : i % 2 ^ 64 = i + 2 ^ 64 := by omega
  rw [sizeT, hs]
  omega

theorem castInt_npos : castInt npos = -1 := by
  unfold castInt npos
  rfl

theorem castInt_of_lt {n : Nat} (h : n < 2 ^ 31) : castInt n = n := by
  unfold castInt
  exact Int.bmod_eq_of_le (by omega) (by omega)

/-! ### `find`, `find_last_of`, `substr`, `erase` -/

/-- Position of the first occurrence of `w`. -/
def find? (w : Str) : Str → Option Nat
  | [] => if w = [] then some 0 else none
  | c :: s => if w.isPrefixOf (c :: s) then some 0 else (find? w s).map (· + 1)

def find (s w : Str) : Nat := (find? w s).getD npos

/-- Position of the last occurrence of the character `c`. -/
def findLast? (c : Char) : Str → Option Nat
  | [] => none
  | x :: s => match findLast? c s with
    | some i => some (i + 1)
    | none => if x = c then some 0 else none

def findLastOf (s : Str) (c : Char) : Nat := (findLast? c s).getD npos

def substr (s : Str) (pos n : Nat) : Except StdException Str :=
  if s.length < pos then .error (.outOfRange "basic_string::substr".toList)
  else .ok ((s.drop pos).take n)

/-- `s.erase(pos)` drops everything from `pos` on. -/
def erase (s : Str) (pos : Nat) : Except StdException Str :=
  if s.length < pos then .error (.outOfRange "basic_string::erase".toList)
  else .ok (s.take pos)

theorem find?_some_iff (w s : Str) (i : Nat) :
    find? w s = some i ↔ i ≤ s.length ∧ w <+: s.drop i ∧ ∀ j < i, ¬ w <+: s.drop j := by
  induction s generalizing i with
  | nil =>
    by_cases hw : w = []
    · simp only [find?, hw, if_true, Option.some.injEq, List.drop_nil, List.length_nil]
      constructor
      · rintro rfl
        simp
      · rintro ⟨hi, -, -⟩
        omega
    · simp [find?, hw]
  | cons c s ih =>
    by_cases hp : w <+: c :: s
    · have hb : w.isPrefixOf (c :: s) = true := List.isPrefixOf_iff_prefix.mpr hp
      simp only [find?, hb, if_true, Option.some.injEq]
      constructor
      · rintro rfl
        exact ⟨by simp, by simpa using hp, by omega⟩
      · rintro ⟨-, -, hmin⟩
        by_contra hne
        exact hmin 0 (by omega) (by simpa using hp)
    · have hb : ¬ w.isPrefixOf (c :: s) = true := fun h => hp (List.isPrefixOf_iff_prefix.mp h)
      simp only [find?, hb]
      cases i with
      | zero => simp [hp]
      | succ i =>
        have hshift : find? w s = some i ↔ (find? w s).map (· + 1) = some (i + 1) := by simp
        simp only [Bool.false_eq_true, if_false]
        rw [← hshift, ih]
        simp only [List.length_cons, Nat.succ_le_succ_iff, List.drop_succ_cons]
        refine and_congr_right fun _ => and_congr_right fun _ => ⟨fun h j hj => ?_, fun h j hj => ?_⟩
        · cases j with
          | zero => simpa using hp
          | succ j => exact h j (by omega)
        · exact h (j + 1) (by omega)

theorem find?_none_iff (w s : Str) : find? w s = none ↔ ∀ i ≤ s.length, ¬ w <+: s.drop i := by
  constructor
  · intro h i hi hp
    have hex : ∃ j, w <+: s.drop j := ⟨i, hp⟩
    have hle : Nat.find hex ≤ i := Nat.find_le hp
    have hsome : find? w s = some (Nat.find hex) :=
      (find?_some_iff w s _).mpr ⟨by omega, Nat.find_spec hex, fun j hj => Nat.find_min hex hj⟩
    simp [hsome] at h
  · intro h
    cases hf : find? w s with
    | none => rfl
    | some i =>
      obtain ⟨hi, hp, -⟩ := (find?_some_iff w s i).mp hf
      exact absurd hp (h i hi)

/-- What occurs in `n` occurs in `d ++ n`, perhaps earlier. -/
theorem find?_append_right {w n : Str} {i : Nat} (h : find? w n = some i) (d : Str) :
    ∃ j ≤ (d ++ n).length, find? w (d ++ n) = some j := by
  obtain ⟨hi, hp, -⟩ := (find?_some_iff w n i).mp h
  cases hf : find? w (d ++ n) with
  | some j => exact ⟨j, ((find?_some_iff w _ j).mp hf).1, rfl⟩
  | none =>
    have hnone := (find?_none_iff w (d ++ n)).mp hf (d.length + i) (by simp [hi])
    rw [← List.drop_drop, List.drop_left] at hnone
    exact absurd hp hnone

/-- A pattern without the separator `c` occurs on one side of it or on the other. -/
theorem prefix_append_sep {w : Str} {c : Char} (hc : c ∉ w) (d n : Str) :
    w <+: d ++ c :: n ↔ w <+: d := by
  constructor
  · intro h
    induction d generalizing w with
    | nil =>
      cases w with
      | nil => exact List.nil_prefix
      | cons x w =>
        obtain ⟨rfl, -⟩ := List.cons_prefix_cons.mp h
        exact absurd (by simp) hc
    | cons y d ih =>
      cases w with
      | nil => exact List.nil_prefix
      | cons x w =>
        obtain ⟨rfl, ht⟩ := List.cons_prefix_cons.mp h
        exact List.cons_prefix_cons.mpr ⟨rfl, ih (fun hm => hc (List.mem_cons_of_mem x hm)) ht⟩
  · intro h
    exact h.trans (List.prefix_append d (c :: n))

theorem find?_append_sep {w : Str} {c : Char} (hw : w ≠ []) (hc : c ∉ w) (d n : Str) :
    find? w (d ++ c :: n) = (find? w d).or ((find? w n).map (· + (d.length + 1))) := by
  induction d with
  | nil =>
    have hp : ¬ w.isPrefixOf (c :: n) = true := by
      rw [List.isPrefixOf_iff_prefix]
      intro h
      have h0 := (prefix_append_sep hc [] n).mp h
      exact hw (List.prefix_nil.mp h0)
    simp [find?, hp, hw]
  | cons x d ih =>
    have hp : w.isPrefixOf (x :: (d ++ c :: n)) = w.isPrefixOf (x :: d) := by
      rw [Bool.eq_iff_iff, List.isPrefixOf_iff_prefix, List.isPrefixOf_iff_prefix]
      exact prefix_append_sep hc (x :: d) n
    simp only [List.cons_append, find?, hp, ih]
    by_cases hx : w.isPrefixOf (x :: d) = true
    · simp [hx]
    · simp only [hx, Bool.false_eq_true, if_false]
      cases find? w d with
      | some i => simp
      | none =>
        cases find? w n with
        | none => simp
        | some i =>
          simp only [Option.map_some, Option.none_or, Option.map_none, Option.some.injEq,
            List.length_cons]
          omega

theorem find?_add_length_le {w s : Str} {i : Nat} (h : find? w s = some i) :
    i + w.length ≤ s.length := by
  obtain ⟨hi, hp, -⟩ := (find?_some_iff w s i).mp h
  have hle := hp.length_le
  rw [List.length_drop] at hle
  omega

/-- The pattern ends the string and does not occur before. -/
def OnlyAtEnd (w s : Str) : Prop := find? w s = some (s.length - w.length)

theorem onlyAtEnd_iff (w s : Str) :
    OnlyAtEnd w s ↔ ∃ stem, s = stem ++ w ∧ find? w s = some stem.length := by
  constructor
  · intro h
    have hle := find?_add_length_le h
    have hp := ((find?_some_iff w s _).mp h).2.1
    have hlen : (s.take (s.length - w.length)).length = s.length - w.length :=
      List.length_take_of_le (by omega)
    refine ⟨s.take (s.length - w.length), ?_, by rw [hlen]; exact h⟩
    have hdrop : w = s.drop (s.length - w.length) := hp.eq_of_length (by rw [List.length_drop]; omega)
    have hsplit := List.take_append_drop (s.length - w.length) s
    rw [← hdrop] at hsplit
    exact hsplit.symm
  · rintro ⟨stem, hs, h⟩
    have hlen : s.length - w.length = stem.length := by
      rw [hs, List.length_append]
      omega
    rw [OnlyAtEnd, hlen]
    exact h

theorem onlyAtEnd_append_sep {w : Str} {c : Char} (hw : w ≠ []) (hc : c ∉ w) (d n : Str) :
    OnlyAtEnd w (d ++ c :: n) ↔ find? w d = none ∧ OnlyAtEnd w n := by
  have hlen : (d ++ c :: n).length = d.length + 1 + n.length := by
    rw [List.length_append, List.length_cons]
    omega
  rw [OnlyAtEnd, OnlyAtEnd, find?_append_sep hw hc, hlen]
  cases hd : find? w d with
  | some i =>
    have hle := find?_add_length_le hd
    simp only [Option.some_or, Option.some.injEq, reduceCtorEq, false_and, iff_false]
    omega
  | none =>
    cases hn : find? w n with
    | none => simp
    | some j =>
      have hle := find?_add_length_le hn
      simp only [Option.none_or, Option.map_some, Option.some.injEq, true_and]
      omega

/-- A pattern whose first character is not in `d` first occurs behind `d`. -/
theorem find?_append_of_not_mem {x : Char} {w d : Str} (hx : x ∉ d) (r : Str) :
    find? (x :: w) (d ++ x :: w ++ r) = some d.length := by
  induction d with
  | nil => simp [find?]
  | cons y d ih =>
    have hy : ¬ x = y := by
      rintro rfl
      exact hx (by simp)
    have hrest : find? (x :: w) (d ++ x :: w ++ r) = some d.length :=
      ih fun h => hx (List.mem_cons_of_mem y h)
    simp only [List.cons_append, List.append_assoc] at hrest ⊢
    simp [find?, hy, hrest]

/-- After the last `c` only characters other than `c` follow. -/
theorem findLast?_append (c : Char) (d n : Str) (hn : c ∉ n) :
    findLast? c (d ++ c :: n) = some d.length := by
  have hnone : findLast? c n = none := by
    induction n with
    | nil => rfl
    | cons x n ih =>
      have hx : ¬ x = c := by
        rintro rfl
        exact hn (by simp)
      simp [findLast?, ih (fun h => hn (List.mem_cons_of_mem x h)), hx]
  induction d with
  | nil => simp [findLast?, hnone]
  | cons x d ih => simp [findLast?, ih]

/-! ### `stoi` and `to_string` -/

def isSpace (c : Char) : Bool := c = ' ' || (9 ≤ c.toNat && c.toNat ≤ 13)

/-- The sign a number may start with, and what follows it. -/
def sign : Str → Bool × Str
  | '-' :: s => (true, s)
  | '+' :: s => (false, s)
  | s => (false, s)

/-- Base 10 `strtol`: leading white space, a sign, the longest run of digits;
`none` when there is no digit to convert. -/
def strtol (s : Str) : Option Int :=
  let (neg, t) := sign (s.dropWhile isSpace)
  let ds := t.takeWhile Char.isDigit
  if ds = [] then none
  else some (if neg then -(Nat.ofDigitChars 10 ds 0 : Int) else Nat.ofDigitChars 10 ds 0)

def intMin : Int := -(2 ^ 31)
def intMax : Int := 2 ^ 31 - 1

def stoi (s : Str) : Except StdException Int :=
  match strtol s with
  | none => .error (.invalidArgument "stoi".toList)
  | some n => if intMin ≤ n ∧ n ≤ intMax then .ok n else .error (.outOfRange "stoi".toList)

protected def toString (n : Nat) : Str := Nat.toDigits 10 n

/-- A signed number as `std::cout` prints it. -/
def printInt (i : Int) : Str :=
  if i < 0 then '-' :: CppString.toString i.natAbs else CppString.toString i.toNat

theorem toString_isDigit {n : Nat} {c : Char} (h : c ∈ CppString.toString n) : c.isDigit = true :=
  Nat.isDigit_of_mem_toDigits (by decide) (by decide) h

theorem toString_injective {m n : Nat} (h : CppString.toString m = CppString.toString n) : m = n := by
  have hp := congrArg (fun ds => Nat.ofDigitChars 10 ds 0) h
  simpa [CppString.toString] using hp

theorem not_space_of_digit {c : Char} (h : c.isDigit = true) : isSpace c = false := by
  simp only [Char.isDigit, Bool.and_eq_true, decide_eq_true_eq, UInt32.le_iff_toNat_le] at h
  have h1 : 48 ≤ c.toNat := h.1
  have hs : c ≠ ' ' := by
    rintro rfl
    exact absurd h1 (by decide)
  simp only [isSpace, hs, decide_false, Bool.false_or, Bool.and_eq_false_iff, decide_eq_false_iff_not]
  right
  omega

theorem sign_of_digit {c : Char} {s : Str} (h : c.isDigit = true) :
    sign (c :: s) = (false, c :: s) := by
  have hm : c ≠ '-' := by
    rintro rfl
    exact absurd h (by decide)
  have hp : c ≠ '+' := by
    rintro rfl
    exact absurd h (by decide)
  unfold sign
  split <;> simp_all

/-- Reading a printed number back stops at the first character that is no digit. -/
theorem strtol_toString (n : Nat) (s : Str) (hs : ∀ c ∈ s.head?, c.isDigit = false) :
    strtol (CppString.toString n ++ s) = some (n : Int) := by
  have hne : CppString.toString n ≠ [] := Nat.toDigits_ne_nil
  obtain ⟨c, cs, hc⟩ := List.exists_cons_of_ne_nil hne
  have hd : c.isDigit = true := toString_isDigit (n := n) (by simp [hc])
  have htake : (CppString.toString n ++ s).takeWhile Char.isDigit = CppString.toString n := by
    rw [List.takeWhile_append_of_pos fun x hx => toString_isDigit hx]
    cases s with
    | nil => simp
    | cons x s => simp [hs x (by simp)]
  have hstart : sign ((CppString.toString n ++ s).dropWhile isSpace) = (false, CppString.toString n ++ s) := by
    rw [hc, List.cons_append, List.dropWhile_cons_of_neg (by simp [not_space_of_digit hd])]
    exact sign_of_digit hd
  simp only [strtol, hstart, htake, if_neg hne]
  simp [CppString.toString]

theorem stoi_toString (n : Nat) (s : Str) (hn : n < 2 ^ 31)
    (hs : ∀ c ∈ s.head?, c.isDigit = false) : stoi (CppString.toString n ++ s) = .ok (n : Int) := by
  have hr : intMin ≤ (n : Int) ∧ (n : Int) ≤ intMax := by
    simp only [intMin, intMax]
    omega
  simp [stoi, strtol_toString n s hs, hr]

theorem stoi_toString_big (n : Nat) (s : Str) (hn : 2 ^ 31 ≤ n)
    (hs : ∀ c ∈ s.head?, c.isDigit = false) :
    stoi (CppString.toString n ++ s) = .error (.outOfRange "stoi".toList) := by
  have hr : ¬ (intMin ≤ (n : Int) ∧ (n : Int) ≤ intMax) := by
    simp only [intMin, intMax]
    omega
  simp [stoi, strtol_toString n s hs, hr]

/-- `stoi` only returns values of type `int`. -/
theorem stoi_range {s : Str} {n : Int} (h : stoi s = .ok n) : intMin ≤ n ∧ n ≤ intMax := by
  unfold stoi at h
  split at h
  · cases h
  · split at h
    · cases h
      assumption
    · cases h

/-! ### `getline` -/

/-- The next line and what is left to read; at the end of the stream the line is empty. -/
def getline (s : Str) : Str × Str :=
  (s.takeWhile (· ≠ '\n'), (s.dropWhile (· ≠ '\n')).drop 1)

end CppString
