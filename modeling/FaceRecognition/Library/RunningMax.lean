import Mathlib.Order.Lattice
import Mathlib.Data.List.Basic

/-! A loop that keeps the best index seen so far, over values with IEEE-style
comparisons: `NaN` compares false with everything, the other values are linearly
preordered (`-0` and `+0` are equal without being the same value). -/
namespace RunningMax

/-- Comparisons in which only the values with `a ≤ a` are comparable. -/
class NanOrder (S : Type*) [LT S] [LE S] : Prop where
  le_trans : ∀ {a b c : S}, a ≤ b → b ≤ c → a ≤ c
  le_self : ∀ {a b : S}, a ≤ b → a ≤ a ∧ b ≤ b
  total : ∀ {a b : S}, a ≤ a → b ≤ b → a ≤ b ∨ b ≤ a
  lt_iff : ∀ {a b : S}, a < b ↔ a ≤ b ∧ ¬ b ≤ a

instance {S : Type*} [LinearOrder S] : NanOrder S where
  le_trans := fun h1 h2 => le_trans h1 h2
  le_self _ := ⟨le_refl _, le_refl _⟩
  total _ _ := le_total _ _
  lt_iff := lt_iff_le_not_ge

section NanOrder
variable {S : Type*} [LT S] [LE S] [NanOrder S] {a b c : S}

theorem lt_of_lt_of_le (hab : a < b) (hbc : b ≤ c) : a < c := by
  obtain ⟨h1, h2⟩ := NanOrder.lt_iff.mp hab
  exact NanOrder.lt_iff.mpr
    ⟨NanOrder.le_trans h1 hbc, fun hca => h2 (NanOrder.le_trans hbc hca)⟩

theorem lt_trans (hab : a < b) (hbc : b < c) : a < c :=
  lt_of_lt_of_le hab (NanOrder.lt_iff.mp hbc).1

theorem not_le_of_lt (hab : a < b) : ¬ b ≤ a := (NanOrder.lt_iff.mp hab).2

theorem lt_irrefl (a : S) : ¬ a < a := fun h => not_le_of_lt h (NanOrder.lt_iff.mp h).1

theorem lt_asymm (hab : a < b) : ¬ b < a := fun hba => lt_irrefl a (lt_trans hab hba)

end NanOrder

/-- The values of `S` and one that is no number. -/
inductive WithNan (S : Type*) where
  | num (x : S)
  | nan
  deriving DecidableEq

namespace WithNan
variable {S : Type*}

protected def Le [LE S] : WithNan S → WithNan S → Prop
  | .num x, .num y => x ≤ y
  | _, _ => False

protected def Lt [LT S] : WithNan S → WithNan S → Prop
  | .num x, .num y => x < y
  | _, _ => False

instance [LE S] : LE (WithNan S) := ⟨WithNan.Le⟩
instance [LT S] : LT (WithNan S) := ⟨WithNan.Lt⟩

@[simp] theorem num_le_num [LE S] (x y : S) : num x ≤ num y ↔ x ≤ y := Iff.rfl
@[simp] theorem num_lt_num [LT S] (x y : S) : num x < num y ↔ x < y := Iff.rfl
@[simp] theorem not_nan_le [LE S] (a : WithNan S) : ¬ nan ≤ a := id
@[simp] theorem not_nan_lt [LT S] (a : WithNan S) : ¬ nan < a := id

@[simp] theorem not_le_nan [LE S] (a : WithNan S) : ¬ a ≤ nan := by
  cases a <;> exact id

@[simp] theorem not_lt_nan [LT S] (a : WithNan S) : ¬ a < nan := by
  cases a <;> exact id

instance [LE S] [DecidableLE S] : DecidableLE (WithNan S)
  | .num x, .num y => inferInstanceAs (Decidable (x ≤ y))
  | .nan, b => isFalse (not_nan_le b)
  | .num x, .nan => isFalse (not_le_nan (num x))

instance [LT S] [DecidableLT S] : DecidableLT (WithNan S)
  | .num x, .num y => inferInstanceAs (Decidable (x < y))
  | .nan, b => isFalse (not_nan_lt b)
  | .num x, .nan => isFalse (not_lt_nan (num x))

instance [LinearOrder S] : NanOrder (WithNan S) where
  le_trans := by
    rintro (x | _) (y | _) (z | _) h1 h2 <;> simp_all
    exact h1.trans h2
  le_self := by rintro (x | _) (y | _) h <;> simp_all
  total := by
    rintro (x | _) (y | _) h1 h2 <;> simp_all
    exact le_total x y
  lt_iff := by
    rintro (x | _) (y | _) <;> simp
    exact fun h => h.le

/-- An operation that is no number as soon as an operand is none. -/
def lift (f : S → S → WithNan S) : WithNan S → WithNan S → WithNan S
  | .num x, .num y => f x y
  | _, _ => nan

instance [Zero S] : Zero (WithNan S) := ⟨num 0⟩
instance [Add S] : Add (WithNan S) := ⟨lift fun x y => num (x + y)⟩
instance [Mul S] : Mul (WithNan S) := ⟨lift fun x y => num (x * y)⟩
instance [Zero S] [Div S] [DecidableEq S] : Div (WithNan S) :=
  ⟨lift fun x y => if y = 0 then nan else num (x / y)⟩

end WithNan

variable {S : Type*} [LT S] [DecidableLT S]

/-- `i` is the index of the next value, `m` the running maximum and `best` its index. -/
def scan (p : S → Bool) : Int → S → Int → List S → Int
  | _, _, best, [] => best
  | i, m, best, s :: ss =>
    if p s = true ∧ m < s then scan p (i + 1) s i ss else scan p (i + 1) m best ss

/-- `i` is the first index whose value passes the test, is above `m` and is not exceeded by
any value that passes the test. -/
structure IsFirstBest [LE S] (p : S → Bool) (m : S) (l : List S) (i : Nat) (s : S) : Prop where
  at_index : l[i]? = some s
  passes : p s = true
  above : m < s
  maximal : ∀ t ∈ l, p t = true → ¬ s < t
  first : ∀ k < i, ∀ t, l[k]? = some t → p t = true → ¬ s ≤ t

/-- Without any law of the order: the scan ends at the incumbent or at an index of the list. -/
theorem scan_index (p : S → Bool) (l : List S) (i : Int) (m : S) (best : Int) :
    scan p i m best l = best ∨ ∃ k < l.length, scan p i m best l = i + (k : Nat) := by
  induction l generalizing i m best with
  | nil => exact .inl rfl
  | cons a l ih =>
    rw [scan]
    split
    · right
      rcases ih (i + 1) a i with hr | ⟨k, hk, hr⟩
      · exact ⟨0, by simp, by rw [hr]; simp⟩
      · exact ⟨k + 1, by simpa using hk, by rw [hr]; omega⟩
    · rcases ih (i + 1) m best with hr | ⟨k, hk, hr⟩
      · exact .inl hr
      · exact .inr ⟨k + 1, by simpa using hk, by rw [hr]; omega⟩

/-- Either nothing in the list beats the incumbent, or the scan ends at the first best index. -/
theorem scan_cases [LE S] [NanOrder S] (p : S → Bool) (l : List S) (i : Int) (m : S) (best : Int) :
    (scan p i m best l = best ∧ ∀ t ∈ l, p t = true → ¬ m < t) ∨
    ∃ k s, scan p i m best l = i + (k : Nat) ∧ IsFirstBest p m l k s := by
  induction l generalizing i m best with
  | nil => exact .inl ⟨rfl, by simp⟩
  | cons a l ih =>
    by_cases ha : p a = true ∧ m < a
    · have hgo : scan p i m best (a :: l) = scan p (i + 1) a i l := by rw [scan, if_pos ha]
      right
      rcases ih (i + 1) a i with ⟨hr, hmax⟩ | ⟨k, s, hr, hb⟩
      · refine ⟨0, a, by rw [hgo, hr]; simp, rfl, ha.1, ha.2, ?_, by omega⟩
        intro t ht hp
        rcases List.mem_cons.mp ht with rfl | ht
        · exact lt_irrefl t
        · exact hmax t ht hp
      · refine ⟨k + 1, s, by rw [hgo, hr]; omega, by simpa using hb.at_index, hb.passes,
          lt_trans ha.2 hb.above, ?_, ?_⟩
        · intro t ht hp
          rcases List.mem_cons.mp ht with rfl | ht
          · exact lt_asymm hb.above
          · exact hb.maximal t ht hp
        · intro j hj t ht hp
          cases j with
          | zero =>
            obtain rfl : a = t := by simpa using ht
            exact not_le_of_lt hb.above
          | succ j => exact hb.first j (by omega) t (by simpa using ht) hp
    · have hgo : scan p i m best (a :: l) = scan p (i + 1) m best l := by rw [scan, if_neg ha]
      rcases ih (i + 1) m best with ⟨hr, hmax⟩ | ⟨k, s, hr, hb⟩
      · refine .inl ⟨by rw [hgo, hr], ?_⟩
        intro t ht hp
        rcases List.mem_cons.mp ht with rfl | ht
        · exact fun hlt => ha ⟨hp, hlt⟩
        · exact hmax t ht hp
      · refine .inr ⟨k + 1, s, by rw [hgo, hr]; omega, by simpa using hb.at_index, hb.passes,
          hb.above, ?_, ?_⟩
        · intro t ht hp
          rcases List.mem_cons.mp ht with rfl | ht
          · exact fun hlt => ha ⟨hp, lt_trans hb.above hlt⟩
          · exact hb.maximal t ht hp
        · intro j hj t ht hp
          cases j with
          | zero =>
            obtain rfl : a = t := by simpa using ht
            exact fun hle => ha ⟨hp, lt_of_lt_of_le hb.above hle⟩
          | succ j => exact hb.first j (by omega) t (by simpa using ht) hp

/-- The scan from the start, with `-1` for "nothing found". -/
theorem scan_start [LE S] [NanOrder S] (p : S → Bool) (l : List S) (m : S) :
    (scan p 0 m (-1) l = -1 ∧ ∀ t ∈ l, p t = true → ¬ m < t) ∨
    ∃ k s, scan p 0 m (-1) l = ((k : Nat) : Int) ∧ IsFirstBest p m l k s := by
  simpa using scan_cases p l 0 m (-1)

section Threshold
variable [LE S] [NanOrder S]

omit [DecidableLT S] in
theorem IsFirstBest.le_self {p : S → Bool} {m : S} {l : List S} {i : Nat} {s : S}
    (h : IsFirstBest p m l i s) : s ≤ s := (NanOrder.le_self (NanOrder.lt_iff.mp h.above).1).2

omit [DecidableLT S] in
/-- Every value that passes the test and is a number is below the best one. -/
theorem IsFirstBest.le {p : S → Bool} {m : S} {l : List S} {i : Nat} {s t : S}
    (h : IsFirstBest p m l i s) (ht : t ∈ l) (hp : p t = true) (hn : t ≤ t) : t ≤ s := by
  rcases NanOrder.total h.le_self hn with hst | hts
  · by_contra hts
    exact h.maximal t ht hp (NanOrder.lt_iff.mpr ⟨hst, hts⟩)
  · exact hts

omit [DecidableLT S] in
theorem IsFirstBest.unique {p : S → Bool} {m : S} {l : List S} {i j : Nat} {s t : S}
    (hi : IsFirstBest p m l i s) (hj : IsFirstBest p m l j t) : i = j := by
  have hst : s ≤ t := hj.le (List.mem_of_getElem? hi.at_index) hi.passes hi.le_self
  have hts : t ≤ s := hi.le (List.mem_of_getElem? hj.at_index) hj.passes hj.le_self
  rcases Nat.lt_trichotomy i j with h | h | h
  · exact absurd hts (hj.first i h s hi.at_index hi.passes)
  · exact h
  · exact absurd hst (hi.first j h t hj.at_index hj.passes)

theorem scan_start_iff (p : S → Bool) (m : S) (l : List S) (k : Nat) :
    scan p 0 m (-1) l = k ↔ ∃ s, IsFirstBest p m l k s := by
  constructor
  · intro h
    rcases scan_start p l m with ⟨hr, -⟩ | ⟨j, s, hr, hb⟩
    · omega
    · obtain rfl : j = k := by omega
      exact ⟨s, hb⟩
  · rintro ⟨s, hb⟩
    rcases scan_start p l m with ⟨-, hmax⟩ | ⟨j, t, hr, hb'⟩
    · exact absurd hb.above (hmax s (List.mem_of_getElem? hb.at_index) hb.passes)
    · rw [hr, hb'.unique hb]

/-- Nothing is found exactly when nothing passes the test and exceeds the start value. -/
theorem scan_start_none_iff (p : S → Bool) (m : S) (l : List S) :
    scan p 0 m (-1) l = -1 ↔ ∀ t ∈ l, p t = true → ¬ m < t := by
  rcases scan_start p l m with ⟨hr, hmax⟩ | ⟨k, s, hr, hb⟩
  · exact ⟨fun _ => hmax, fun _ => hr⟩
  · constructor
    · intro h
      omega
    · intro h
      exact absurd hb.above (h s (List.mem_of_getElem? hb.at_index) hb.passes)

variable [DecidableLE S] {c m : S}

omit [DecidableLT S] in
/-- A threshold above the start value does not change which index is best, it only decides
whether the best index is reported. -/
theorem isFirstBest_threshold_iff (hm : m < c) (l : List S) (k : Nat) (s : S) :
    IsFirstBest (fun t => decide (c ≤ t)) m l k s ↔
      IsFirstBest (fun _ => true) m l k s ∧ c ≤ s := by
  constructor
  · intro h
    have hc : c ≤ s := by simpa using h.passes
    refine ⟨⟨h.at_index, rfl, h.above, fun t ht _ hst => ?_, fun j hj t ht _ hst => ?_⟩, hc⟩
    · have hct : c ≤ t := NanOrder.le_trans hc (NanOrder.lt_iff.mp hst).1
      exact h.maximal t ht (by simpa using hct) hst
    · exact h.first j hj t ht (by simpa using NanOrder.le_trans hc hst) hst
  · rintro ⟨h, hc⟩
    exact ⟨h.at_index, by simpa using hc, lt_of_lt_of_le hm hc, fun t ht _ => h.maximal t ht rfl,
      fun j hj t ht _ => h.first j hj t ht rfl⟩

end Threshold

end RunningMax
