import FaceRecognition.Library.FixedText
import Mathlib.Algebra.Order.Field.Power
import Mathlib.Data.Int.Log
import Mathlib.Data.Rat.Floor
import Mathlib.Tactic.FieldSimp
import Mathlib.Tactic.Linarith
import Mathlib.Tactic.Positivity
import Mathlib.Tactic.Ring

/-! The numbers of a binary floating-point format with infinities and one not-a-number; the two zeros,
which compare equal, are one value. Rounding is to the nearest number, ties to the even one. -/
namespace BinaryFloat

/-- The digits of a number, the exponent of the last place of the smallest numbers, and the power of
two that all numbers stay below. -/
structure Format where
  digits : Nat
  minExp : Int
  maxExp : Int
  digits_pos : 0 < digits
  minExp_nonpos : minExp ≤ 0
  digits_le : digits ≤ maxExp

def float : Format := ⟨24, -149, 128, by decide, by decide, by decide⟩

inductive Value where
  | finite (q : ℚ)
  | inf
  | ninf
  | nan
  deriving DecidableEq

def roundEven (x : ℚ) : Int :=
  let f := ⌊x⌋
  if x - f < 1 / 2 then f else if 1 / 2 < x - f then f + 1 else if f % 2 = 0 then f else f + 1

def truncate (x : ℚ) : Int := if 0 ≤ x then ⌊x⌋ else ⌈x⌉

theorem roundEven_intCast (m : Int) : roundEven m = m := by
  simp [roundEven]

theorem truncate_intCast (m : Int) : truncate m = m := by
  simp [truncate]

theorem roundEven_cases (x : ℚ) : (roundEven x = ⌊x⌋ ∧ x ≤ ⌊x⌋ + 1 / 2) ∨
    (roundEven x = ⌊x⌋ + 1 ∧ (⌊x⌋ : ℚ) + 1 / 2 ≤ x) := by
  rw [roundEven]
  rcases lt_trichotomy (x - ⌊x⌋) (1 / 2) with hlt | heq | hgt
  · rw [if_pos hlt]
    exact .inl ⟨rfl, by linarith⟩
  · rw [if_neg heq.not_lt, if_neg heq.not_gt]
    split
    next => exact .inl ⟨rfl, by linarith⟩
    next => exact .inr ⟨rfl, by linarith⟩
  · rw [if_neg (not_lt.mpr hgt.le), if_pos hgt]
    exact .inr ⟨rfl, by linarith⟩

theorem roundEven_le {x : ℚ} {n : Int} (h : x ≤ n) : roundEven x ≤ n := by
  have hfloor := Int.floor_le x
  rcases roundEven_cases x with ⟨hr, -⟩ | ⟨hr, hle⟩
  · rw [hr]
    exact_mod_cast hfloor.trans h
  · have hlt : (⌊x⌋ : ℚ) < n := by linarith
    rw [hr]
    exact Int.add_one_le_iff.mpr (by exact_mod_cast hlt)

theorem le_roundEven {x : ℚ} {n : Int} (h : (n : ℚ) ≤ x) : n ≤ roundEven x := by
  have hfloor := Int.le_floor.mpr h
  rcases roundEven_cases x with ⟨hr, -⟩ | ⟨hr, -⟩ <;> omega

theorem roundEven_mono {x y : ℚ} (h : x ≤ y) : roundEven x ≤ roundEven y := by
  have hfloor := Int.floor_le_floor h
  rcases roundEven_cases x with ⟨hx, -⟩ | ⟨hx, hmid⟩
  · rcases roundEven_cases y with ⟨hy, -⟩ | ⟨hy, -⟩ <;> omega
  · rcases roundEven_cases y with ⟨hy, hmid'⟩ | ⟨hy, -⟩
    · rcases hfloor.lt_or_eq with hlt | heq
      · omega
      · -- both are in the middle
        rw [← heq] at hmid'
        exact (congrArg roundEven (le_antisymm h (hmid'.trans hmid))).le
    · omega

/-- Up to the middle between an even number and the next one, that included, is rounded down. -/
theorem roundEven_of_even {m : Int} (hm : m % 2 = 0) (x : ℚ) :
    (x ≤ m + 1 / 2 ∧ roundEven x ≤ m) ∨ ((m : ℚ) + 1 / 2 < x ∧ m + 1 ≤ roundEven x) := by
  have hfloor := Int.floor_le x
  have hlt := Int.lt_floor_add_one x
  rcases le_or_gt x (m + 1 / 2) with hx | hx
  · refine .inl ⟨hx, ?_⟩
    rcases lt_or_ge ⌊x⌋ m with hf | hf
    · rcases roundEven_cases x with ⟨hr, -⟩ | ⟨hr, -⟩ <;> omega
    · have hle : (⌊x⌋ : ℚ) < (m + 1 : Int) := by
        push_cast
        linarith
      have hle' : ⌊x⌋ < m + 1 := by exact_mod_cast hle
      obtain hm' : ⌊x⌋ = m := by omega
      rw [roundEven, hm']
      rcases lt_or_eq_of_le (show x - m ≤ 1 / 2 by linarith) with h | h
      · rw [if_pos h]
      · rw [if_neg h.not_lt, if_neg h.not_gt, if_pos hm]
  · refine .inr ⟨hx, ?_⟩
    have hge : m ≤ ⌊x⌋ := Int.le_floor.mpr (by linarith)
    rcases roundEven_cases x with ⟨hr, hle⟩ | ⟨hr, -⟩
    · have hne : (m : ℚ) < ⌊x⌋ := by linarith
      have hne' : m < ⌊x⌋ := by exact_mod_cast hne
      omega
    · omega

/-- Rounding a ratio of natural numbers. -/
theorem roundEven_natCast_div (a : Nat) {b : Nat} (hb : 0 < b) :
    roundEven ((a : ℚ) / b) = CppString.roundHalfEven a b := by
  have hbr : (0 : ℚ) < b := by exact_mod_cast hb
  have hfloor : ⌊(a : ℚ) / b⌋ = ((a / b : Nat) : Int) := Rat.floor_natCast_div_natCast a b
  have hfract : (a : ℚ) / b - ((a / b : Nat) : Int) = ((a % b : Nat) : ℚ) / b := by
    have hdiv : (a : ℚ) = b * (a / b : Nat) + (a % b : Nat) := by exact_mod_cast (Nat.div_add_mod a b).symm
    rw [eq_div_iff hbr.ne', sub_mul, div_mul_cancel₀ _ hbr.ne', Int.cast_natCast]
    conv_lhs => rw [hdiv]
    ring
  have hlt : ((a % b : Nat) : ℚ) / b < 1 / 2 ↔ 2 * (a % b) < b := by
    rw [div_lt_div_iff₀ hbr (by norm_num), one_mul, mul_comm]
    exact_mod_cast Iff.rfl
  have hgt : 1 / 2 < ((a % b : Nat) : ℚ) / b ↔ b < 2 * (a % b) := by
    rw [div_lt_div_iff₀ (by norm_num) hbr, one_mul, mul_comm]
    exact_mod_cast Iff.rfl
  rw [roundEven, hfloor, hfract, CppString.roundHalfEven]
  rcases Nat.lt_trichotomy (2 * (a % b)) b with h | h | h
  · rw [if_pos (hlt.mpr h), if_pos (.inl h)]
  · rw [if_neg (fun hr => by have := hlt.mp hr; omega), if_neg (fun hr => by have := hgt.mp hr; omega)]
    by_cases heven : a / b % 2 = 0
    · rw [if_pos (by omega), if_pos (.inr ⟨h, heven⟩)]
    · rw [if_neg (by omega), if_neg (by omega), Nat.cast_add, Nat.cast_one]
  · rw [if_neg (fun hr => by have := hlt.mp hr; omega), if_pos (hgt.mpr h), if_neg (by omega), Nat.cast_add,
      Nat.cast_one]

/-- The exponent of `frexp`, which is zero for zero. -/
def expOf (q : ℚ) : Int := if q = 0 then 0 else Int.log 2 |q| + 1

/-- The fraction of `frexp`. -/
def fractionOf (q : ℚ) : ℚ := q / 2 ^ expOf q

theorem abs_lt_expOf (q : ℚ) : |q| < 2 ^ expOf q := by
  rw [expOf]
  split
  next h => simp [h]
  next => simpa using Int.lt_zpow_succ_log_self (b := 2) (by decide) |q|

theorem lt_expOf_iff {q : ℚ} (hq : 0 < q) {k : Int} : k < expOf q ↔ 2 ^ k ≤ q := by
  have hlog := Int.zpow_le_iff_le_log (b := 2) (by decide) hq (x := k)
  rw [expOf, if_neg hq.ne', abs_of_pos hq, Int.lt_add_one_iff]
  exact_mod_cast hlog.symm

theorem expOf_le {q : ℚ} {n : Int} (hn : 0 ≤ n) (h : |q| < 2 ^ n) : expOf q ≤ n := by
  rw [expOf]
  split
  next => exact hn
  next hq =>
    have hlt : |q| < ((2 : Nat) : ℚ) ^ n := by exact_mod_cast h
    have := (Int.lt_zpow_iff_log_lt (b := 2) (by decide) (abs_pos.mpr hq)).mp hlt
    omega

namespace Format
variable (fmt : Format)

/-- The exponent of the last place of the numbers of this size. -/
def lastPlace (q : ℚ) : Int := max (expOf q - fmt.digits) fmt.minExp

/-- The nearest number when there is no largest one. -/
def nearest (q : ℚ) : ℚ := (roundEven (q / 2 ^ fmt.lastPlace q) : ℚ) * 2 ^ fmt.lastPlace q

def round (q : ℚ) : Value :=
  let r := fmt.nearest q
  if |r| < 2 ^ fmt.maxExp then .finite r else if 0 < r then .inf else .ninf

def ldexp (n : Int) : Value → Value
  | .finite q => fmt.round (q * 2 ^ n)
  | v => v

/-- The finite numbers of the format. -/
structure Number (q : ℚ) : Prop where
  place : ∃ m : Int, q = m * 2 ^ fmt.lastPlace q
  bound : |q| < 2 ^ fmt.maxExp

variable {fmt}

theorem Number.nearest {q : ℚ} (h : fmt.Number q) : fmt.nearest q = q := by
  obtain ⟨m, hm⟩ := h.place
  have hpow : (2 : ℚ) ^ fmt.lastPlace q ≠ 0 := by positivity
  have hdiv : q / 2 ^ fmt.lastPlace q = m := (div_eq_iff hpow).mpr hm
  rw [Format.nearest, hdiv, roundEven_intCast, ← hm]

theorem Number.round {q : ℚ} (h : fmt.Number q) : fmt.round q = .finite q := by
  rw [Format.round, h.nearest]
  exact if_pos h.bound

theorem Number.expOf_bounds {q : ℚ} (h : fmt.Number q) : fmt.minExp ≤ expOf q ∧ expOf q ≤ fmt.maxExp := by
  have hmax : 0 ≤ fmt.maxExp := (Int.natCast_nonneg _).trans fmt.digits_le
  refine ⟨?_, expOf_le hmax h.bound⟩
  by_cases hq : q = 0
  · rw [expOf, if_pos hq]
    exact fmt.minExp_nonpos
  obtain ⟨m, hm⟩ := h.place
  have hone : (1 : ℚ) ≤ |(m : ℚ)| := by
    have hne : m ≠ 0 := fun hzero => hq (by rw [hm, hzero, Int.cast_zero, zero_mul])
    exact_mod_cast Int.one_le_abs hne
  have hpos : (0 : ℚ) < 2 ^ fmt.lastPlace q := by positivity
  have hle : (2 : ℚ) ^ fmt.minExp ≤ |q| := by
    calc (2 : ℚ) ^ fmt.minExp ≤ 2 ^ fmt.lastPlace q := zpow_le_zpow_right₀ (by norm_num) (le_max_right _ _)
      _ ≤ |(m : ℚ)| * 2 ^ fmt.lastPlace q := le_mul_of_one_le_left hpos.le hone
      _ = |q| := by
        conv_rhs => rw [hm, abs_mul, abs_of_pos hpos]
  exact ((zpow_lt_zpow_iff_right₀ (by norm_num)).mp (hle.trans_lt (abs_lt_expOf q))).le

/-- A number is a multiple of the place that many digits behind its first one. -/
theorem Number.eq_mul {q : ℚ} (h : fmt.Number q) :
    ∃ m : Int, q = m * 2 ^ (expOf q - fmt.digits) ∧ |m| < 2 ^ fmt.digits := by
  obtain ⟨m, hm⟩ := h.place
  obtain ⟨k, hk⟩ := Int.eq_ofNat_of_zero_le
    (sub_nonneg.mpr (le_max_left (expOf q - fmt.digits) fmt.minExp))
  have hq : q = ((m * 2 ^ k : Int) : ℚ) * 2 ^ (expOf q - fmt.digits) := by
    have hplace : fmt.lastPlace q = k + (expOf q - fmt.digits) := by
      rw [lastPlace]
      omega
    calc q = m * 2 ^ fmt.lastPlace q := hm
      _ = ((m * 2 ^ k : Int) : ℚ) * 2 ^ (expOf q - fmt.digits) := by
        rw [hplace, zpow_add₀ (by norm_num), zpow_natCast]
        push_cast
        ring
  refine ⟨m * 2 ^ k, hq, ?_⟩
  have hlt := abs_lt_expOf q
  have hsplit : (2 : ℚ) ^ expOf q = 2 ^ fmt.digits * 2 ^ (expOf q - fmt.digits) := by
    rw [← zpow_natCast, ← zpow_add₀ (by norm_num)]
    congr 1
    ring
  have hpos : (0 : ℚ) < 2 ^ (expOf q - fmt.digits) := by positivity
  rw [hsplit] at hlt
  conv_lhs at hlt => rw [hq, abs_mul, abs_of_pos hpos]
  have := lt_of_mul_lt_mul_right hlt hpos.le
  exact_mod_cast this

/-- The integers with at most the digits of the format are numbers. -/
theorem number_intCast {m : Int} (h : |m| < 2 ^ fmt.digits) : fmt.Number m where
  place := by
    have hlt : |(m : ℚ)| < 2 ^ (fmt.digits : Int) := by exact_mod_cast h
    have hplace : fmt.lastPlace m ≤ 0 :=
      max_le (sub_nonpos.mpr (expOf_le (Int.natCast_nonneg _) hlt)) fmt.minExp_nonpos
    obtain ⟨k, hk⟩ := Int.eq_ofNat_of_zero_le (neg_nonneg.mpr hplace)
    refine ⟨m * 2 ^ k, ?_⟩
    have hcancel : (2 : ℚ) ^ k * 2 ^ fmt.lastPlace m = 1 := by
      rw [← zpow_natCast, ← hk, ← zpow_add₀ (by norm_num), neg_add_cancel, zpow_zero]
    push_cast
    rw [mul_assoc, hcancel, mul_one]
  bound := by
    have hlt : |(m : ℚ)| < 2 ^ fmt.digits := by exact_mod_cast h
    calc |(m : ℚ)| < 2 ^ fmt.digits := hlt
      _ = 2 ^ (fmt.digits : Int) := (zpow_natCast _ _).symm
      _ ≤ 2 ^ fmt.maxExp := zpow_le_zpow_right₀ (by norm_num) fmt.digits_le

/-! ### Rounding keeps order -/

/-- A power of two as a multiple of a place that is not above it. -/
theorem zpow_eq_mul {k p : Int} (h : p ≤ k) : (2 : ℚ) ^ k = ((2 ^ (k - p).toNat : Int) : ℚ) * 2 ^ p := by
  rw [Int.cast_pow, Int.cast_ofNat, ← zpow_natCast, Int.toNat_of_nonneg (by omega), ← zpow_add₀ (by norm_num)]
  congr 1
  omega

theorem lastPlace_le {q : ℚ} (hq : 0 < q) {k : Int} (h : q < 2 ^ (k + 1)) (hk : fmt.minExp ≤ k) :
    fmt.lastPlace q ≤ k := by
  have hexp : ¬ k + 1 < expOf q := fun hlt => absurd ((lt_expOf_iff hq).mp hlt) (not_le.mpr h)
  have := fmt.digits_pos
  rw [lastPlace]
  omega

theorem nearest_le_zpow {q : ℚ} (hq : 0 < q) {k : Int} (h : q ≤ 2 ^ k) (hk : fmt.minExp ≤ k) :
    fmt.nearest q ≤ 2 ^ k := by
  have hplace : fmt.lastPlace q ≤ k := by
    refine lastPlace_le hq (h.trans_lt ?_) hk
    exact zpow_lt_zpow_right₀ (by norm_num) (by omega)
  have hpos : (0 : ℚ) < 2 ^ fmt.lastPlace q := by positivity
  rw [zpow_eq_mul hplace] at h ⊢
  have hround := roundEven_le ((div_le_iff₀ hpos).mpr h)
  exact mul_le_mul_of_nonneg_right (by exact_mod_cast hround) hpos.le

theorem zpow_le_nearest {q : ℚ} {k : Int} (h : 2 ^ k ≤ q) (hk : fmt.minExp ≤ k) : 2 ^ k ≤ fmt.nearest q := by
  have hq : 0 < q := lt_of_lt_of_le (by positivity) h
  have hkexp := (lt_expOf_iff hq).mpr h
  have hdigits := fmt.digits_pos
  -- the larger one of the power and the last place is not above the number
  have hmax : max k (fmt.lastPlace q) < expOf q := by
    rw [lastPlace]
    omega
  have hle := (lt_expOf_iff hq).mp hmax
  have hpos : (0 : ℚ) < 2 ^ fmt.lastPlace q := by positivity
  rw [zpow_eq_mul (le_max_right k (fmt.lastPlace q))] at hle
  have hround := le_roundEven ((le_div_iff₀ hpos).mpr hle)
  calc (2 : ℚ) ^ k ≤ 2 ^ max k (fmt.lastPlace q) := zpow_le_zpow_right₀ (by norm_num) (le_max_left _ _)
    _ = ((2 ^ (max k (fmt.lastPlace q) - fmt.lastPlace q).toNat : Int) : ℚ) * 2 ^ fmt.lastPlace q :=
      zpow_eq_mul (le_max_right _ _)
    _ ≤ fmt.nearest q := mul_le_mul_of_nonneg_right (by exact_mod_cast hround) hpos.le

theorem nearest_zero : fmt.nearest 0 = 0 := by
  have hround : roundEven 0 = 0 := by exact_mod_cast roundEven_intCast 0
  rw [Format.nearest, zero_div, hround, Int.cast_zero, zero_mul]

theorem nearest_nonneg {q : ℚ} (hq : 0 ≤ q) : 0 ≤ fmt.nearest q := by
  have hpos : (0 : ℚ) < 2 ^ fmt.lastPlace q := by positivity
  have hzero : ((0 : Int) : ℚ) ≤ q / 2 ^ fmt.lastPlace q := by
    rw [Int.cast_zero]
    exact div_nonneg hq hpos.le
  exact mul_nonneg (by exact_mod_cast le_roundEven hzero) hpos.le

theorem nearest_mono {q r : ℚ} (hq : 0 < q) (h : q ≤ r) : fmt.nearest q ≤ fmt.nearest r := by
  have hr := hq.trans_le h
  have hexp : expOf q ≤ expOf r := by
    have hself := (lt_expOf_iff hq (k := expOf q - 1)).mp (by omega)
    have := (lt_expOf_iff hr).mpr (hself.trans h)
    omega
  have hplace : fmt.lastPlace q ≤ fmt.lastPlace r := by
    rw [lastPlace, lastPlace]
    omega
  rcases hplace.eq_or_lt with heq | hlt
  · have hpos : (0 : ℚ) < 2 ^ fmt.lastPlace r := by positivity
    rw [Format.nearest, Format.nearest, heq]
    have hround := roundEven_mono (div_le_div_of_nonneg_right h hpos.le)
    exact mul_le_mul_of_nonneg_right (by exact_mod_cast hround) hpos.le
  · -- a power of two is between them
    have hdigits := fmt.digits_pos
    rw [lastPlace, lastPlace] at hlt
    have hbelow : q ≤ 2 ^ (expOf r - 1) := by
      refine (le_abs_self q).trans ((abs_lt_expOf q).le.trans ?_)
      exact zpow_le_zpow_right₀ (by norm_num) (by omega)
    have habove := (lt_expOf_iff hr (k := expOf r - 1)).mp (by omega)
    exact (nearest_le_zpow hq hbelow (by omega)).trans (zpow_le_nearest habove (by omega))

/-- A number that does not reach the largest power of two is rounded inside of the range. -/
theorem round_of_le {q : ℚ} (hq : 0 ≤ q) {k : Int} (h : q ≤ 2 ^ k) (hk : fmt.minExp ≤ k)
    (hkmax : k < fmt.maxExp) : fmt.round q = .finite (fmt.nearest q) := by
  refine if_pos ?_
  rw [abs_of_nonneg (nearest_nonneg hq)]
  rcases hq.eq_or_lt with rfl | hq
  · rw [nearest_zero]
    positivity
  · exact (nearest_le_zpow hq h hk).trans_lt (zpow_lt_zpow_right₀ (by norm_num) hkmax)

/-- Between a number with an even last digit and the next number rounding changes in the middle, which
itself is rounded down. -/
theorem nearest_of_even {m e : Int} (hm : m % 2 = 0) (hlow : 2 ^ (fmt.digits - 1) ≤ m)
    (hhigh : m < 2 ^ fmt.digits) (he : fmt.minExp ≤ e) {q : ℚ} (hq : 0 < q) :
    (q ≤ (m + 1 / 2) * 2 ^ e ∧ fmt.nearest q ≤ m * 2 ^ e) ∨
      ((m + 1 / 2) * 2 ^ e < q ∧ (m + 1) * 2 ^ e ≤ fmt.nearest q) := by
  have hdigits := fmt.digits_pos
  have hpos : (0 : ℚ) < 2 ^ e := by positivity
  have hfirst : (2 : ℚ) ^ (e + fmt.digits - 1) ≤ m * 2 ^ e := by
    rw [zpow_eq_mul (show e ≤ e + fmt.digits - 1 by omega)]
    have hexp : (e + fmt.digits - 1 - e).toNat = fmt.digits - 1 := by omega
    rw [hexp]
    exact mul_le_mul_of_nonneg_right (by exact_mod_cast hlow) hpos.le
  have hlast : ((m : ℚ) + 1) * 2 ^ e ≤ 2 ^ (e + fmt.digits) := by
    rw [zpow_eq_mul (show e ≤ e + (fmt.digits : Int) by omega)]
    have hexp : (e + (fmt.digits : Int) - e).toNat = fmt.digits := by omega
    rw [hexp]
    exact mul_le_mul_of_nonneg_right (by exact_mod_cast hhigh) hpos.le
  rcases lt_or_ge q (2 ^ (e + fmt.digits - 1)) with hbelow | hfrom
  · refine .inl ⟨?_, (nearest_le_zpow hq hbelow.le (by omega)).trans hfirst⟩
    linarith
  rcases lt_or_ge q (2 ^ (e + fmt.digits)) with hinside | habove
  · have hexp : expOf q = e + fmt.digits := by
      have h1 := (lt_expOf_iff hq).mpr hfrom
      have h2 : ¬ e + fmt.digits < expOf q := fun h => absurd ((lt_expOf_iff hq).mp h) (not_le.mpr hinside)
      omega
    have hplace : fmt.lastPlace q = e := by
      rw [lastPlace, hexp]
      omega
    rw [Format.nearest, hplace]
    rcases roundEven_of_even hm (q / 2 ^ e) with ⟨hx, hr⟩ | ⟨hx, hr⟩
    · exact .inl ⟨(div_le_iff₀ hpos).mp hx, mul_le_mul_of_nonneg_right (by exact_mod_cast hr) hpos.le⟩
    · exact .inr ⟨(lt_div_iff₀ hpos).mp hx, mul_le_mul_of_nonneg_right (by exact_mod_cast hr) hpos.le⟩
  · refine .inr ⟨?_, hlast.trans (zpow_le_nearest habove (by omega))⟩
    linarith

/-! ### Natural numbers -/

variable (fmt) in
/-- A natural number rounded to the digits of the format. -/
def ofNat (n : Nat) : Nat :=
  CppString.roundHalfEven n (2 ^ (Nat.log 2 n + 1 - fmt.digits)) * 2 ^ (Nat.log 2 n + 1 - fmt.digits)

theorem ofNat_of_lt {n : Nat} (h : n < 2 ^ fmt.digits) : fmt.ofNat n = n := by
  have hlog : Nat.log 2 n + 1 - fmt.digits = 0 := by
    have := Nat.log_lt_of_lt_pow' fmt.digits_pos.ne' h
    omega
  rw [ofNat, hlog, Nat.pow_zero, Nat.mul_one, CppString.roundHalfEven]
  rw [if_pos (by omega), Nat.div_one]

theorem nearest_natCast (n : Nat) : fmt.nearest n = fmt.ofNat n := by
  rcases lt_or_ge n (2 ^ fmt.digits) with h | h
  · rw [ofNat_of_lt h]
    have hnumber : fmt.Number ((n : Int) : ℚ) := number_intCast (by
      rw [Nat.abs_cast]
      exact_mod_cast h)
    exact_mod_cast hnumber.nearest
  · have hn : n ≠ 0 := by
      rintro rfl
      exact absurd h (not_le.mpr (Nat.two_pow_pos _))
    have hlog := (Nat.le_log_iff_pow_le (by decide) hn).mpr h
    have hexp : expOf n = Nat.log 2 n + 1 := by
      rw [expOf, if_neg (by exact_mod_cast hn), abs_of_nonneg (Nat.cast_nonneg n), Int.log_natCast]
    have hplace : fmt.lastPlace n = (Nat.log 2 n + 1 - fmt.digits : Nat) := by
      have := fmt.minExp_nonpos
      rw [lastPlace, hexp]
      omega
    rw [nearest, hplace, ofNat, zpow_natCast]
    have hdiv : (n : ℚ) / 2 ^ (Nat.log 2 n + 1 - fmt.digits) =
        (n : ℚ) / (2 ^ (Nat.log 2 n + 1 - fmt.digits) : Nat) := by push_cast; rfl
    rw [hdiv, roundEven_natCast_div n (by positivity)]
    push_cast
    rfl

theorem ofNat_mono {m n : Nat} (h : m ≤ n) : fmt.ofNat m ≤ fmt.ofNat n := by
  rcases Nat.eq_zero_or_pos m with rfl | hm
  · rw [ofNat_of_lt (Nat.two_pow_pos _)]
    exact Nat.zero_le _
  · have hmono : fmt.nearest m ≤ fmt.nearest n :=
      nearest_mono (by exact_mod_cast hm) (by exact_mod_cast h)
    rw [nearest_natCast, nearest_natCast] at hmono
    exact_mod_cast hmono

theorem ofNat_pos {n : Nat} (h : 0 < n) : 0 < fmt.ofNat n := by
  have hone : (2 : ℚ) ^ (0 : Int) ≤ fmt.nearest n := by
    refine zpow_le_nearest ?_ fmt.minExp_nonpos
    rw [zpow_zero]
    exact_mod_cast h
  rw [nearest_natCast, zpow_zero] at hone
  exact_mod_cast hone

end Format

end BinaryFloat
