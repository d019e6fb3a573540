import FaceRecognition.Library.CppString
import Mathlib.Tactic.Ring

/-! The text that `printf` gives a ratio of natural numbers with the format `%.2f`. -/
namespace CppString

/-- The integer nearest to `a / b`; a tie goes to the even one. -/
def roundHalfEven (a b : Nat) : Nat :=
  if 2 * (a % b) < b ∨ 2 * (a % b) = b ∧ a / b % 2 = 0 then a / b else a / b + 1

/-- Below an even number after rounding is below its lower half-way point before. -/
theorem roundHalfEven_lt_iff {a b k : Nat} (hb : 0 < b) (hk : 0 < k) :
    roundHalfEven a b < 2 * k ↔ 2 * a < (4 * k - 1) * b := by
  have ha := Nat.div_add_mod a b
  have hr := Nat.mod_lt a hb
  have hbound : (4 * k - 1) * b + b = b * (4 * k) := by
    rw [Nat.sub_mul, Nat.one_mul, Nat.sub_add_cancel (Nat.le_mul_of_pos_left b (by omega)), Nat.mul_comm]
  rw [roundHalfEven]
  generalize a / b = q at ha
  generalize a % b = r at ha hr
  rcases Nat.lt_trichotomy (q + 1) (2 * k) with hq | hq | hq
  · have hle : b * (2 * q + 4) ≤ b * (4 * k) := Nat.mul_le_mul_left b (by omega)
    have hexp : b * (2 * q + 4) = 2 * (b * q) + 4 * b := by ring
    refine iff_of_true ?_ (by omega)
    split <;> omega
  · -- the quotient is odd, so a tie goes up
    have hexp : b * (4 * k) = 2 * (b * q) + 2 * b := by
      rw [show 4 * k = 2 * q + 2 by omega]
      ring
    constructor
    · intro h
      split at h <;> omega
    · intro h
      rw [if_pos (by omega)]
      omega
  · have hle : b * (4 * k) ≤ b * (2 * q) := Nat.mul_le_mul_left b (by omega)
    have hexp : b * (2 * q) = 2 * (b * q) := by ring
    refine iff_of_false ?_ (by omega)
    split <;> omega

/-- Two digits after the point. -/
def fixed2 (a b : Nat) : Str :=
  let hundredths := roundHalfEven (100 * a) b
  CppString.toString (hundredths / 100) ++
    ['.', Nat.digitChar (hundredths / 10 % 10), Nat.digitChar (hundredths % 10)]

theorem toString_length_le_iff {n k : Nat} (hk : 0 < k) :
    (CppString.toString n).length ≤ k ↔ n < 10 ^ k :=
  Nat.length_toDigits_le_iff (by decide) hk

theorem fixed2_length (a b : Nat) :
    (fixed2 a b).length = (CppString.toString (roundHalfEven (100 * a) b / 100)).length + 3 := by
  simp [fixed2]

/-- A ratio has at most two digits before the point unless it rounds to a hundred. -/
theorem fixed2_length_le_iff {a b : Nat} (hb : 0 < b) :
    (fixed2 a b).length ≤ 5 ↔ 200 * a < 19999 * b := by
  have hround : roundHalfEven (100 * a) b < 2 * 5000 ↔ 2 * (100 * a) < (4 * 5000 - 1) * b :=
    roundHalfEven_lt_iff hb (by decide)
  have hdigits := toString_length_le_iff (n := roundHalfEven (100 * a) b / 100) (k := 2) (by decide)
  rw [fixed2_length]
  omega

end CppString
