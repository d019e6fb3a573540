import FaceRecognition.Serialize
import Mathlib.Tactic.IntervalCases

/-! What is written is read back: integers also into another type that holds them, the numbers of a
floating-point format exactly, and vectors of such values. -/
namespace FaceRecognition.Serialize
open ByteStream Reader BinaryFloat

namespace IntType
variable {t : IntType} {x y : Int}

theorem size_pos (t : IntType) : 0 < t.size := by cases t <;> decide

theorem size_le (t : IntType) : t.size ≤ 8 := by cases t <;> decide

theorem wrap_congr (h : x % (256 ^ t.size : Nat) = y % (256 ^ t.size : Nat)) : t.wrap x = t.wrap y := by
  rw [wrap, wrap]
  split
  · rw [← Int.emod_bmod x, h, Int.emod_bmod]
  · exact h

theorem wrap_emod (t : IntType) (x : Int) :
    t.wrap x % (256 ^ t.size : Nat) = x % (256 ^ t.size : Nat) := by
  rw [wrap]
  split
  · exact Int.bmod_emod
  · exact Int.emod_emod_of_dvd _ dvd_rfl

theorem InRange.wrap (h : t.InRange x) : t.wrap x = x := by
  rw [InRange] at h
  rw [IntType.wrap]
  split at h
  next hs => rw [if_pos hs, Int.bmod_eq_of_le_mul_two h.1 h.2]
  next hs => rw [if_neg hs, Int.emod_eq_of_lt h.1 h.2]

end IntType

/-- The number that bytes in little endian order stand for. -/
def ofBytes (buf : List UInt8) : Nat := Nat.ofDigits 256 (buf.map UInt8.toNat)

theorem ofBytes_cons (b : UInt8) (buf : List UInt8) : ofBytes (b :: buf) = b.toNat + 256 * ofBytes buf := by
  rw [ofBytes, List.map_cons, Nat.ofDigits_cons]
  rfl

theorem toNat_lowByte (item : Int) : ((UInt8.ofNat (item % 256).toNat).toNat : Int) = item % 256 := by
  have h0 : 0 ≤ item % 256 := Int.emod_nonneg item (by decide)
  have h1 : item % 256 < 256 := Int.emod_lt_of_pos item (by decide)
  rw [UInt8.toNat_ofNat']
  omega

theorem emod_mul (x : Int) {a b : Int} (ha : 0 < a) (hb : 0 < b) :
    x % (a * b) = x % a + a * (x / a % b) := by
  have hx : x = x % a + a * (x / a % b) + a * b * (x / a / b) := by
    calc x = x % a + a * (x / a) := (Int.emod_add_mul_ediv x a).symm
      _ = x % a + a * (x / a % b + b * (x / a / b)) := by rw [Int.emod_add_mul_ediv (x / a) b]
      _ = x % a + a * (x / a % b) + a * b * (x / a / b) := by ring
  have hr0 := Int.emod_nonneg x ha.ne'
  have hr1 := Int.emod_lt_of_pos x ha
  have hq0 := Int.emod_nonneg (x / a) hb.ne'
  have hq1 := Int.emod_lt_of_pos (x / a) hb
  conv_lhs => rw [hx, Int.add_mul_emod_self_left]
  apply Int.emod_eq_of_lt
  · positivity
  · nlinarith

/-- The bytes hold the number modulo their range, whichever its sign. -/
theorem ofBytes_packLoop (n : Nat) (item : Int) :
    (ofBytes (packLoop n item) : Int) = item % (256 ^ n : Nat) := by
  induction n generalizing item with
  | zero => simp [packLoop, ofBytes]
  | succ n ih =>
    have hrest : (ofBytes (if item / 256 = 0 then [] else packLoop n (item / 256)) : Int) =
        item / 256 % (256 ^ n : Nat) := by
      split
      next h => simp [ofBytes, h]
      next => exact ih (item / 256)
    rw [packLoop, ofBytes_cons]
    push_cast
    rw [toNat_lowByte, hrest, pow_succ', ← emod_mul item (by decide) (by positivity)]
    push_cast
    rfl

theorem packLoop_length (n : Nat) (item : Int) (hn : 0 < n) :
    0 < (packLoop n item).length ∧ (packLoop n item).length ≤ n := by
  induction n generalizing item with
  | zero => exact absurd hn (lt_irrefl 0)
  | succ n ih =>
    rw [packLoop]
    split
    next => simp
    next =>
      rw [List.length_cons]
      cases n with
      | zero => simp [packLoop]
      | succ n =>
        have := ih (item / 256) (Nat.succ_pos n)
        omega

/-- No more bytes are written than the number needs. -/
theorem packLoop_length_le {n k : Nat} {item : Int} (hk : 0 < k) (h0 : 0 ≤ item)
    (hlt : item < (256 ^ k : Nat)) : (packLoop n item).length ≤ k := by
  induction k generalizing n item with
  | zero => exact absurd hk (lt_irrefl 0)
  | succ k ih =>
    cases n with
    | zero => simp [packLoop]
    | succ n =>
      rw [packLoop]
      split
      next => simp
      next hne =>
        have hdiv : item / 256 < (256 ^ k : Nat) := by
          apply Int.ediv_lt_of_lt_mul (by decide)
          rw [pow_succ] at hlt
          exact_mod_cast hlt
        have hkpos : 0 < k := by
          by_contra hzero
          obtain rfl : k = 0 := by omega
          have hnonneg := Int.ediv_nonneg h0 (by decide : (0 : Int) ≤ 256)
          rw [pow_zero] at hdiv
          omega
        rw [List.length_cons]
        have := ih (n := n) hkpos (Int.ediv_nonneg h0 (by decide)) hdiv
        omega

theorem unpackLoop_eq (t : IntType) (buf : List UInt8) (hbuf : buf ≠ []) :
    unpackLoop t buf = t.wrap (ofBytes buf) := by
  induction buf with
  | nil => exact absurd rfl hbuf
  | cons b buf ih =>
    rw [unpackLoop, ofBytes_cons]
    apply IntType.wrap_congr
    cases buf with
    | nil => simp [unpackLoop, ofBytes]
    | cons b' buf =>
      rw [ih (List.cons_ne_nil _ _), Int.add_emod, Int.mul_emod, IntType.wrap_emod, ← Int.mul_emod,
        ← Int.add_emod]
      push_cast
      ring_nf

/-! ### The control byte -/

def control (size : Nat) (neg : Bool) : UInt8 := UInt8.ofNat size ||| if neg then 0x80 else 0

theorem control_sign {size : Nat} (h : size ≤ 8) (neg : Bool) :
    decide (control size neg &&& 0x80 ≠ 0) = neg := by
  cases neg <;> interval_cases size <;> decide

theorem control_size {size : Nat} (h : size ≤ 8) (neg : Bool) :
    (control size neg &&& 0x0F).toNat = size := by
  cases neg <;> interval_cases size <;> decide

/-- For a reader of an unsigned type, the sign makes the size too large. -/
theorem control_size_unsigned {size : Nat} (h : size ≤ 8) (neg : Bool) :
    (control size neg &&& 0x8F).toNat = if neg then 128 + size else size := by
  cases neg <;> interval_cases size <;> decide

/-- The bits that tell the format of a floating-point number from text. -/
theorem control_not_text {size : Nat} (h : size ≤ 8) (neg : Bool) : control size neg &&& 0x70 = 0 := by
  cases neg <;> interval_cases size <;> decide

/-! ### Packing and unpacking -/

/-- The bytes behind the control byte. -/
def packedBytes (t : IntType) (item : Int) : List UInt8 :=
  packLoop t.size (if t.signed && item < 0 then t.wrap (item * -1) else item)

theorem packInt_eq (t : IntType) (item : Int) :
    packInt t item = control (packedBytes t item).length (t.signed && item < 0) :: packedBytes t item := rfl

section Range
variable {t u : IntType} {item : Int}

theorem IntType.InRange.signed (h : u.InRange item) (hneg : item < 0) : u.signed = true := by
  rw [IntType.InRange] at h
  split at h
  next hs => exact hs
  next => omega

theorem IntType.InRange.abs_lt (h : u.InRange item) :
    (if item < 0 then item * -1 else item) < (256 ^ u.size : Nat) := by
  have hpos : (0 : Int) < (256 ^ u.size : Nat) := by positivity
  rw [IntType.InRange] at h
  split at h
  · split <;> omega
  · split <;> omega

theorem ofBytes_lt (buf : List UInt8) : ofBytes buf < 256 ^ buf.length := by
  have := Nat.ofDigits_lt_base_pow_length (b := 256) (l := buf.map UInt8.toNat) (by decide) fun d hd => by
    obtain ⟨b, -, rfl⟩ := List.mem_map.mp hd
    exact b.toNat_lt
  rwa [List.length_map] at this

theorem packedBytes_length_le (t : IntType) (item : Int) : (packedBytes t item).length ≤ 8 :=
  (packLoop_length _ _ t.size_pos).2.trans t.size_le

/-- The bytes hold the absolute value. -/
theorem packedBytes_value (ht : t.InRange item) :
    (ofBytes (packedBytes t item) : Int) = if item < 0 then item * -1 else item := by
  have hlt := ht.abs_lt
  rw [packedBytes, ofBytes_packLoop]
  by_cases hneg : item < 0
  · rw [if_pos hneg] at hlt ⊢
    rw [if_pos (by simp [ht.signed hneg, hneg]), IntType.wrap_emod, Int.emod_eq_of_lt (by omega) hlt]
  · rw [if_neg hneg] at hlt ⊢
    rw [if_neg (by simp [hneg]), Int.emod_eq_of_lt (by omega) hlt]

/-- There is at least one of them, and no more than the absolute value needs. -/
theorem packedBytes_length (ht : t.InRange item) {k : Nat} (hk : 0 < k) :
    0 < (packedBytes t item).length ∧ ((packedBytes t item).length ≤ k ↔
      (if item < 0 then item * -1 else item) < (256 ^ k : Nat)) := by
  have hlength := packLoop_length t.size (if t.signed && item < 0 then t.wrap (item * -1) else item)
    t.size_pos
  refine ⟨hlength.1, fun hle => ?_, fun hlt => ?_⟩
  · rw [← packedBytes_value ht]
    exact_mod_cast (ofBytes_lt _).trans_le (Nat.pow_le_pow_right (by decide) hle)
  by_cases hneg : item < 0
  · have hts := ht.signed hneg
    rw [packedBytes, if_pos (by simp [hts, hneg])]
    rw [if_pos (by simp [hts, hneg])] at hlength
    rw [if_pos hneg] at hlt
    by_cases hmin : item * 2 = -((256 ^ t.size : Nat) : Int)
    · -- the smallest number is its own negative and takes all the bytes of its type
      refine hlength.2.trans (not_lt.mp fun hkt => ?_)
      have hpow : 256 ^ k * 256 ≤ 256 ^ t.size := by
        rw [← pow_succ]
        exact Nat.pow_le_pow_right (by decide) hkt
      have hpow' : ((256 ^ k : Nat) : Int) * 256 ≤ (256 ^ t.size : Nat) := by exact_mod_cast hpow
      omega
    · have hpos : t.InRange (item * -1) := by
        rw [IntType.InRange, if_pos hts] at ht ⊢
        omega
      rw [hpos.wrap]
      exact packLoop_length_le hk (by omega) hlt
  · rw [if_neg hneg] at hlt
    rw [packedBytes, if_neg (by simp [hneg])]
    exact packLoop_length_le hk (by omega) hlt

end Range

/-- The errors that a program catches as `serialization_error`. -/
def IsSerializationError (e : DeserializeError) : Prop := ∃ info, e = .serialization info

theorem IsSerializationError.whileDoing (text : String) (e : DeserializeError)
    (h : IsSerializationError e) : IsSerializationError (e.whileDoing text) := by
  obtain ⟨info, rfl⟩ := h
  exact ⟨info ++ text, rfl⟩

theorem IntType.failure_expected (t : IntType) : IsSerializationError t.failure := ⟨_, rfl⟩

/-- What `unpack_int` does behind a control byte whose sign its type accepts. -/
theorem unpackInt_control {u : IntType} {size : Nat} {neg : Bool} (hpos : 0 < size) (h8 : size ≤ 8)
    (hsign : neg = true → u.signed = true) (s : List UInt8) :
    unpackInt u (control size neg :: s) =
      if u.size < size ∨ s.length < size then .error u.failure
      else .ok (if neg then u.wrap (unpackLoop u (s.take size) * -1) else unpackLoop u (s.take size),
        s.drop size) := by
  have hmask : (control size neg &&& if u.signed then 0x0F else 0x8F).toNat = size := by
    cases hs : u.signed with
    | true => exact control_size h8 neg
    | false =>
      have hneg : neg = false := by
        cases neg with
        | true => exact absurd (hsign rfl) (by simp [hs])
        | false => rfl
      simp only [Bool.false_eq_true, if_false]
      rw [control_size_unsigned h8, hneg]
      rfl
  have hnegative : (u.signed && decide (control size neg &&& 0x80 ≠ 0)) = neg := by
    rw [control_sign h8]
    cases neg with
    | true => rw [hsign rfl, Bool.true_and]
    | false => rw [Bool.and_false]
  simp only [unpackInt, hmask, hnegative]
  by_cases hsize : u.size < size
  · rw [if_pos hsize, if_pos (Or.inl hsize)]
  · by_cases hshort : s.length < size
    · rw [if_neg hsize, if_pos hshort, if_pos (Or.inr hshort)]
    · rw [if_neg hsize, if_neg hshort, if_neg hpos.ne', if_neg (not_or.mpr ⟨hsize, hshort⟩)]

section Reading
variable {t u : IntType} {item : Int}

theorem sign_accepted (hsign : item < 0 → u.signed = true) (h : (t.signed && decide (item < 0)) = true) :
    u.signed = true :=
  hsign (of_decide_eq_true (Bool.and_eq_true_iff.mp h).2)

/-- The number is read modulo the range of the type when its absolute value fits into the bytes. -/
theorem unpackInt_packed (ht : t.InRange item) (hsign : item < 0 → u.signed = true)
    (hlt : (if item < 0 then item * -1 else item) < (256 ^ u.size : Nat)) (rest : List UInt8) :
    unpackInt u (packInt t item ++ rest) = .ok (u.wrap item, rest) := by
  obtain ⟨hpos, hle⟩ := packedBytes_length ht u.size_pos
  have hbuf : packedBytes t item ≠ [] := List.ne_nil_of_length_pos hpos
  have hfits : ¬ (u.size < (packedBytes t item).length ∨
      (packedBytes t item ++ rest).length < (packedBytes t item).length) := by
    have := hle.mpr hlt
    rw [List.length_append]
    omega
  rw [packInt_eq, List.cons_append,
    unpackInt_control hpos (packedBytes_length_le t item) (sign_accepted hsign), if_neg hfits,
    List.take_left, List.drop_left, unpackLoop_eq u _ hbuf, packedBytes_value ht]
  by_cases hneg : item < 0
  · have hback : u.wrap (u.wrap (item * -1) * -1) = u.wrap item := by
      apply IntType.wrap_congr
      rw [Int.mul_emod, IntType.wrap_emod, ← Int.mul_emod]
      ring_nf
    simpa [hneg, ht.signed hneg] using hback
  · simp [hneg]

theorem unpackInt_negative (ht : t.InRange item) (hneg : item < 0) (hu : u.signed = false)
    (rest : List UInt8) : unpackInt u (packInt t item ++ rest) = .error u.failure := by
  have hmask : (control (packedBytes t item).length true &&& 0x8F).toNat =
      128 + (packedBytes t item).length := by
    rw [control_size_unsigned (packedBytes_length_le t item)]
    rfl
  have hsize := u.size_le
  rw [packInt_eq, List.cons_append]
  simp only [unpackInt, hu, ht.signed hneg, hneg, decide_true, Bool.and_true, Bool.false_eq_true, if_false,
    hmask]
  rw [if_pos (by omega)]

theorem unpackInt_large (ht : t.InRange item) (hsign : item < 0 → u.signed = true)
    (hge : (256 ^ u.size : Nat) ≤ (if item < 0 then item * -1 else item)) (rest : List UInt8) :
    unpackInt u (packInt t item ++ rest) = .error u.failure := by
  obtain ⟨hpos, hle⟩ := packedBytes_length ht u.size_pos
  have hsize : u.size < (packedBytes t item).length := not_le.mp fun h => not_lt.mpr hge (hle.mp h)
  rw [packInt_eq, List.cons_append,
    unpackInt_control hpos (packedBytes_length_le t item) (sign_accepted hsign), if_pos (Or.inl hsize)]

/-- What a type reads of an integer that any type wrote: nothing but an error when the integer is
negative and the type is not, or when the absolute value needs more bytes than the type has; else the
integer itself, or, when the type does not hold it, what is left of it modulo the range. -/
theorem integer_read (ht : t.InRange item) (rest : List UInt8) :
    unpackInt u (packInt t item ++ rest) =
      if (item < 0 ∧ u.signed = false) ∨ (256 ^ u.size : Nat) ≤ |item| then .error u.failure
      else .ok (u.wrap item, rest) := by
  have habs : |item| = if item < 0 then item * -1 else item := by
    split
    next h => rw [abs_of_neg h, mul_neg_one]
    next h => rw [abs_of_nonneg (not_lt.mp h)]
  rw [habs]
  by_cases hsign : item < 0 ∧ u.signed = false
  · rw [if_pos (Or.inl hsign), unpackInt_negative ht hsign.1 hsign.2]
  · have haccept : item < 0 → u.signed = true := by
      intro hneg
      by_contra hfalse
      exact hsign ⟨hneg, Bool.eq_false_of_not_eq_true hfalse⟩
    by_cases hge : (256 ^ u.size : Nat) ≤ (if item < 0 then item * -1 else item)
    · rw [if_pos (Or.inr hge), unpackInt_large ht haccept hge]
    · rw [if_neg (not_or.mpr ⟨hsign, hge⟩), unpackInt_packed ht haccept (not_le.mp hge)]

/-- The smallest `int`, written as a `long`. -/
theorem integer_read_min :
    unpackInt .int (packInt .long (-2147483648) ++ [7]) =
      if ((-2147483648 : Int) < 0 ∧ IntType.int.signed = false) ∨
        ((256 ^ IntType.int.size : Nat) : Int) ≤ |-2147483648| then .error IntType.int.failure
      else .ok (IntType.int.wrap (-2147483648), [7]) :=
  integer_read (by rw [IntType.InRange]; decide) [7]

/-- An integer is read back by every type that holds it, and cut off bytes are a serialization error. -/
theorem unpackInt_exact (ht : t.InRange item) (hu : u.InRange item) :
    Exact IsSerializationError (unpackInt u) (packInt t item) item where
  reads rest := by
    rw [unpackInt_packed ht hu.signed hu.abs_lt, hu.wrap]
  fails p hp hne := by
    obtain ⟨hpos, -⟩ := packedBytes_length ht u.size_pos
    cases p with
    | nil => exact ⟨_, rfl, u.failure_expected⟩
    | cons ch p =>
      rw [packInt_eq] at hp hne
      obtain ⟨rfl, htail⟩ := List.cons_prefix_cons.mp hp
      have hlt : p.length < (packedBytes t item).length := by
        apply lt_of_le_of_ne htail.length_le
        intro heq
        exact hne (by rw [htail.eq_of_length heq])
      refine ⟨_, ?_, u.failure_expected⟩
      rw [unpackInt_control hpos (packedBytes_length_le t item) (sign_accepted hu.signed),
        if_pos (Or.inr hlt)]

end Reading

/-! ### Floating-point numbers -/

/-- A format whose numbers fit into `float_details`. -/
structure Portable (fmt : Format) : Prop where
  digits_le : fmt.digits ≤ 63
  minExp_ge : -16000 ≤ fmt.minExp
  maxExp_le : fmt.maxExp ≤ 16384

theorem portable_float : Portable float := ⟨by decide, by decide, by decide⟩

/-- The values of a type with this format. -/
def IsValue (fmt : Format) : Value → Prop
  | .finite q => fmt.Number q
  | _ => True

namespace FloatDetails

/-- Shifting off zero bytes keeps the number. -/
theorem compactLoop_spec (n : Nat) (mantissa exponent : Int) :
    (((compactLoop n mantissa exponent).mantissa : ℚ) * 2 ^ (compactLoop n mantissa exponent).exponent =
      mantissa * 2 ^ exponent) ∧
    |(compactLoop n mantissa exponent).mantissa| ≤ |mantissa| ∧
    exponent ≤ (compactLoop n mantissa exponent).exponent ∧
    (compactLoop n mantissa exponent).exponent ≤ exponent + 8 * n := by
  induction n generalizing mantissa exponent with
  | zero => exact ⟨rfl, le_rfl, le_rfl, by simp [compactLoop]⟩
  | succ n ih =>
    rw [compactLoop]
    split
    next hzero =>
      obtain ⟨k, rfl⟩ := Int.dvd_of_emod_eq_zero hzero
      rw [Int.mul_ediv_cancel_left _ (by decide)]
      obtain ⟨hvalue, habs, hlo, hhi⟩ := ih k (exponent + 8)
      refine ⟨?_, ?_, by omega, by push_cast; omega⟩
      · rw [hvalue, zpow_add₀ (by norm_num)]
        push_cast
        ring
      · have h256 : |(256 : Int)| = 256 := rfl
        have := abs_nonneg k
        rw [abs_mul, h256]
        omega
    next => exact ⟨rfl, le_rfl, le_rfl, by push_cast; omega⟩

/-- The mantissa and the exponent of a number. -/
theorem ofValue_number {fmt : Format} (hfmt : Portable fmt) {q : ℚ} (h : fmt.Number q) :
    ((ofValue fmt (.finite q)).mantissa : ℚ) * 2 ^ (ofValue fmt (.finite q)).exponent = q ∧
      |(ofValue fmt (.finite q)).mantissa| < 2 ^ fmt.digits ∧
      fmt.minExp - fmt.digits ≤ (ofValue fmt (.finite q)).exponent ∧
      (ofValue fmt (.finite q)).exponent ≤ fmt.maxExp - fmt.digits + 64 := by
  obtain ⟨m, hm, hlt⟩ := h.eq_mul
  have hscaled : fractionOf q * 2 ^ fmt.digits = m := by
    rw [fractionOf]
    generalize expOf q = e at hm ⊢
    have hpow : (2 : ℚ) ^ e ≠ 0 := by positivity
    calc q / 2 ^ e * 2 ^ fmt.digits = m * (2 ^ (e - fmt.digits) * 2 ^ (fmt.digits : Int)) / 2 ^ e := by
          rw [hm, zpow_natCast]
          ring
      _ = m := by rw [← zpow_add₀ (by norm_num), sub_add_cancel, mul_div_assoc, div_self hpow, mul_one]
  have heq : ofValue fmt (.finite q) = compactLoop 8 m (expOf q - fmt.digits) := by
    rw [ofValue, min_eq_left hfmt.digits_le, hscaled, truncate_intCast]
  obtain ⟨hvalue, habs, hlo, hhi⟩ := compactLoop_spec 8 m (expOf q - fmt.digits)
  obtain ⟨hmin, hmax⟩ := h.expOf_bounds
  rw [heq]
  exact ⟨hvalue.trans hm.symm, habs.trans_lt hlt, by omega, by omega⟩

/-- What is written of a value are an `int64` and an `int16`. -/
theorem ofValue_inRange {fmt : Format} (hfmt : Portable fmt) {v : Value} (h : IsValue fmt v) :
    IntType.int64.InRange (ofValue fmt v).mantissa ∧ IntType.short.InRange (ofValue fmt v).exponent := by
  cases v with
  | inf => simp [ofValue, isInf, IntType.InRange, IntType.signed, IntType.size]
  | ninf => simp [ofValue, isNinf, IntType.InRange, IntType.signed, IntType.size]
  | nan => simp [ofValue, isNan, IntType.InRange, IntType.signed, IntType.size]
  | finite q =>
    obtain ⟨-, hlt, hlo, hhi⟩ := ofValue_number hfmt h
    have hdigits := hfmt.digits_le
    have hmin := hfmt.minExp_ge
    have hmax := hfmt.maxExp_le
    have hpow : (2 : Int) ^ fmt.digits ≤ 2 ^ 63 := pow_le_pow_right₀ (by decide) hdigits
    obtain ⟨hneg, hpos⟩ := abs_lt.mp hlt
    constructor
    · simp only [IntType.InRange, IntType.signed, IntType.size, if_true]
      constructor
      · norm_num
        omega
      · norm_num
        omega
    · simp only [IntType.InRange, IntType.signed, IntType.size, if_true]
      constructor
      · norm_num
        omega
      · norm_num
        omega

/-- A value is the same after the conversion to a mantissa and an exponent and back. -/
theorem toValue_ofValue {fmt : Format} (hfmt : Portable fmt) {v : Value} (h : IsValue fmt v) :
    (ofValue fmt v).toValue fmt = v := by
  cases v with
  | inf => rfl
  | ninf => rfl
  | nan => rfl
  | finite q =>
    obtain ⟨hvalue, hlt, -, hhi⟩ := ofValue_number hfmt h
    have hmax := hfmt.maxExp_le
    have hfinite : (ofValue fmt (.finite q)).exponent < isInf := by
      rw [isInf]
      omega
    rw [toValue, if_pos hfinite, (Format.number_intCast hlt).round, Format.ldexp, hvalue,
      Format.Number.round h]

end FloatDetails

variable {readText : List UInt8 → Option (Value × List UInt8)}

/-- The first byte of a number is that of its mantissa and no text. -/
theorem serializeFloatingPoint_head (fmt : Format) (v : Value) :
    ∃ ch s, serializeFloatingPoint fmt v = ch :: s ∧ ch &&& 0x70 = 0 :=
  ⟨_, _, rfl, control_not_text (packedBytes_length_le _ _) _⟩

/-- A value of a floating-point type is read back. -/
theorem float_exact {fmt : Format} (hfmt : Portable fmt) {v : Value} (h : IsValue fmt v) :
    Exact IsSerializationError (deserializeFloatingPoint readText fmt) (serializeFloatingPoint fmt v) v := by
  obtain ⟨hmantissa, hexponent⟩ := FloatDetails.ofValue_inRange hfmt h
  have hdetails : Exact IsSerializationError FloatDetails.deserialize (serializeFloatingPoint fmt v)
      (FloatDetails.ofValue fmt v) :=
    (unpackInt_exact hmantissa hmantissa).bind (unpackInt_exact hexponent hexponent).bind_pure
  have hnew := (hdetails.bind_pure (f := fun d => d.toValue fmt)).mapError
    (IsSerializationError.whileDoing "\n   while deserializing a floating point number.")
  rw [FloatDetails.toValue_ofValue hfmt h] at hnew
  obtain ⟨ch, s, hhead, hnot⟩ := serializeFloatingPoint_head fmt v
  rw [hhead] at hnew ⊢
  constructor
  · intro rest
    rw [List.cons_append, deserializeFloatingPoint, if_pos hnot]
    exact hnew.reads rest
  · intro p hp hne
    cases p with
    | nil => exact ⟨_, rfl, _, rfl⟩
    | cons c p =>
      obtain ⟨rfl, -⟩ := List.cons_prefix_cons.mp hp
      rw [deserializeFloatingPoint, if_pos hnot]
      exact hnew.fails _ hp hne

section Containers
variable {α : Type*} {serialize : α → List UInt8} {deserialize : In α}

theorem inRange_ulong {n : Nat} (h : n < 2 ^ 64) : IntType.ulong.InRange n := by
  simp only [IntType.InRange, IntType.signed, IntType.size, Bool.false_eq_true, if_false]
  omega

theorem vector_exact {item : List α} (hlen : item.length < 2 ^ 64)
    (h : ∀ a ∈ item, Exact IsSerializationError deserialize (serialize a) a) :
    Exact IsSerializationError (deserializeVector deserialize) (serializeVector serialize item) item := by
  have hsize := inRange_ulong hlen
  exact ((unpackInt_exact hsize hsize).bind (by rw [Int.toNat_natCast]; exact Exact.times h)).mapError
    (IsSerializationError.whileDoing _)

theorem inRange_long {n : Nat} (h : n < 2 ^ 63) :
    IntType.long.InRange (-(n : Int)) ∧ IntType.long.InRange n := by
  simp only [IntType.InRange, IntType.signed, IntType.size, if_true]
  omega

theorem column_exact {item : List α} (hlen : item.length < 2 ^ 63)
    (h : ∀ a ∈ item, Exact IsSerializationError deserialize (serialize a) a) :
    Exact IsSerializationError (deserializeColumn deserialize) (serializeColumn serialize item) item := by
  obtain ⟨hneg, hpos⟩ := inRange_long hlen
  have hone : IntType.long.InRange (-1) := (inRange_long (n := 1) (by decide)).1
  have hrows : IntType.long.wrap (-(item.length : Int) * -1) = item.length := by
    rw [neg_mul_neg, mul_one, hpos.wrap]
  have helements : deserializeElements deserialize (-item.length) (-1) =
      deserialize.times item.length := by
    have hnegative : -(item.length : Int) < 0 ∨ (-1 : Int) < 0 := Or.inr (by decide)
    have hcolumns : IntType.long.wrap (-1 * -1) = 1 := by decide
    simp only [deserializeElements, hnegative, if_true, hcolumns, hrows, ne_eq, not_true_eq_false, if_false,
      Int.toNat_natCast]
    exact if_neg (by omega)
  refine ((unpackInt_exact hneg hneg).bind ((unpackInt_exact hone hone).bind ?_)).mapError
    (IsSerializationError.whileDoing _)
  rw [helements]
  exact Exact.times h

theorem point_exact (item : α × α)
    (h1 : Exact IsSerializationError deserialize (serialize item.1) item.1)
    (h2 : Exact IsSerializationError deserialize (serialize item.2) item.2) :
    Exact IsSerializationError (deserializePoint deserialize) (serializePoint serialize item) item :=
  (h1.bind h2.bind_pure).mapError (IsSerializationError.whileDoing _)

end Containers

end FaceRecognition.Serialize
