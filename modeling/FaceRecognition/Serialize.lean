import FaceRecognition.Library.BinaryFloat
import FaceRecognition.Library.ByteStream
import Mathlib.Data.Nat.Digits.Defs
import Mathlib.Tactic.Ring

/-! `dlib/serialize.h`: integers, floating-point numbers and vectors as bytes. A stream is the list of
the bytes that are left; writing appends. -/
namespace FaceRecognition.Serialize
open ByteStream Reader BinaryFloat

inductive DeserializeError where
  /-- `serialization_error` with its text. -/
  | serialization (info : String)
  /-- A byte behind the end of the buffer is read. -/
  | overread
  /-- Memory for a negative number of elements is requested. -/
  | badAlloc
  deriving DecidableEq

/-- An error that is caught and thrown again with a longer text. -/
def DeserializeError.whileDoing (text : String) : DeserializeError → DeserializeError
  | .serialization info => .serialization (info ++ text)
  | e => e

abbrev In (α : Type*) := Reader UInt8 DeserializeError α

def fail {α : Type*} (e : DeserializeError) : In α := fun _ => .error e

/-! ### Integers -/

/-- The integral types with the default serialization, as wide as on a 64-bit Linux. -/
inductive IntType where
  | short | int | long | ushort | uint | ulong | uint64 | int64 | wchar
  deriving DecidableEq

namespace IntType

/-- `sizeof` -/
def size : IntType → Nat
  | .short | .ushort => 2
  | .int | .uint | .wchar => 4
  | .long | .ulong | .uint64 | .int64 => 8

def signed : IntType → Bool
  | .short | .int | .long | .int64 | .wchar => true
  | .ushort | .uint | .ulong | .uint64 => false

def name : IntType → String
  | .short => "short"
  | .int => "int"
  | .long => "long"
  | .ushort => "unsigned short"
  | .uint => "unsigned int"
  | .ulong => "unsigned long"
  | .uint64 => "uint64"
  | .int64 => "int64"
  | .wchar => "wchar_t"

/-- The value that is left in so many bytes, in two's complement for the signed types. -/
def wrap (t : IntType) (x : Int) : Int :=
  if t.signed then x.bmod (256 ^ t.size) else x % (256 ^ t.size : Nat)

def InRange (t : IntType) (x : Int) : Prop :=
  if t.signed then -((256 ^ t.size : Nat) : Int) ≤ x * 2 ∧ x * 2 < (256 ^ t.size : Nat)
  else 0 ≤ x ∧ x < (256 ^ t.size : Nat)

end IntType

def IntType.failure (t : IntType) : DeserializeError :=
  .serialization ("Error deserializing object of type " ++ t.name)

/-- The loop of `pack_int`, which stops when nothing is left: the bytes behind the control byte. -/
def packLoop : Nat → Int → List UInt8
  | 0, _ => []
  | n + 1, item => UInt8.ofNat (item % 256).toNat :: if item / 256 = 0 then [] else packLoop n (item / 256)

/-- `pack_int`. Negating the smallest number is assumed to wrap around. -/
def packInt (t : IntType) (item : Int) : List UInt8 :=
  let neg := t.signed && item < 0
  let buf := packLoop t.size (if neg then t.wrap (item * -1) else item)
  (UInt8.ofNat buf.length ||| if neg then 0x80 else 0) :: buf

/-- The loop of `unpack_int`, from the last byte to the first. -/
def unpackLoop (t : IntType) : List UInt8 → Int
  | [] => 0
  | b :: buf => t.wrap (unpackLoop t buf * 256 + b.toNat)

/-- `unpack_int` in `deserialize`, with the same assumption. Without any byte the loop starts at
`buf[255]`, the buffer having eight bytes. -/
def unpackInt (t : IntType) : In Int := fun s =>
  match s with
  | [] => .error t.failure
  | ch :: s =>
    let is_negative := t.signed && ch &&& 0x80 ≠ 0
    let size := (ch &&& if t.signed then 0x0F else 0x8F).toNat
    if t.size < size then .error t.failure
    else if s.length < size then .error t.failure
    else if size = 0 then .error .overread
    else
      let item := unpackLoop t (s.take size)
      .ok (if is_negative then t.wrap (item * -1) else item, s.drop size)

/-! ### Floating-point numbers -/

structure FloatDetails where
  mantissa : Int
  exponent : Int
  deriving DecidableEq

namespace FloatDetails

def isInf : Int := 32000
def isNinf : Int := 32001
def isNan : Int := 32002

/-- Shifts off low bytes that are zero. -/
def compactLoop : Nat → Int → Int → FloatDetails
  | 0, mantissa, exponent => ⟨mantissa, exponent⟩
  | n + 1, mantissa, exponent =>
    if mantissa % 256 = 0 then compactLoop n (mantissa / 256) (exponent + 8) else ⟨mantissa, exponent⟩

/-- `convert_from_T`; the exponents of all formats are far from the ends of an `int16`. -/
def ofValue (fmt : Format) : Value → FloatDetails
  | .inf => ⟨0, isInf⟩
  | .ninf => ⟨0, isNinf⟩
  | .nan => ⟨0, isNan⟩
  | .finite val =>
    let digits := min fmt.digits 63
    compactLoop 8 (truncate (fractionOf val * 2 ^ digits)) (expOf val - digits)

/-- `convert_to_T` -/
def toValue (fmt : Format) (d : FloatDetails) : Value :=
  if d.exponent < isInf then fmt.ldexp d.exponent (fmt.round d.mantissa)
  else if d.exponent = isInf then .inf
  else if d.exponent = isNinf then .ninf
  else .nan

def serialize (d : FloatDetails) : List UInt8 := packInt .int64 d.mantissa ++ packInt .short d.exponent

def deserialize : In FloatDetails :=
  (unpackInt .int64).bind fun mantissa => (unpackInt .short).bind fun exponent =>
    Reader.pure ⟨mantissa, exponent⟩

end FloatDetails

section Floats
variable (readText : List UInt8 → Option (Value × List UInt8))

/-- `in.get() != ' '` ends an old number. -/
def afterText (v : Value) : In Value
  | 0x20 :: s => .ok (v, s)
  | _ => .error (.serialization "Error deserializing a floating point number.")

/-- `old_deserialize_floating_point`, where `readText` is `in >> item`. -/
def oldDeserializeFloatingPoint : In Value
  | 0x69 :: s => afterText .inf (s.drop 2)
  | 0x6E :: s => afterText .ninf (s.drop 3)
  | 0x4E :: s => afterText .nan (s.drop 2)
  | s => match readText s with
    | some (v, s) => afterText v s
    | none => .error (.serialization "Error deserializing a floating point number.")

/-- `serialize_floating_point` -/
def serializeFloatingPoint (fmt : Format) (v : Value) : List UInt8 :=
  (FloatDetails.ofValue fmt v).serialize

/-- `deserialize_floating_point`. The end of the stream, where no text can be read, counts as the old
format. -/
def deserializeFloatingPoint (fmt : Format) : In Value
  | [] => .error (.serialization "Error deserializing a floating point number.")
  | ch :: s =>
    if ch &&& 0x70 = 0 then
      ((FloatDetails.deserialize.bind fun d => Reader.pure (d.toValue fmt)).mapError
        (.whileDoing "\n   while deserializing a floating point number.")) (ch :: s)
    else oldDeserializeFloatingPoint readText (ch :: s)

end Floats

/-! ### Vectors -/

section Vectors
variable {α : Type*}

/-- `serialize` of a `std::vector` -/
def serializeVector (serialize : α → List UInt8) (item : List α) : List UInt8 :=
  packInt .ulong item.length ++ item.flatMap serialize

/-- `deserialize` of a `std::vector` -/
def deserializeVector (deserialize : In α) : In (List α) :=
  ((unpackInt .ulong).bind fun size => deserialize.times size.toNat).mapError
    (.whileDoing "\n   while deserializing object of type std::vector")

/-- `serialize` of a `matrix<T,0,1>`, which starts with the negated dimensions. -/
def serializeColumn (serialize : α → List UInt8) (item : List α) : List UInt8 :=
  packInt .long (-item.length) ++ (packInt .long (-1) ++ item.flatMap serialize)

/-- The elements of a `matrix<T,0,1>` behind its dimensions, which are positive in an older format. -/
def deserializeElements (deserialize : In α) (nr nc : Int) : In (List α) :=
  let negative := nr < 0 ∨ nc < 0
  let nr := if negative then IntType.long.wrap (nr * -1) else nr
  let nc := if negative then IntType.long.wrap (nc * -1) else nc
  if nc ≠ 1 then fail (.serialization "Error while deserializing a dlib::matrix.  Invalid columns")
  else if nr < 0 then fail .badAlloc
  else deserialize.times nr.toNat

/-- `deserialize` of a `matrix<T,0,1>` -/
def deserializeColumn (deserialize : In α) : In (List α) :=
  ((unpackInt .long).bind fun nr => (unpackInt .long).bind fun nc =>
    deserializeElements deserialize nr nc).mapError (.whileDoing "\n   while deserializing a dlib::matrix")

/-- `serialize` of a `vector<T,2>` -/
def serializePoint (serialize : α → List UInt8) (item : α × α) : List UInt8 :=
  serialize item.1 ++ serialize item.2

def deserializePoint (deserialize : In α) : In (α × α) :=
  (deserialize.bind fun x => deserialize.bind fun y => Reader.pure (x, y)).mapError
    (.whileDoing "\n   while deserializing object of type vector")

end Vectors

end FaceRecognition.Serialize
