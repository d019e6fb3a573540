import FaceRecognition.Library.CppString

/-! The text that `strtof` accepts, and `stof` on top of it. Rounding to the float
format is not fixed here: it is a partial function of the number that was read,
undefined where the format reports a range error. -/
namespace CppString

/-- `finite neg m b e` is the number `± m * b ^ e`. -/
inductive FloatLiteral where
  | nan (neg : Bool)
  | inf (neg : Bool)
  | finite (neg : Bool) (mantissa base : Nat) (exponent : Int)
  deriving DecidableEq

def digitValue (radix : Nat) (c : Char) : Option Nat :=
  let v := if c.isDigit then some (c.toNat - '0'.toNat)
    else if 'a' ≤ c.toLower ∧ c.toLower ≤ 'f' then some (c.toLower.toNat - 'a'.toNat + 10)
    else none
  v.filter (· < radix)

/-- The longest run of digits, and what follows it. -/
def readDigits (radix : Nat) : Str → List Nat × Str
  | [] => ([], [])
  | c :: s => match digitValue radix c with
    | some v => let (vs, r) := readDigits radix s; (v :: vs, r)
    | none => ([], c :: s)

def ofDigits (radix : Nat) (ds : List Nat) : Nat := ds.foldl (fun a d => a * radix + d) 0

/-- An exponent needs its marker and a digit; otherwise it is not part of the number. -/
def readExponent (marker : Char) : Str → Int
  | [] => 0
  | c :: s =>
    if c.toLower = marker then
      let (neg, t) := sign s
      let e := ofDigits 10 (readDigits 10 t).1
      if neg then -(e : Int) else e
    else 0

/-- Digits with at most one point among them and an exponent: mantissa and exponent.
`perDigit` is how much one digit behind the point takes off the exponent. -/
def readScaled (radix perDigit : Nat) (marker : Char) (s : Str) : Option (Nat × Int) :=
  let (int, r) := readDigits radix s
  let (frac, r) := match r with
    | '.' :: t => readDigits radix t
    | _ => ([], r)
  if int ++ frac = [] then none
  else some (ofDigits radix (int ++ frac), readExponent marker r - perDigit * frac.length)

def startsWith (w s : Str) : Bool := w.isPrefixOf (s.map Char.toLower)

def strtof (s : Str) : Option FloatLiteral :=
  let (neg, t) := sign (s.dropWhile isSpace)
  if startsWith "inf".toList t then some (.inf neg)
  else if startsWith "nan".toList t then some (.nan neg)
  else
    let hex := if startsWith "0x".toList t then readScaled 16 4 'p' (t.drop 2) else none
    match hex with
    | some (m, e) => some (.finite neg m 2 e)
    | none => (readScaled 10 1 'e' t).map fun (m, e) => .finite neg m 10 e

def stof {F : Type*} (ofLiteral : FloatLiteral → Option F) (s : Str) : Except StdException F :=
  match strtof s with
  | none => .error (.invalidArgument "stof".toList)
  | some l => match ofLiteral l with
    | some x => .ok x
    | none => .error (.outOfRange "stof".toList)

/-- Whatever goes wrong, the message is the name of the function. -/
theorem stof_error {F : Type*} {ofLiteral : FloatLiteral → Option F} {s : Str} {e : StdException}
    (h : stof ofLiteral s = .error e) : e.what = "stof".toList := by
  unfold stof at h
  split at h
  · cases h
    rfl
  · split at h
    · cases h
    · cases h
      rfl

example : strtof "".toList = none := by decide
example : strtof " -1.25e2x".toList = some (.finite true 125 10 0) := by decide
example : strtof "0x1.8p1".toList = some (.finite false 24 2 (-3)) := by decide

end CppString
