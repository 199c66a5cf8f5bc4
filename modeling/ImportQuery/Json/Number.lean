/-!
# JSON numbers

The spelling of numbers: an optional minus sign, an integer without leading zeros, and optionally a
fraction and an exponent. A number must be finite when it is computed in doubles. The computation
takes as many digits as fit into 64 bits, rounds them to a double, and scales it by a power of ten,
which is rounded too; so it may exceed the largest double for a number that is just below it.
-/

namespace ImportQuery.Json

/-- The value of a digit. -/
def digitValue (c : Char) : Nat := c.toNat - '0'.toNat

/-- The value of a run of digits. -/
def digitsValue (digits : List Char) : Nat :=
  digits.foldl (fun v c => 10 * v + digitValue c) 0

/-- The nearest double to a natural number, the even one of two, if doubles had no upper end. -/
def nearestDouble (n : Nat) : Nat :=
  let unit := Nat.pow 2 (n.log2 + 1 - 53)
  let below := n / unit
  let half := 2 * (n % unit)
  if half < unit ∨ (half = unit ∧ below % 2 = 0) then below * unit else (below + 1) * unit

/-- A number as it is spelled, except for its sign. -/
structure Numeral where
  /-- The digits before the point. -/
  whole : List Char
  /-- The digits behind the point. -/
  fraction : List Char
  /-- The power of ten that scales the number. -/
  exponent : Int

namespace Numeral

/-- The significand with as many more digits as fit into 64 bits, and how many these are. -/
def fill (significand : Nat) : List Char → Nat × Nat
  | [] => (significand, 0)
  | c :: digits =>
    let more := 10 * significand + digitValue c
    if more < Nat.pow 2 64 then
      let (filled, count) := fill more digits
      (filled, count + 1)
    else (significand, 0)

/-- The digits that count, and the power of ten they are scaled by. A digit before the point that
does not fit is taken for a zero, one behind it is dropped. -/
def scaled (n : Numeral) : Nat × Int :=
  let (whole, fitting) := fill 0 n.whole
  let (significand, behind) := fill whole n.fraction
  (significand, n.exponent + (n.whole.length - fitting : Nat) - (behind : Nat))

/-- The number is finite in doubles. -/
def isFinite (n : Numeral) : Bool :=
  let (significand, scale) := n.scaled
  if significand = 0 ∨ scale < 0 then true
  else if 308 < scale then false
  else
    let power := nearestDouble (Nat.pow 10 scale.toNat)
    nearestDouble (nearestDouble significand * power) < Nat.pow 2 1024

end Numeral

/-- The digits at the start of a text, and what follows them. There must be one. -/
def takeDigits? (text : List Char) : Option (List Char × List Char) :=
  match text.takeWhile Char.isDigit with
  | [] => none
  | digits => some (digits, text.dropWhile Char.isDigit)

/-- The digits before the point: a single zero, or digits that begin with no zero. -/
def takeWhole? : List Char → Option (List Char × List Char)
  | '0' :: rest => some (['0'], rest)
  | text => takeDigits? text

/-- The digits behind the point, if there is a point. -/
def takeFraction? : List Char → Option (List Char × List Char)
  | '.' :: rest => takeDigits? rest
  | text => some ([], text)

/-- The exponent behind its mark. -/
def takeExponent? : List Char → Option (Int × List Char)
  | '+' :: rest => (takeDigits? rest).map fun (ds, rest) => ((digitsValue ds : Int), rest)
  | '-' :: rest => (takeDigits? rest).map fun (ds, rest) => (-(digitsValue ds : Int), rest)
  | text => (takeDigits? text).map fun (ds, rest) => ((digitsValue ds : Int), rest)

/-- The number at the start of a text, and what follows it. -/
def takeNumeral? (text : List Char) : Option (Numeral × List Char) := do
  let unsigned := match text with
    | '-' :: rest => rest
    | _ => text
  let (whole, text) ← takeWhole? unsigned
  let (fraction, text) ← takeFraction? text
  match text with
  | 'e' :: rest | 'E' :: rest =>
    let (exponent, rest) ← takeExponent? rest
    return (⟨whole, fraction, exponent⟩, rest)
  | _ => return (⟨whole, fraction, 0⟩, text)

end ImportQuery.Json
