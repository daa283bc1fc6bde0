import CapsuleCompiler.Json.Fault

/-!
# Json.Number — numerals and the numbers they stand for

A numeral is read as three runs of digits. What it stands for follows from them alone: without a point and an
exponent it is an integer, if 64 bits hold it, and a float otherwise. A float takes its digits into a
significand of 64 bits as long as they fit; later digits before the point only raise the power of ten, later
digits behind it are dropped. The significand is then rounded and scaled by the power of ten, each step
correctly rounded, so that a long numeral may miss the nearest float by its last place.
-/

namespace CapsuleCompiler.Json

open Decimal (Binary64)

/-- The digits of a numeral; an empty fraction means that there is no point. -/
structure Numeral where
  whole : List Char
  fraction : List Char
  /-- Sign (true for a negative one) and digits of the exponent. -/
  exponent : Option (Bool × List Char)

inductive Number
  | integer (n : Int)
  | float (negative : Bool) (magnitude : Binary64)

namespace Numeral

/-! ### Reading

A missing digit is an invalid number, but where the text ends it is the fault `atEnd`. -/

def someDigits (atEnd : Fault) (cs : List Char) : Except Fault (List Char × List Char) :=
  match cs.takeWhile Char.isDigit with
  | [] => .error (if cs.isEmpty then atEnd else .invalidNumber)
  | ds => .ok (ds, cs.dropWhile Char.isDigit)

/-- A zero stands alone before the point. -/
def wholePart (atEnd : Fault) : List Char → Except Fault (List Char × List Char)
  | '0' :: cs => if cs.head?.any Char.isDigit then .error .invalidNumber else .ok (['0'], cs)
  | cs => someDigits atEnd cs

def fractionPart (atEnd : Fault) : List Char → Except Fault (List Char × List Char)
  | '.' :: cs => someDigits atEnd cs
  | cs => .ok ([], cs)

def exponentPart (atEnd : Fault) : List Char → Except Fault (Option (Bool × List Char) × List Char)
  | c :: cs =>
    if c = 'e' || c = 'E' then
      let (negative, cs) :=
        match cs with
        | '+' :: cs => (false, cs)
        | '-' :: cs => (true, cs)
        | cs => (false, cs)
      do
        let (ds, rest) ← someDigits atEnd cs
        return (some (negative, ds), rest)
    else .ok (none, c :: cs)
  | [] => .ok (none, [])

/-- A numeral without its sign. -/
def read (atEnd : Fault) (cs : List Char) : Except Fault (Numeral × List Char) := do
  let (whole, cs) ← wholePart atEnd cs
  let (fraction, cs) ← fractionPart atEnd cs
  let (exponent, cs) ← exponentPart atEnd cs
  return (⟨whole, fraction, exponent⟩, cs)

/-! ### Value -/

def digitValue (c : Char) : Nat := c.toNat - '0'.toNat

def digitsValue (ds : List Char) : Nat := ds.foldl (fun n d => 10 * n + digitValue d) 0

/-- Digits behind a significand as far as 64 bits hold them, and the digits left over. -/
def absorb : Nat → List Char → Nat × List Char
  | significand, [] => (significand, [])
  | significand, d :: ds =>
    let next := 10 * significand + digitValue d
    if next < Nat.pow 2 64 then absorb next ds else (significand, d :: ds)

def powerOfTen (k : Nat) : Binary64 := (Binary64.ofNat (Nat.pow 10 k)).getD .zero

/-- `x * 10 ^ e` by the powers of ten that the format has; a smaller power is reached in steps. -/
def scale (x : Binary64) (e : Int) : Except Fault Binary64 :=
  if e.natAbs ≤ 308 then
    let p := powerOfTen e.natAbs
    let scaled := if 0 ≤ e then x.mul p else x.div p
    match scaled with
    | some y => .ok y
    | none => .error .numberOutOfRange
  else if x.isZero then .ok x
  else if 0 ≤ e then .error .numberOutOfRange
  else scale ((x.div (powerOfTen 308)).getD .zero) (e + 308)
termination_by e.natAbs
decreasing_by omega

/-- An exponent beyond 31 bits decides alone, whatever the digits before it. -/
def magnitude (significand : Nat) (power : Int) (exponent : Option (Bool × List Char)) :
    Except Fault Binary64 :=
  let x := (Binary64.ofNat significand).getD .zero
  match exponent with
  | none => scale x power
  | some (negative, ds) =>
    let e := digitsValue ds
    if Nat.pow 2 31 ≤ e then
      if significand ≠ 0 && !negative then .error .numberOutOfRange else .ok .zero
    else scale x (if negative then power - e else power + e)

def toFloat (negative : Bool) (x : Numeral) : Except Fault Number := do
  let (significand, left) := absorb 0 x.whole
  let (significand, dropped) := absorb significand x.fraction
  let power := (left.length : Int) - ((x.fraction.length : Int) - dropped.length)
  return .float negative (← magnitude significand power x.exponent)

/-- A negative integer is a float if it is zero or below the least of 64 bits. -/
def toNumber (negative : Bool) (x : Numeral) : Except Fault Number :=
  let n := digitsValue x.whole
  let fits := if negative then 0 < n && n ≤ Nat.pow 2 63 else n < Nat.pow 2 64
  if x.fraction.isEmpty && x.exponent.isNone && fits then
    .ok (.integer (if negative then -(n : Int) else n))
  else toFloat negative x

end Numeral

namespace Number

/-- A number that starts at its first digit or at its sign. -/
def read (cs : List Char) : Except Fault (Number × List Char) :=
  let (negative, cs) :=
    match cs with
    | '-' :: cs => (true, cs)
    | cs => (false, cs)
  do
    let (numeral, rest) ← Numeral.read .eofValue cs
    return (← numeral.toNumber negative, rest)

def toJson : Number → Json
  | integer n => .integer n
  | float negative magnitude => .float negative magnitude

def toFound : Number → Found
  | integer n => .integer n
  | float negative magnitude => .float negative magnitude

end Number

end CapsuleCompiler.Json
