import CapsuleCompiler.Decimal.Shortest

/-!
# Decimal.Layout — how the digits of a number are set

A `Layout` says for which decimal exponents a number is written with all its places, and whether a number
without a fraction still shows one. All other numbers are written with an exponent behind `e`, whose sign is
always there. `fixedTenth` is the other way to write a number: rounded to one place, a half to the even digit.
-/

namespace CapsuleCompiler.Decimal

structure Layout where
  /-- Whether a number `d.ddd * 10 ^ e` is written without an exponent. -/
  positional : Int → Bool
  /-- Whether a number without a fraction ends in `.0`. -/
  pointZero : Bool

namespace Layout

def natText (n : Nat) : List Char := Nat.toDigits 10 n

def exponentText (e : Int) : List Char :=
  'e' :: (if e < 0 then '-' else '+') :: natText e.natAbs

/-- All places of `digits * 10 ^ exponent`, with a point if it has a fraction. -/
def places (pointZero : Bool) (x : Scientific) : List Char :=
  let ds := natText x.digits
  if 0 ≤ x.exponent then
    let whole := if x.digits = 0 then ds else ds ++ List.replicate x.exponent.toNat '0'
    if pointZero then whole ++ ['.', '0'] else whole
  else
    let fraction := x.exponent.natAbs
    let ds := List.replicate (fraction + 1 - ds.length) '0' ++ ds
    ds.take (ds.length - fraction) ++ '.' :: ds.drop (ds.length - fraction)

/-- One digit, the others behind a point, and the exponent. -/
def scientific (x : Scientific) : List Char :=
  match natText x.digits with
  | [] => []
  | d :: ds =>
    let e := x.exponent + ds.length
    if ds.isEmpty then d :: exponentText e else d :: '.' :: ds ++ exponentText e

def text (layout : Layout) (x : Scientific) : List Char :=
  let e := x.exponent + (digitCount x.digits : Int) - 1
  if x.digits = 0 || layout.positional e then places layout.pointZero x else scientific x

end Layout

/-- A ratio rounded to one decimal place. -/
def fixedTenth (num den : Nat) : List Char :=
  let tenths := roundDiv (num * 10) den
  Layout.natText (tenths / 10) ++ '.' :: Layout.natText (tenths % 10)

example : fixedTenth 25 4 = ['6', '.', '2'] := by decide +kernel

end CapsuleCompiler.Decimal
