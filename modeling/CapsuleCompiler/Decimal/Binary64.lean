/-!
# Decimal.Binary64 — the finite numbers of the binary64 format, exactly

A magnitude of the format is `mantissa * 2 ^ exponent` with a mantissa below `2 ^ 53` and an exponent from
`-1074` to `971`; below `2 ^ 52` the mantissa goes only with the least exponent. All arithmetic is on natural
numbers: a product or a quotient is formed as a ratio and rounded once, to the nearest magnitude and on a tie
to the even mantissa. There is no infinity; an operation that would leave the range has no result.
-/

namespace CapsuleCompiler.Decimal

/-- A quotient rounded to the nearest natural number, a half to the even one. -/
def roundDiv (num den : Nat) : Nat :=
  let q := num / den
  let twice := 2 * (num % den)
  if twice < den then q
  else if den < twice then q + 1
  else q + q % 2

namespace Binary64

def leastExponent : Int := -1074

def greatestExponent : Int := 971

end Binary64

/-- A finite magnitude of the format. -/
structure Binary64 where
  mantissa : Nat
  exponent : Int
  mantissa_lt : mantissa < Nat.pow 2 53
  leastExponent_le : Binary64.leastExponent ≤ exponent
  le_greatestExponent : exponent ≤ Binary64.greatestExponent
  /-- A short mantissa goes with the least exponent only. -/
  normal : Nat.pow 2 52 ≤ mantissa ∨ exponent = Binary64.leastExponent
deriving DecidableEq

namespace Binary64

def zero : Binary64 := ⟨0, leastExponent, by decide, by decide, by decide, .inr rfl⟩

def one : Binary64 := ⟨Nat.pow 2 52, -52, by decide, by decide, by decide, .inl (by decide)⟩

instance : Inhabited Binary64 := ⟨zero⟩

/-- The magnitude of a mantissa and an exponent, if the format has it. -/
def ofParts? (mantissa : Nat) (exponent : Int) : Option Binary64 :=
  if h : mantissa < Nat.pow 2 53 ∧ leastExponent ≤ exponent ∧ exponent ≤ greatestExponent ∧
      (Nat.pow 2 52 ≤ mantissa ∨ exponent = leastExponent) then
    some ⟨mantissa, exponent, h.1, h.2.1, h.2.2.1, h.2.2.2⟩
  else none

def isZero (x : Binary64) : Bool := x.mantissa == 0

/-- Numerator over a denominator that is a power of two. -/
def num (x : Binary64) : Nat := x.mantissa * Nat.pow 2 x.exponent.toNat

def den (x : Binary64) : Nat := Nat.pow 2 (-x.exponent).toNat

/-- `num / den` in units of `2 ^ e`, as a numerator and a denominator. -/
def inUnits (num den : Nat) (e : Int) : Nat × Nat := (num * Nat.pow 2 (-e).toNat, den * Nat.pow 2 e.toNat)

/-- The exponent of the format at which `num / den` has 53 binary digits, or the least one. -/
def exponentFor (num den : Nat) : Int :=
  let e := (num.log2 : Int) - den.log2 - 52
  let (n, d) := inUnits num den e
  max leastExponent (if n < d * Nat.pow 2 52 then e - 1 else e)

/-- The magnitude nearest to `num / den`, if that is in range. -/
def ofRatio (num den : Nat) : Option Binary64 :=
  if num = 0 then some zero
  else
    let e := exponentFor num den
    let (n, d) := inUnits num den e
    let m := roundDiv n d
    if m = Nat.pow 2 53 then ofParts? (Nat.pow 2 52) (e + 1) else ofParts? m e

def mul (x y : Binary64) : Option Binary64 := ofRatio (x.num * y.num) (x.den * y.den)

def div (x y : Binary64) : Option Binary64 := ofRatio (x.num * y.den) (x.den * y.num)

/-- Every integer of up to 64 binary digits is in range, and so is every power of ten up to 308. -/
def ofNat (n : Nat) : Option Binary64 := ofRatio n 1

example : (ofRatio 1 10).map mantissa = some 7205759403792794 := by decide +kernel
example : ofNat (10 ^ 309) = none := by decide +kernel
example : (ofRatio 1 (2 ^ 1074)).map mantissa = some 1 := by decide +kernel

end Binary64

end CapsuleCompiler.Decimal
