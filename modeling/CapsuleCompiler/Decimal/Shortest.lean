import CapsuleCompiler.Decimal.Binary64

/-!
# Decimal.Shortest — the shortest decimal that reads back

A magnitude of the binary64 format stands for all reals that round to it, an interval whose ends belong to
it when the mantissa is even. Among the decimals in that interval `shortest` takes one with the fewest digits,
and of those the nearest to the magnitude. It tries one digit, two digits and so on: on each decimal grid only
the two neighbours of the magnitude need a look, because if any point of the grid is in the interval then one
of these is. Seventeen digits always suffice.
-/

namespace CapsuleCompiler.Decimal

/-- `digits * 10 ^ exponent`. -/
structure Scientific where
  digits : Nat
  exponent : Int
deriving DecidableEq, Inhabited

namespace Scientific

/-- A power of ten as numerator and denominator. -/
def power (k : Int) : Nat × Nat := (Nat.pow 10 k.toNat, Nat.pow 10 (-k).toNat)

def dropZeros : Nat → Nat → Int → Scientific
  | 0, d, k => ⟨d, k⟩
  | fuel + 1, d, k => if d % 10 = 0 then dropZeros fuel (d / 10) (k + 1) else ⟨d, k⟩

/-- The same value without zeros at the end of its digits. -/
def trimmed (x : Scientific) : Scientific :=
  if x.digits = 0 then ⟨0, 0⟩ else dropZeros x.digits.log2 x.digits x.exponent

end Scientific

/-- How many decimal digits a positive number has. -/
def digitCount (n : Nat) : Nat := (Nat.toDigits 10 n).length

/-- The `k` with `10 ^ k ≤ num / den < 10 ^ (k + 1)`, for a positive ratio. -/
def decimalExponent (num den : Nat) : Int :=
  if den ≤ num then (digitCount (num / den) : Int) - 1
  else
    let d := digitCount (den / num)
    if den ≤ num * Nat.pow 10 (d - 1) then 1 - (d : Int) else -(d : Int)

namespace Binary64

/-- Whether a ratio rounds to `x`; the gap below a power of two is half the gap above. -/
def covers (x : Binary64) (num den : Nat) : Bool :=
  let n := 4 * num * x.den
  let v := 4 * x.num * den
  let unit := den * Nat.pow 2 x.exponent.toNat
  let above := 2 * unit
  let below := if x.mantissa = Nat.pow 2 52 ∧ leastExponent < x.exponent then unit else 2 * unit
  if x.mantissa % 2 = 0 then v ≤ n + below && n ≤ v + above
  else v < n + below && n < v + above

/-- The decimal with `count` digits that lies nearest to `x` among those that read back as `x`. -/
def onGrid? (x : Binary64) (count : Nat) : Option Scientific :=
  let k := decimalExponent x.num x.den + 1 - count
  let (p, q) := Scientific.power k
  let scaledNum := x.num * q
  let scaledDen := x.den * p
  let low := scaledNum / scaledDen
  let hit (d : Nat) : Bool := x.covers (d * p) q
  match hit low, hit (low + 1) with
  | true, true => some ⟨roundDiv scaledNum scaledDen, k⟩
  | true, false => some ⟨low, k⟩
  | false, true => some ⟨low + 1, k⟩
  | false, false => none

def firstGrid (x : Binary64) : List Nat → Scientific
  | [] => ⟨0, 0⟩
  | count :: counts =>
    match x.onGrid? count with
    | some d => d.trimmed
    | none => firstGrid x counts

/-- The shortest decimal that reads back as `x`. -/
def shortest (x : Binary64) : Scientific :=
  if x.isZero then ⟨0, 0⟩ else x.firstGrid ((List.range 17).map (· + 1))

example : (ofParts? 1 (-1074)).map shortest = some ⟨5, -324⟩ := by decide +kernel
example : (ofParts? 7205759403792794 (-56)).map shortest = some ⟨1, -1⟩ := by decide +kernel

end Binary64

end CapsuleCompiler.Decimal
