import CapsuleCompiler.Decimal.Layout
import CapsuleCompiler.Ident

/-!
# Report — which references found their capsule

A report has one entry for each compiled capsule, with the ids it references in the order of its source, parted
into those that are compiled too and those that are not. A rate is the fraction of the former, and one where
there is nothing to resolve.
-/

namespace CapsuleCompiler

structure UnitResolution where
  capsule : CapsuleId
  resolved : List CapsuleId
  unresolved : List CapsuleId
deriving DecidableEq, Inhabited

/-- The part of `total` that is resolved. -/
def resolutionRate (resolved total : Nat) : Decimal.Binary64 :=
  if total = 0 then .one else (Decimal.Binary64.ofRatio resolved total).getD .zero

namespace UnitResolution

def total (u : UnitResolution) : Nat := u.resolved.length + u.unresolved.length

def rate (u : UnitResolution) : Decimal.Binary64 := resolutionRate u.resolved.length u.total

end UnitResolution

structure ResolutionReport where
  units : List UnitResolution
deriving DecidableEq, Inhabited

namespace ResolutionReport

def total (r : ResolutionReport) : Nat := (r.units.map UnitResolution.total).foldl (· + ·) 0

def resolved (r : ResolutionReport) : Nat := (r.units.map (·.resolved.length)).foldl (· + ·) 0

def rate (r : ResolutionReport) : Decimal.Binary64 := resolutionRate r.resolved r.total

/-- The entry of a capsule. -/
def unit? (r : ResolutionReport) (id : CapsuleId) : Option UnitResolution :=
  r.units.find? (·.capsule == id)

end ResolutionReport

/-! ### Rates as text -/

/-- A rate is written with all its places and no more than it has. -/
def rateLayout : Decimal.Layout where
  positional _ := true
  pointZero := false

def rateText (rate : Decimal.Binary64) : String := .ofList (rateLayout.text rate.shortest)

/-- A rate in percent with one place. -/
def percentText (rate : Decimal.Binary64) : String :=
  let percent := (rate.mul ((Decimal.Binary64.ofNat 100).getD .zero)).getD .zero
  .ofList (Decimal.fixedTenth percent.num percent.den ++ ['%'])

/-- One line on a whole report. -/
def ResolutionReport.summary (r : ResolutionReport) : String :=
  "  " ++ toString r.units.length ++ " capsule(s), " ++ toString r.resolved ++ "/" ++
    toString r.total ++ " reference(s) resolved (" ++ percentText r.rate ++ ")"

end CapsuleCompiler
