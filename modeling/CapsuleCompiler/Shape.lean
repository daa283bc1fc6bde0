import CapsuleCompiler.Error

/-!
# Shape — what a composition is compiled into
-/

namespace CapsuleCompiler

/-- A component alone, a component inside a page, or a page with its project around it. -/
inductive Shape
  | component
  | page
  | application
deriving DecidableEq, Inhabited

namespace Shape

def name : Shape → String
  | component => "component"
  | page => "page"
  | application => "application"

def all : List Shape := [component, page, application]

/-- The shape a user means; ASCII case does not matter and `app` is short for `application`. -/
def ofWord? (word : String) : Option Shape :=
  match word.toLower with
  | "component" => some component
  | "page" => some page
  | "application" => some application
  | "app" => some application
  | _ => none

/-- The shape a user means, or the fault that names the word in small letters. -/
def ofWord (word : String) : Except CompileError Shape :=
  match ofWord? word with
  | some shape => .ok shape
  | none => .error (.config (.unknownShape word.toLower))

theorem ofWord?_name (s : Shape) : ofWord? s.name = some s := by
  cases s <;> decide +kernel

end Shape

end CapsuleCompiler
