import CapsuleCompiler.Error
import CapsuleCompiler.Json.Record

/-!
# Document.Basic — reading a document whole
-/

namespace CapsuleCompiler

open Json (Reader)

/-- What a document says, or the fault that keeps it from saying anything. -/
def ofDocument (reader : Reader α) (document : String) : Except CompileError α :=
  match reader.run document with
  | .ok x => .ok x
  | .error fault => .error (.serialization fault)

/-- A member for a value that may be left out. -/
def optionalMember (key : String) (x : Option String) : List (String × Json) :=
  match x with
  | none => []
  | some s => [(key, .string s)]

end CapsuleCompiler
