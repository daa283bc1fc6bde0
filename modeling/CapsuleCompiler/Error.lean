import CapsuleCompiler.Diagnostic
import CapsuleCompiler.Json.Fault
import CapsuleCompiler.Port

/-!
# Error — why a whole request fails

Only what stops a request is an error; whatever leaves a usable result is a diagnostic beside it. Each class of
errors has its causes, and a `described` one for a cause that comes with its own words. `message` words an error,
and `toDiagnostic` reports it on the channel of the diagnostics.
-/

namespace CapsuleCompiler

/-- What makes a composition unusable. -/
inductive CompositionFault
  | repeatedInstance (id : InstanceId)
  | strayBinding (port : String) (id : InstanceId)
  | noDependencyOrder (id : CapsuleId)
  | described (message : String) (affected : List String)

namespace CompositionFault

def message : CompositionFault → String
  | repeatedInstance id => "duplicate instance id \"" ++ id.text ++ "\""
  | strayBinding port id => "binding \"" ++ port ++ "\" targets unplaced instance \"" ++ id.text ++ "\""
  | noDependencyOrder _ => "cyclic capsule references have no dependency order"
  | described message _ => message

def affected : CompositionFault → List String
  | repeatedInstance id => [id.text]
  | strayBinding _ id => [id.text]
  | noDependencyOrder id => [id.text]
  | described _ affected => affected

end CompositionFault

/-- What keeps code from being generated. -/
inductive GenerationFault
  | unterminated (excerpt : String)
  | unbound (key : String)
  | idNotCanonical (id : CapsuleId)
  | noSymbol (id : CapsuleId)
  | noStateName (source : PortRef)
  | invalidProp (name context : String)
  | described (message : String)

namespace GenerationFault

def message : GenerationFault → String
  | unterminated excerpt => "unterminated placeholder near \"" ++ excerpt ++ "\""
  | unbound key => "template placeholder \"" ++ key ++ "\" has no value"
  | idNotCanonical id =>
    "capsule id \"" ++ id.text ++ "\" is not a canonical kebab-case identifier"
  | noSymbol id => "capsule \"" ++ id.text ++ "\" does not yield a valid component symbol"
  | noStateName source =>
    "output \"" ++ source.text ++ "\" does not yield a valid state variable name"
  | invalidProp name context => "\"" ++ name ++ "\" is not a valid prop name (" ++ context ++ ")"
  | described message => message

end GenerationFault

/-- What is wrong with a setting. -/
inductive ConfigFault
  | zeroTimeout
  | noReferencePrefixes
  | unknownShape (word : String)
  | badDigest (hex : String)
  | described (message : String)

namespace ConfigFault

def message : ConfigFault → String
  | zeroTimeout => "timeoutMs must be greater than zero"
  | noReferencePrefixes => "at least one non-empty reference prefix is required"
  | unknownShape word =>
    "unknown shape \"" ++ word ++ "\" (expected component, page or application)"
  | badDigest hex => "invalid SHA-256 hex string: " ++ hex
  | described message => message

end ConfigFault

inductive CompileError
  | timeout (budgetMs : Nat)
  | generation (fault : GenerationFault)
  | invalidComposition (fault : CompositionFault)
  | isolation (message : String)
  | config (fault : ConfigFault)
  | notFound (kind id : String)
  | io (path reason : String)
  | serialization (fault : Json.Fault)

namespace CompileError

def message : CompileError → String
  | timeout budgetMs => "compilation timed out after " ++ toString budgetMs ++ " ms"
  | generation fault => "code generation failed: " ++ fault.message
  | invalidComposition fault => "invalid composition: " ++ fault.message
  | isolation message => "isolated execution failed: " ++ message
  | config fault => "invalid configuration: " ++ fault.message
  | notFound kind id => kind ++ " not found: " ++ id
  | io path reason => "I/O error at " ++ path ++ ": " ++ reason
  | serialization fault => "serialization error: " ++ fault.message

def diagnosticKind : CompileError → DiagnosticKind
  | timeout _ => .timeout
  | invalidComposition _ => .invalidComposition
  | _ => .generationFailure

def affected : CompileError → List String
  | invalidComposition fault => fault.affected
  | notFound _ id => [id]
  | _ => []

def toDiagnostic (e : CompileError) : Diagnostic :=
  ⟨.error, e.diagnosticKind, e.message, e.affected⟩

/-- The isolated run ended without an answer. -/
def workerVanished : CompileError := isolation "background compilation ended without a result"

end CompileError

end CapsuleCompiler
