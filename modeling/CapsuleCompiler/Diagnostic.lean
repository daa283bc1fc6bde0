/-!
# Diagnostic — findings that go along with a result

A finding has a severity, a kind, a message, and the names of what it is about in an order that means something.
Severities are ordered by how much is lost: nothing, a part of the output, a node or a connection.
-/

namespace CapsuleCompiler

inductive Severity
  | info
  | warning
  | error
deriving DecidableEq, Inhabited

namespace Severity

def name : Severity → String
  | info => "info"
  | warning => "warning"
  | error => "error"

def all : List Severity := [info, warning, error]

def rank : Severity → Nat
  | info => 0
  | warning => 1
  | error => 2

def compare (a b : Severity) : Ordering := Ord.compare a.rank b.rank

end Severity

inductive DiagnosticKind
  | cycleDetected
  | missingDependency
  | invalidPort
  | typeMismatch
  | invalidComposition
  | timeout
  | generationFailure
deriving DecidableEq, Inhabited

namespace DiagnosticKind

def name : DiagnosticKind → String
  | cycleDetected => "CycleDetected"
  | missingDependency => "MissingDependency"
  | invalidPort => "InvalidPort"
  | typeMismatch => "TypeMismatch"
  | invalidComposition => "InvalidComposition"
  | timeout => "Timeout"
  | generationFailure => "GenerationFailure"

def all : List DiagnosticKind :=
  [cycleDetected, missingDependency, invalidPort, typeMismatch, invalidComposition, timeout,
    generationFailure]

end DiagnosticKind

structure Diagnostic where
  severity : Severity
  kind : DiagnosticKind
  message : String
  affected : List String
deriving DecidableEq, Inhabited

namespace Diagnostic

/-- Severity, kind and message in one line. -/
def text (d : Diagnostic) : String :=
  d.severity.name ++ "[" ++ d.kind.name ++ "]: " ++ d.message

/-- The same line with what it is about behind it. -/
def line (d : Diagnostic) : String :=
  if d.affected.isEmpty then d.text else d.text ++ " (" ++ ", ".intercalate d.affected ++ ")"

def hasErrors (ds : List Diagnostic) : Bool := ds.any (·.severity == .error)

end Diagnostic

end CapsuleCompiler
