import CapsuleCompiler.Document.Basic

/-!
# Document.Diagnostic — findings as documents
-/

namespace CapsuleCompiler

open Json (Fields Reader)

def Severity.reader : Reader Severity := .constants (Severity.all.map fun s => (s.name, s))

def DiagnosticKind.reader : Reader DiagnosticKind :=
  .constants (DiagnosticKind.all.map fun k => (k.name, k))

namespace Diagnostic

def fields : Fields (Severity × DiagnosticKind × String × List String × Unit) :=
  .field "severity" Severity.reader .fault <|
  .field "kind" DiagnosticKind.reader .fault <|
  .field "message" .string .fault <|
  .field "affectedIds" (.list .string) (.anywhere []) .done

def reader : Reader Diagnostic :=
  .map (fun (severity, kind, message, affected, _) => ⟨severity, kind, message, affected⟩)
    (.record "Diagnostic" fields)

def toJson (d : Diagnostic) : Json :=
  .object [("severity", .string d.severity.name), ("kind", .string d.kind.name),
    ("message", .string d.message), ("affectedIds", .strings d.affected)]

end Diagnostic

end CapsuleCompiler
