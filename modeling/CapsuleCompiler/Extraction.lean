import CapsuleCompiler.Diagnostic
import CapsuleCompiler.Reference

/-!
# Extraction — the references of a source

The references of a source are those of its lines, one for each capsule: where several lines name a capsule, the
first gives the place and the path, and the names of all of them are taken together. A reference to an unknown
capsule stays in the list and is reported once, where it first stands.
-/

namespace CapsuleCompiler

/-- What a source says about another capsule. -/
structure Dependency where
  capsule : CapsuleId
  /-- The path as first written. -/
  modulePath : String
  bindings : Import.Bindings
  /-- The number of the first line, counted from one. -/
  line : Nat
deriving DecidableEq, Inhabited

structure Extraction where
  references : List Dependency
  diagnostics : List Diagnostic
deriving Inhabited

namespace Extraction

def ids (e : Extraction) : List CapsuleId := e.references.map (·.capsule)

/-- The lines that make a reference, with their numbers from `number` on. -/
def referenceLines (rule : ReferenceRule) : Nat → List (List Char) → List (Nat × Reference)
  | _, [] => []
  | number, line :: lines =>
    match rule.parseLine? line with
    | some r => (number, r) :: referenceLines rule (number + 1) lines
    | none => referenceLines rule (number + 1) lines

/-- Adds the names of a line to the entry of its capsule, or the entry itself. -/
def addReference (number : Nat) (r : Reference) : List Dependency → List Dependency
  | [] => [⟨r.capsule, r.modulePath, r.bindings, number⟩]
  | d :: ds =>
    if d.capsule = r.capsule then { d with bindings := d.bindings.merge r.bindings } :: ds
    else d :: addReference number r ds

def collect (found : List (Nat × Reference)) : List Dependency :=
  found.foldl (fun ds f => addReference f.1 f.2 ds) []

def missing (consumer : CapsuleId) (d : Dependency) : Diagnostic where
  severity := .warning
  kind := .missingDependency
  message :=
    "capsule \"" ++ consumer.text ++ "\" references unknown capsule \"" ++ d.capsule.text ++ "\" (" ++
      d.modulePath ++ " line " ++ toString d.line ++ ")"
  affected := [consumer.text, d.capsule.text]

/-- The references of a source, where `known` tells the capsules that exist. -/
def ofSource (rule : ReferenceRule) (known : CapsuleId → Bool) (consumer : CapsuleId)
    (source : String) : Extraction :=
  let references := collect (referenceLines rule 1 (Text.lines source.toList))
  ⟨references, (references.filter fun d => !known d.capsule).map (missing consumer)⟩

end Extraction

end CapsuleCompiler
