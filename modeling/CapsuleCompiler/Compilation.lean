import CapsuleCompiler.Digest.Sha256
import CapsuleCompiler.Document.Artifact
import CapsuleCompiler.Document.Composition
import CapsuleCompiler.Generator
import CapsuleCompiler.Graph.Cycles
import CapsuleCompiler.Graph.Order

/-!
# Compilation — from a composition to an artifact

The stages follow each other: validation, collection of units, the graph of their references, their modules, and
the files of the shape. An analysis stops before the files. A composition and a shape have a fingerprint, which is
the digest of their common document.
-/

namespace CapsuleCompiler

/-! ### Fingerprint -/

/-- The document whose digest is the fingerprint of a composition and a shape. -/
def fingerprintText (c : Composition) (shape : Shape) : String :=
  (Json.object [("composition", c.toJson), ("shape", .string shape.name)]).text

/-- The fingerprint under a given digest. -/
def fingerprintWith (digest : String → String) (c : Composition) (shape : Shape) : Fingerprint :=
  ⟨digest (fingerprintText c shape)⟩

def fingerprint (c : Composition) (shape : Shape) : Fingerprint :=
  fingerprintWith Digest.sha256Hex c shape

/-! ### Stages -/

structure Compiler where
  catalog : Catalog
  rule : ReferenceRule
  generator : Generator
deriving Inhabited

/-- What is known about a composition before files are made. -/
structure Stages where
  validation : Validation
  units : List CompilationUnit
  graph : DependencyGraph
  resolution : Resolution
deriving Inhabited

/-- The references of units, each unit before those it references. -/
def DependencyGraph.ofUnits (units : List CompilationUnit) : DependencyGraph :=
  units.foldl (fun g u => u.references.foldl (·.addDependency u.id ·) (g.addCapsule u.id)) .empty

namespace Stages

/-- Findings of the validation, on unknown references, and on cycles. -/
def diagnostics (s : Stages) : List Diagnostic :=
  s.validation.diagnostics ++ CompilationUnit.diagnostics s.units ++ s.graph.cycleDiagnostics

def ofValidation (rule : ReferenceRule) (catalog : Catalog) (v : Validation) : Stages :=
  let units := CompilationUnit.collect rule catalog (v.placed.map (·.definition))
  ⟨v, units, .ofUnits units, .ofUnits rule units⟩

end Stages

/-- A composition without its files. -/
structure Analysis where
  units : List CapsuleId
  report : ResolutionReport
  cycles : List (List CapsuleId)
  /-- The capsules behind all they reference, if there is such an order. -/
  order : Option (List CapsuleId)
  diagnostics : List Diagnostic
deriving Inhabited

namespace Compiler

def ofConfig (catalog : Catalog) (config : CompilerConfig) : Compiler :=
  ⟨catalog, .ofPrefixes config.referencePrefixes, .standard config.package⟩

def stages (compiler : Compiler) (c : Composition) : Except CompileError Stages := do
  return .ofValidation compiler.rule compiler.catalog (← c.validate compiler.catalog)

def analyze (compiler : Compiler) (c : Composition) : Except CompileError Analysis := do
  let s ← compiler.stages c
  return {
    units := s.units.map (·.id)
    report := s.resolution.report
    cycles := s.graph.findCycles
    order := s.graph.order?
    diagnostics := s.diagnostics }

def artifactOf (c : Composition) (shape : Shape) (s : Stages) (g : GeneratedFiles)
    (timing : Timing) : Artifact where
  files := g.files
  diagnostics := s.diagnostics
  metadata := {
    shape
    fingerprint := fingerprint c shape
    compiler := compilerId
    nodeCount := c.nodes.length
    primaryFile := g.primaryFile
    resolution := s.resolution.report
    build := g.build
    stats := .measure g.files s.units.length g.npmDependencies timing.durationMs
    compiledAt := timing.compiledAt }

/-- The artifact of a composition in a shape; its timing comes from the caller. -/
def run (compiler : Compiler) (c : Composition) (shape : Shape) (timing : Timing) :
    Except CompileError Artifact := do
  let s ← compiler.stages c
  let generated ←
    compiler.generator.generate ⟨c, s.validation, s.units, s.resolution, s.graph.order?⟩ shape
  return artifactOf c shape s generated timing

end Compiler

end CapsuleCompiler
