import CapsuleCompiler.Fingerprint
import CapsuleCompiler.Report
import CapsuleCompiler.Shape
import CapsuleCompiler.Text.Lines

/-!
# Artifact — the result of a compilation

An artifact holds the text of every generated file by its path, the findings, and how it came about. The time
it took and the moment it was made are the only parts of it that the request does not determine.
-/

namespace CapsuleCompiler

/-- The commands that set up an application, build it and start it. -/
structure BuildInstructions where
  install : List String
  build : List String
  run : List String
deriving DecidableEq, Inhabited

namespace BuildInstructions

def ordered (b : BuildInstructions) : List String := b.install ++ b.build ++ b.run

def standard : BuildInstructions := ⟨["npm install"], ["npm run build"], ["npm run start"]⟩

end BuildInstructions

/-- When a compilation ended and how long it took. -/
structure Timing where
  durationMs : Nat
  compiledAt : String
deriving DecidableEq, Inhabited

structure CompilationStats where
  durationMs : Nat
  capsulesProcessed : Nat
  linesOfCode : Nat
  bundleBytes : Nat
  npmDependencies : Nat
deriving DecidableEq, Inhabited

/-- Counts lines and bytes of all files; behind a final line feed there is one more line. -/
def CompilationStats.measure (files : Dict String) (capsules npm durationMs : Nat) :
    CompilationStats where
  durationMs := durationMs
  capsulesProcessed := capsules
  linesOfCode := (files.values.map fun text => Text.cutCount text.toList).foldl (· + ·) 0
  bundleBytes := (files.values.map String.utf8ByteSize).foldl (· + ·) 0
  npmDependencies := npm

structure ArtifactMetadata where
  shape : Shape
  fingerprint : Fingerprint
  /-- The name of the compiler that made the artifact. -/
  compiler : String
  nodeCount : Nat
  /-- The path of the file that the shape is built around. -/
  primaryFile : String
  resolution : ResolutionReport
  build : Option BuildInstructions
  stats : CompilationStats
  compiledAt : String
deriving DecidableEq, Inhabited

structure Artifact where
  files : Dict String
  diagnostics : List Diagnostic
  metadata : ArtifactMetadata
deriving Inhabited

namespace Artifact

def primary? (a : Artifact) : Option String := a.files.get? a.metadata.primaryFile

def hasErrors (a : Artifact) : Bool := Diagnostic.hasErrors a.diagnostics

/-- How many findings of a kind there are. -/
def countOf (a : Artifact) (kind : DiagnosticKind) : Nat :=
  (a.diagnostics.filter (·.kind == kind)).length

end Artifact

/-- The name and version of this compiler. -/
def compilerId : String := "capsula-0.1.0"

end CapsuleCompiler
