import CapsuleCompiler.Artifact
import CapsuleCompiler.Document.Capsule

/-!
# Document.Artifact — artifacts and reports as documents

The moment of compilation is kept as the text it is written in.
-/

namespace CapsuleCompiler

open Json (Fields Reader)

def Shape.reader : Reader Shape := .constants (Shape.all.map fun s => (s.name, s))

namespace UnitResolution

def fields : Fields (CapsuleId × List CapsuleId × List CapsuleId × Unit) :=
  .field "capsuleId" CapsuleId.reader .fault <|
  .field "resolved" (.list CapsuleId.reader) .fault <|
  .field "unresolved" (.list CapsuleId.reader) .fault .done

def reader : Reader UnitResolution :=
  .map (fun (capsule, resolved, unresolved, _) => ⟨capsule, resolved, unresolved⟩)
    (.record "UnitResolution" fields)

def toJson (u : UnitResolution) : Json :=
  .object [("capsuleId", .string u.capsule.text), ("resolved", .strings (u.resolved.map (·.text))),
    ("unresolved", .strings (u.unresolved.map (·.text)))]

end UnitResolution

namespace ResolutionReport

def fields : Fields (List UnitResolution × Unit) :=
  .field "units" (.list UnitResolution.reader) .fault .done

def reader : Reader ResolutionReport :=
  .map (fun (units, _) => ⟨units⟩) (.record "ResolutionReport" fields)

def toJson (r : ResolutionReport) : Json :=
  .object [("units", .array (r.units.map UnitResolution.toJson))]

end ResolutionReport

namespace BuildInstructions

def fields : Fields (List String × List String × List String × Unit) :=
  .field "install" (.list .string) .fault <|
  .field "build" (.list .string) .fault <|
  .field "run" (.list .string) .fault .done

def reader : Reader BuildInstructions :=
  .map (fun (install, build, run, _) => ⟨install, build, run⟩) (.record "BuildInstructions" fields)

def toJson (b : BuildInstructions) : Json :=
  .object [("install", .strings b.install), ("build", .strings b.build), ("run", .strings b.run)]

end BuildInstructions

namespace CompilationStats

def fields : Fields (Nat × Nat × Nat × Nat × Nat × Unit) :=
  .field "durationMs" (.natural "u64") .fault <|
  .field "capsulesProcessed" (.natural "usize") .fault <|
  .field "linesOfCode" (.natural "usize") .fault <|
  .field "bundleBytes" (.natural "usize") .fault <|
  .field "npmDependencies" (.natural "usize") .fault .done

def reader : Reader CompilationStats :=
  .map (fun (durationMs, capsules, lines, bytes, npm, _) =>
      ⟨durationMs, capsules, lines, bytes, npm⟩)
    (.record "CompilationStats" fields)

def toJson (s : CompilationStats) : Json :=
  .object [("durationMs", .integer s.durationMs), ("capsulesProcessed", .integer s.capsulesProcessed),
    ("linesOfCode", .integer s.linesOfCode), ("bundleBytes", .integer s.bundleBytes),
    ("npmDependencies", .integer s.npmDependencies)]

end CompilationStats

/-- A moment, which is read as text. -/
def timestampReader : Reader String := fun _ cs =>
  match Json.skipSpace cs with
  | '"' :: cs => Json.stringBody cs
  | cs => .error (Reader.mismatch "an RFC 3339 formatted date and time string" cs)

namespace ArtifactMetadata

def fields : Fields (Shape × String × String × Nat × String × ResolutionReport ×
    Option BuildInstructions × CompilationStats × String × Unit) :=
  .field "shape" Shape.reader .fault <|
  .field "fingerprint" .string .fault <|
  .field "compiler" .string .fault <|
  .field "nodeCount" (.natural "usize") .fault <|
  .field "primaryFile" .string .fault <|
  .field "resolution" ResolutionReport.reader .fault <|
  .field "build" (.optional BuildInstructions.reader) (.inObject none) <|
  .field "stats" CompilationStats.reader .fault <|
  .field "compiledAt" timestampReader .fault .done

def reader : Reader ArtifactMetadata :=
  .map (fun (shape, fingerprint, compiler, nodeCount, primaryFile, resolution, build, stats,
        compiledAt, _) =>
      ⟨shape, ⟨fingerprint⟩, compiler, nodeCount, primaryFile, resolution, build, stats, compiledAt⟩)
    (.record "ArtifactMetadata" fields)

def toJson (m : ArtifactMetadata) : Json :=
  .object [("shape", .string m.shape.name), ("fingerprint", .string m.fingerprint.hex),
    ("compiler", .string m.compiler), ("nodeCount", .integer m.nodeCount),
    ("primaryFile", .string m.primaryFile), ("resolution", m.resolution.toJson),
    ("build", match m.build with
      | none => .null
      | some build => build.toJson),
    ("stats", m.stats.toJson), ("compiledAt", .string m.compiledAt)]

end ArtifactMetadata

namespace Artifact

def fields : Fields (Dict String × List Diagnostic × ArtifactMetadata × Unit) :=
  .field "files" (.dict .string) .fault <|
  .field "diagnostics" (.list Diagnostic.reader) .fault <|
  .field "metadata" ArtifactMetadata.reader .fault .done

def reader : Reader Artifact :=
  .map (fun (files, diagnostics, metadata, _) => ⟨files, diagnostics, metadata⟩)
    (.record "CompiledArtifact" fields)

def toJson (a : Artifact) : Json :=
  .object [("files", .ofDict .string a.files),
    ("diagnostics", .array (a.diagnostics.map Diagnostic.toJson)), ("metadata", a.metadata.toJson)]

end Artifact

end CapsuleCompiler
