import CapsuleCompiler.Compilation

/-!
# CommandLine.Report — what commands print
-/

namespace CapsuleCompiler.CommandLine

/-- Lines, each with its line feed. -/
def unlines (lines : List String) : String := String.join (lines.map (· ++ "\n"))

/-- A text with blanks behind it up to a width, which is counted in characters. -/
def padded (width : Nat) (text : String) : String :=
  text ++ .ofList (List.replicate (width - text.length) ' ')

/-! ### Analyses -/

def nameWidth : Nat := 32

def ruleWidth : Nat := 40

def unitLines (u : UnitResolution) : List String :=
  ("  " ++ padded nameWidth u.capsule.text ++ " " ++ percentText u.rate) ::
    (u.resolved.map fun id => "      + " ++ id.text) ++
    (u.unresolved.map fun id => "      ? " ++ id.text ++ " (unresolved)")

def orderLines : Option (List CapsuleId) → List String
  | none => ["  Build order: none (reference cycles present)"]
  | some [] => []
  | some ids => ["  Build order: " ++ ", ".intercalate (ids.map (·.text))]

/-- A section with a heading, or nothing if it has no lines. -/
def headed (heading : String) (lines : List String) : List String :=
  if lines.isEmpty then [] else "" :: ("  " ++ heading ++ ":") :: lines.map ("    " ++ ·)

def analysisText (name : String) (a : Analysis) : String :=
  unlines (["Resolution for: " ++ name, .ofList (List.replicate ruleWidth '═'), ""] ++
    a.report.units.flatMap unitLines ++ ["", a.report.summary] ++ orderLines a.order ++
    headed "Cycles" (a.cycles.map CapsuleId.chain) ++
    headed "Diagnostics" (a.diagnostics.map Diagnostic.line))

/-! ### Artifacts -/

def diagnosticsText (ds : List Diagnostic) : String := unlines (ds.map Diagnostic.line)

/-- Steps with their numbers from `n` on. -/
def numbered : Nat → List String → List String
  | _, [] => []
  | n, s :: rest => ("  " ++ toString n ++ ". " ++ s) :: numbered (n + 1) rest

def nextSteps : Option BuildInstructions → List String
  | none => []
  | some b => "" :: "Next steps:" :: numbered 1 b.ordered

/-- The report on files that were written. -/
def writtenText (name folder : String) (count : Nat) (a : Artifact) : String :=
  unlines (("Compiled \"" ++ name ++ "\" as " ++ a.metadata.shape.name ++ " (" ++
      a.metadata.fingerprint.text ++ "): " ++ toString count ++ " file(s) written to " ++ folder) ::
    nextSteps a.metadata.build)

def summaryText (r : ResolutionReport) : String := unlines [r.summary]

end CapsuleCompiler.CommandLine
