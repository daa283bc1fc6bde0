import CapsuleCompiler.CommandLine.Arguments
import CapsuleCompiler.CommandLine.Report
import CapsuleCompiler.Document.Config
import CapsuleCompiler.Export
import CapsuleCompiler.Host

/-!
# CommandLine.Run — the commands

A command reads its documents in a fixed order, the configuration first, and stops at the first one that is of no
use. Findings go to the error stream as soon as there is an artifact, also if its files cannot be written then.
-/

namespace CapsuleCompiler.CommandLine

inductive CommandFault
  | unreadable (path : String) (cause : FileFault)
  /-- A document that can be read and not be used. -/
  | unusable (path : String) (error : CompileError)
  | failed (error : CompileError)
  | notExported (fault : ExportFault)

namespace CommandFault

/-- What failed, and behind it why. -/
def chain : CommandFault → List String
  | unreadable path cause => ["failed to read " ++ path, cause.message]
  | unusable path error => [path ++ ": " ++ error.message]
  | failed error => [error.message]
  | notExported fault => fault.chain

end CommandFault

/-- What a command leaves behind besides files. -/
structure Outcome where
  fault : Option CommandFault
  stdout : String
  stderr : String
deriving Inhabited

namespace Outcome

def success (stdout stderr : String) : Outcome := ⟨none, stdout, stderr⟩

def failure (fault : CommandFault) : Outcome := ⟨some fault, "", ""⟩

end Outcome

variable {m : Type → Type} [Monad m]

abbrev Step (m : Type → Type) (α : Type) := ExceptT CommandFault m α

/-! ### Documents -/

def load (access : FileAccess m) (parse : String → Except CompileError α) (path : String) :
    Step m α := do
  match ← access.read path with
  | .error cause => throw (.unreadable path cause)
  | .ok text =>
    match parse text with
    | .error e => throw (.unusable path e)
    | .ok x => return x

def loadConfig (access : FileAccess m) : Option String → Step m CompilerConfig
  | none => return .standard
  | some path => load access CompilerConfig.ofText path

def require : Except CompileError α → Step m α
  | .ok x => return x
  | .error e => throw (.failed e)

/-! ### Commands -/

/-- The configuration with the settings of the command line. -/
def override (config : CompilerConfig) (inline : Bool) (timeoutMs : Option Nat) : CompilerConfig :=
  { config with
    isolation := config.isolation && !inline
    timeoutMs := timeoutMs.getD config.timeoutMs }

/-- Compiles for somebody who does not ask how long it took. -/
def compileOnce (h : Host) (c : Composition) (shape : Shape) : Except CompileError Artifact :=
  (h.compile .async .inTime ⟨0, ""⟩ c shape .empty).1

/-- Writes the files of an artifact, or shows the main one. -/
def present (access : FileAccess m) (out : Option String) (c : Composition) (a : Artifact) :
    m Outcome := do
  let notes := diagnosticsText a.diagnostics
  let summary := summaryText a.metadata.resolution
  match out with
  | none => return .success (a.primary?.getD "" ++ summary) notes
  | some folder =>
    match ← (Export.writeFiles access folder a.files).run with
    | .error fault => return ⟨some (.notExported fault), "", notes⟩
    | .ok count => return .success (writtenText c.name folder count a ++ summary) notes

def compileInputs (access : FileAccess m) (config : CompilerConfig) (composition registry : String)
    (shape : Shape) : Step m (Composition × Artifact) := do
  let c ← load access Composition.ofText composition
  let catalog ← load access Catalog.ofText registry
  let h ← require (Host.ofCatalog catalog config)
  let a ← require (compileOnce h c shape)
  return (c, a)

def checkText (access : FileAccess m) (config : CompilerConfig) (composition registry : String) :
    Step m String := do
  let c ← load access Composition.ofText composition
  let catalog ← load access Catalog.ofText registry
  let a ← require ((Compiler.ofConfig catalog config).analyze c)
  return analysisText c.name a

def fingerprintLine (access : FileAccess m) (composition : String) (shape : Shape) :
    Step m String := do
  let c ← load access Composition.ofText composition
  return unlines [(fingerprint c shape).text]

/-- The outcome of a command that only prints. -/
def printed (text : Step m String) : m Outcome := do
  match ← text.run with
  | .error fault => return .failure fault
  | .ok text => return .success text ""

def runCommand (access : FileAccess m) (config : CompilerConfig) : Command → m Outcome
  | .compile composition registry shape out inline timeoutMs => do
    let config := override config inline timeoutMs
    match ← (compileInputs access config composition registry shape).run with
    | .error fault => return .failure fault
    | .ok (c, a) => present access out c a
  | .check composition registry => printed (checkText access config composition registry)
  | .fingerprint composition shape => printed (fingerprintLine access composition shape)

def run (access : FileAccess m) (invocation : Invocation) : m Outcome := do
  match ← (loadConfig access invocation.config).run with
  | .error fault => return .failure fault
  | .ok config => runCommand access config invocation.command

end CapsuleCompiler.CommandLine
