import CapsuleCompiler.CommandLine.Run

/-!
# Main — the program

Reads the words of the command line, gives the command the files of the machine, and prints what it leaves
behind. Words that cannot be understood end with status 2, a command that fails with status 1.
-/

namespace CapsuleCompiler.Program

/-! ### Files of the machine -/

/-- The number of the cause, which some operations report below zero. -/
def osCode : IO.Error → Option UInt32
  | .alreadyExists _ code _ => some code
  | .otherError code _ => some code
  | .resourceBusy code _ => some code
  | .inappropriateType _ code _ => some code
  | .invalidArgument _ code _ => some code
  | .noFileOrDirectory _ code _ => some code
  | .noSuchThing _ code _ => some code
  | _ => none

def fileFault (e : IO.Error) : FileFault :=
  match (osCode e).map fun code => if code < 0x80000000 then code else 0 - code with
  | some 2 => .notFound
  | some 17 => .alreadyThere
  | some 20 => .notFolder
  | some 21 => .isFolder
  | some 36 => .tooLong
  | _ => .described (toString e)

def guarded (action : IO α) : IO (Except FileFault α) :=
  try return .ok (← action)
  catch e => return .error (fileFault e)

def readText (path : String) : IO (Except FileFault String) := do
  match ← guarded (IO.FS.readBinFile path) with
  | .error fault => return .error fault
  | .ok bytes =>
    match String.fromUTF8? bytes with
    | some text => return .ok text
    | none => return .error (.described "stream did not contain valid UTF-8")

/-- A folder gives itself away when it is read. -/
def isFolder (path : String) : IO Bool := do
  match ← readText path with
  | .error .isFolder => return true
  | _ => return false

def access : FileAccess IO where
  read := readText
  isFolder := isFolder
  createFolder path := guarded (IO.FS.createDir path)
  write path text := guarded (IO.FS.writeFile path text)

/-! ### Ends -/

def usageEnd (fault : CommandLine.UsageFault) : IO UInt32 := do
  match fault with
  | .helpAsked =>
    IO.println CommandLine.helpText
    return 0
  | .versionAsked =>
    IO.println CommandLine.versionText
    return 0
  | .nothingGiven =>
    IO.eprintln CommandLine.helpText
    return 2
  | fault =>
    IO.eprintln ("error: " ++ fault.message)
    return 2

def faultLines : List String → List String
  | [] => []
  | [message] => ["Error: " ++ message]
  | message :: causes => ("Error: " ++ message) :: "" :: "Caused by:" :: causes.map ("    " ++ ·)

def runEnd (done : CommandLine.Outcome) : IO UInt32 := do
  IO.eprint done.stderr
  IO.print done.stdout
  match done.fault with
  | none => return 0
  | some fault =>
    IO.eprint (CommandLine.unlines (faultLines fault.chain))
    return 1

end CapsuleCompiler.Program

open CapsuleCompiler

/-- The configuration may be named by an environment variable. -/
def main (words : List String) : IO UInt32 := do
  match CommandLine.Invocation.ofWords words with
  | .error fault => Program.usageEnd fault
  | .ok invocation =>
    let config := invocation.config.or (← IO.getEnv "CAPSULA_CONFIG")
    Program.runEnd (← CommandLine.run Program.access { invocation with config })
