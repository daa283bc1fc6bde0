import CapsuleCompiler.Dict
import CapsuleCompiler.File.Access

/-!
# Export — writing generated files below a folder

Every path is checked before anything is written, so that a path that could lead out of the folder leaves no
trace. Then the files are written in the order of their paths, each with the folders it needs. Where that fails
the files before it stay.
-/

namespace CapsuleCompiler

inductive ExportFault
  | escaping (path : String)
  | folderNotMade (path : String) (cause : FileFault)
  | fileNotWritten (path : String) (cause : FileFault)
deriving DecidableEq, Inhabited

namespace ExportFault

/-- What failed, and behind it why. -/
def chain : ExportFault → List String
  | escaping path => ["refusing to write outside output directory: " ++ path]
  | folderNotMade path cause => ["failed to create " ++ path, cause.message]
  | fileNotWritten path cause => ["failed to write " ++ path, cause.message]

end ExportFault

namespace Export

variable {m : Type → Type} [Monad m]

/-- The first path that is not contained. -/
def escaping? (files : Dict String) : Option String := files.keys.find? (!Path.isContained ·)

def createParent (access : FileAccess m) (path : String) : ExceptT ExportFault m Unit :=
  match Path.parent? path with
  | none => return ()
  | some folder => do
    match ← access.createFolders folder with
    | .ok () => return ()
    | .error cause => throw (.folderNotMade folder cause)

def writeFile (access : FileAccess m) (path text : String) : ExceptT ExportFault m Unit := do
  createParent access path
  match ← access.write path text with
  | .ok () => return ()
  | .error cause => throw (.fileNotWritten path cause)

def writeAll (access : FileAccess m) (folder : String) :
    List (String × String) → ExceptT ExportFault m Unit
  | [] => return ()
  | (relative, text) :: rest => do
    writeFile access (Path.join folder relative) text
    writeAll access folder rest

/-- Writes files below a folder and counts them. -/
def writeFiles (access : FileAccess m) (folder : String) (files : Dict String) :
    ExceptT ExportFault m Nat :=
  match escaping? files with
  | some path => throw (.escaping path)
  | none => do
    writeAll access folder files.entries
    return files.size

end Export

end CapsuleCompiler
