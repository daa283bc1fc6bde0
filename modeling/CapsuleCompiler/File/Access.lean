import CapsuleCompiler.File.Tree

/-!
# File.Access — what programs may do with files

The operations on files that a program needs, in any monad. `ofTree` gives them on a tree, and then a program is a
function from trees to trees. Folders are made together with those above them.
-/

namespace CapsuleCompiler

structure FileAccess (m : Type → Type) where
  read : String → m (Except FileFault String)
  isFolder : String → m Bool
  /-- Makes one folder in one that is there. -/
  createFolder : String → m (Except FileFault Unit)
  write : String → String → m (Except FileFault Unit)

namespace FileAccess

/-- Changes a tree, or leaves it as it is and tells why. -/
def attempt (change : FileTree → Except FileFault FileTree) :
    StateM FileTree (Except FileFault Unit) := fun t =>
  match change t with
  | .ok changed => (.ok (), changed)
  | .error fault => (.error fault, t)

def ofTree : FileAccess (StateM FileTree) where
  read path := fun t => (t.read path, t)
  isFolder path := fun t => (t.isFolder path, t)
  createFolder path := attempt (·.createFolder path)
  write path text := attempt (·.write path text)

variable {m : Type → Type} [Monad m]

/-- A folder that could not be made is fine if it is there. -/
def orThere (access : FileAccess m) (path : String) (fault : FileFault) :
    m (Except FileFault Unit) := do
  if ← access.isFolder path then return .ok () else return .error fault

/-- Makes the first folder of a list in which each stands in the one behind it. -/
def createChain (access : FileAccess m) : List String → m (Except FileFault Unit)
  | [] => return .ok ()
  | path :: above => do
    match ← access.createFolder path with
    | .ok () => return .ok ()
    | .error .notFound =>
      match ← createChain access above with
      | .error fault => return .error fault
      | .ok () =>
        match ← access.createFolder path with
        | .ok () => return .ok ()
        | .error fault => access.orThere path fault
    | .error fault => access.orThere path fault

/-- Makes a folder and those above it that are missing. -/
def createFolders (access : FileAccess m) (path : String) : m (Except FileFault Unit) :=
  access.createChain (Path.ancestors path)

end FileAccess

end CapsuleCompiler
