import CapsuleCompiler.Dict
import CapsuleCompiler.File.Path

/-!
# File.Tree — files and folders in memory

A tree maps places, which are lists of names from the root, to folders and files; the root is a folder. Paths
are followed from the root or from the working folder. Each step needs a folder to stand in, two dots go back to
the folder above, and a slash at the end asks for a folder. Names and paths have a greatest length in bytes.
`read`, `createFolder` and `write` are what a file system does with a path, fault for fault.
-/

namespace CapsuleCompiler

/-- Why nothing can be done with a path. -/
inductive FileFault
  | notFound
  | alreadyThere
  | notFolder
  | isFolder
  | tooLong
  /-- A path with a character that ends every path. -/
  | nulInPath
  /-- A cause that only a real file system has. -/
  | described (message : String)
deriving DecidableEq, Inhabited

def FileFault.message : FileFault → String
  | notFound => "No such file or directory (os error 2)"
  | alreadyThere => "File exists (os error 17)"
  | notFolder => "Not a directory (os error 20)"
  | isFolder => "Is a directory (os error 21)"
  | tooLong => "File name too long (os error 36)"
  | nulInPath => "file name contained an unexpected NUL byte"
  | described message => message

inductive FileEntry
  | folder
  | file (text : String)
deriving DecidableEq, Inhabited

structure FileTree where
  /-- The entries by their places, each place once. -/
  entries : List (List String × FileEntry)
  /-- The working folder. -/
  base : List String
deriving Inhabited

namespace FileTree

def entry? (t : FileTree) (place : List String) : Option FileEntry :=
  if place.isEmpty then some .folder else t.entries.lookup place

def replace (place : List String) (e : FileEntry) :
    List (List String × FileEntry) → List (List String × FileEntry)
  | [] => [(place, e)]
  | (p, f) :: rest => if p = place then (place, e) :: rest else (p, f) :: replace place e rest

def put (t : FileTree) (place : List String) (e : FileEntry) : FileTree :=
  { t with entries := replace place e t.entries }

/-! ### Following paths -/

/-- Fails unless the place is a folder. -/
def requireFolder (t : FileTree) (place : List String) : Except FileFault Unit :=
  match t.entry? place with
  | none => .error .notFound
  | some (.file _) => .error .notFolder
  | some .folder => .ok ()

/-- The greatest number of bytes in a name. -/
def nameLimit : Nat := 255

/-- The greatest number of bytes in a path. -/
def pathLimit : Nat := 4095

def requireName (name : String) : Except FileFault Unit :=
  if nameLimit < name.utf8ByteSize then .error .tooLong else .ok ()

/-- Fails on a path that cannot be followed, whatever the tree is. -/
def requirePath (path : String) : Except FileFault Unit :=
  if path.toList.contains '\x00' then .error .nulInPath
  else if path.isEmpty then .error .notFound
  else if pathLimit < path.utf8ByteSize then .error .tooLong
  else .ok ()

def step (place : List String) (name : String) : List String :=
  if name = "." then place else if name = ".." then place.dropLast else place ++ [name]

/-- The place that steps lead to; the last one may lead to nothing. -/
def walk (t : FileTree) (place : List String) : List String → Except FileFault (List String)
  | [] => .ok place
  | name :: names => do
    t.requireFolder place
    requireName name
    walk t (step place name) names

def start (t : FileTree) (path : String) : List String :=
  if Path.isAbsolute path then [] else t.base

/-- The segments of a path that are not empty. -/
def names (path : String) : List String := (Path.segments path).filter (!·.isEmpty)

def endsWithSlash (path : String) : Bool := path.toList.getLast? == some '/'

/-- What stands at a path. -/
def find (t : FileTree) (path : String) : Except FileFault FileEntry := do
  requirePath path
  let asked := if endsWithSlash path then names path ++ ["."] else names path
  let place ← t.walk (t.start path) asked
  match t.entry? place with
  | none => .error .notFound
  | some e => .ok e

/-! ### Access -/

def read (t : FileTree) (path : String) : Except FileFault String := do
  match ← t.find path with
  | .file text => .ok text
  | .folder => .error .isFolder

def isFolder (t : FileTree) (path : String) : Bool :=
  match t.find path with
  | .ok .folder => true
  | _ => false

/-- The folder in which a path ends, and its last name. -/
def split (t : FileTree) (path : String) : Except FileFault (List String × Option String) := do
  requirePath path
  match (names path).getLast? with
  | none => return ([], none)
  | some name =>
    let folder ← t.walk (t.start path) (names path).dropLast
    t.requireFolder folder
    return (folder, some name)

/-- A last name, if it is a plain one. -/
def plainName? : Option String → Option String
  | none => none
  | some name => if name = "." ∨ name = ".." then none else some name

/-- Makes one folder. -/
def createFolder (t : FileTree) (path : String) : Except FileFault FileTree := do
  let (folder, name) ← t.split path
  match plainName? name with
  | none => .error .alreadyThere
  | some name =>
    requireName name
    match t.entry? (folder ++ [name]) with
    | some _ => .error .alreadyThere
    | none => .ok (t.put (folder ++ [name]) .folder)

/-- Writes a file, over the one that is there. -/
def write (t : FileTree) (path text : String) : Except FileFault FileTree := do
  let (folder, name) ← t.split path
  match plainName? name with
  | none => .error .isFolder
  | some name =>
    if endsWithSlash path then .error .isFolder
    else
      requireName name
      match t.entry? (folder ++ [name]) with
      | some .folder => .error .isFolder
      | _ => .ok (t.put (folder ++ [name]) (.file text))

/-! ### From and to files by their paths -/

/-- The folder and those above it. -/
def putFolders (t : FileTree) : List (List String) → FileTree
  | [] => t
  | place :: rest => putFolders (if place.isEmpty then t else t.put place .folder) rest

/-- The beginnings of a list that are shorter than it, from the empty one on. -/
def properPrefixes : List String → List (List String)
  | [] => []
  | name :: names => [] :: (properPrefixes names).map (name :: ·)

def addFile (t : FileTree) (path text : String) : FileTree :=
  let place := t.base ++ names path
  (t.putFolders (properPrefixes place)).put place (.file text)

/-- A tree with files below its working folder. -/
def ofFiles (base : List String) (files : List (String × String)) : FileTree :=
  let bare : FileTree := ⟨[], base⟩
  files.foldl (fun t f => t.addFile f.1 f.2) (bare.putFolders (properPrefixes base ++ [base]))

/-- The path and the text of a file below the working folder. -/
def listed? (t : FileTree) : List String × FileEntry → Option (String × String)
  | (_, .folder) => none
  | (place, .file text) =>
    (t.base.isPrefixOf? place).map fun below => ("/".intercalate below, text)

/-- The files below the working folder by their paths. -/
def files (t : FileTree) : Dict String := .ofList (t.entries.filterMap t.listed?)

end FileTree

end CapsuleCompiler
