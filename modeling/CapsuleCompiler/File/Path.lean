import CapsuleCompiler.Text.Lines

/-!
# File.Path — paths as they are written

A path is cut at its slashes. An empty segment and a dot lead nowhere, except that a slash in front starts at the
root and a dot in front is a step of a relative path. The parent of a path is what stands before its last step,
and a path is contained if it can only lead downwards from wherever it starts.
-/

namespace CapsuleCompiler.Path

def segments (path : String) : List String := (Text.splitOn '/' path.toList).map .ofList

def isAbsolute (path : String) : Bool := path.toList.head? == some '/'

/-- Whether a segment behind the first one is a step. -/
def isStep (segment : String) : Bool := segment != "" && segment != "."

/-- Without the segments at the end that are no steps. -/
def dropIdle (segments : List String) : List String :=
  (segments.reverse.dropWhile (!isStep ·)).reverse

/-- The path before the last step, if there is a step. -/
def parent? (path : String) : Option String :=
  match segments path with
  | [] => none
  | first :: rest =>
    match dropIdle rest with
    | [] => if first.isEmpty then none else some ""
    | s :: ss =>
      let above := dropIdle (s :: ss).dropLast
      if first.isEmpty && above.isEmpty then some "/" else some ("/".intercalate (first :: above))

def ancestorsFrom : Nat → String → List String
  | 0, _ => []
  | fuel + 1, path =>
    if path.isEmpty then []
    else
      match parent? path with
      | none => [path]
      | some above => path :: ancestorsFrom fuel above

/-- A path, its parent, and so on; each one has fewer segments than the one before. -/
def ancestors (path : String) : List String := ancestorsFrom ((segments path).length + 1) path

def join (folder relative : String) : String :=
  if folder.isEmpty || folder.toList.getLast? == some '/' then folder ++ relative
  else folder ++ "/" ++ relative

/-- Whether every step of a path is a plain name. -/
def isContained (path : String) : Bool :=
  !isAbsolute path && (segments path).head? != some "." && (segments path).all (· != "..")

/-! ### Examples -/

example : parent? "out/app/page.tsx" = some "out/app" := by decide +kernel
example : parent? "./a//b/." = some "./a" := by decide +kernel
example : parent? "/a" = some "/" := by decide +kernel
example : ancestors "./a/b" = ["./a/b", "./a", "."] := by decide +kernel

end CapsuleCompiler.Path
