import CapsuleCompiler.Import.Line
import CapsuleCompiler.Ident

/-!
# Reference — which imports name a capsule

An import names a capsule if its path begins with one of the prefixes of a rule. The first prefix of the list
that fits is taken off; of the rest the last step counts, without the ending of a source file. What remains is
the segment that names the capsule, and an empty one names none.
-/

namespace CapsuleCompiler

/-- The beginnings of the paths that name capsules; none of them is empty. -/
structure ReferenceRule where
  prefixes : List String
deriving DecidableEq, Inhabited

/-- What one line says about another capsule. -/
structure Reference where
  bindings : Import.Bindings
  /-- The path as written. -/
  modulePath : String
  segment : String
deriving DecidableEq, Inhabited

namespace Reference

def capsule (r : Reference) : CapsuleId := .ofSegment r.segment

/-- The endings of source files, in the order in which they are tried. -/
def sourceEndings : List String := [".tsx", ".jsx", ".ts", ".js"]

/-- Without the first ending of a list that fits. -/
def dropEnding (cs : List Char) : List String → List Char
  | [] => cs
  | ending :: endings =>
    match ending.toList.isSuffixOf? cs with
    | some stem => stem
    | none => dropEnding cs endings

/-- The part of a path behind its last slash. -/
def lastStep (cs : List Char) : List Char := (cs.reverse.takeWhile (· ≠ '/')).reverse

end Reference

namespace ReferenceRule

def ofPrefixes (prefixes : List String) : ReferenceRule := ⟨prefixes.filter (!·.isEmpty)⟩

/-- What follows the first prefix that fits. -/
def behindPrefix? (rule : ReferenceRule) (path : List Char) : Option (List Char) :=
  rule.prefixes.findSome? fun p => p.toList.isPrefixOf? path

def segment? (rule : ReferenceRule) (path : String) : Option String := do
  let rest ← rule.behindPrefix? path.toList
  let segment := Reference.dropEnding (Reference.lastStep rest) Reference.sourceEndings
  if segment.isEmpty then none else some (.ofList segment)

/-- The reference that a line makes. -/
def parseLine? (rule : ReferenceRule) (line : List Char) : Option Reference := do
  let imported ← Import.Line.ofChars? line
  let segment ← rule.segment? imported.path
  return ⟨imported.bindings, imported.path, segment⟩

end ReferenceRule

end CapsuleCompiler
