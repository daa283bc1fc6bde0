import CapsuleCompiler.Import.Bindings
import CapsuleCompiler.Naming

/-!
# Import.Line — import statements that fill one line

A line is an import if it is `import`, a clause, `from` and a path in quotes, then perhaps a semicolon and a
comment, and nothing else. The clause is a default name, a list of names in braces, or both with a comma
between; a name in the list may be followed by `as` and the name it is to have here. Imports of a module for
its effects, of types, and those that go on in the next line have no place in this grammar.

Each function takes its part off the front of the text and returns the rest.
-/

namespace CapsuleCompiler.Import

structure Line where
  bindings : Bindings
  /-- The path between the quotes. -/
  path : String
deriving DecidableEq, Inhabited

namespace Line

/-- Blanks of a line, and line ends. -/
def isSpace (c : Char) : Bool := c == ' ' || c == '\t' || c == '\r' || c == '\n'

def spaces (cs : List Char) : List Char := cs.dropWhile isSpace

/-- At least one blank. -/
def someSpaces? : List Char → Option (List Char)
  | [] => none
  | c :: cs => if isSpace c then some (spaces cs) else none

/-- A fixed word. -/
def tag? (word : String) (cs : List Char) : Option (List Char) := word.toList.isPrefixOf? cs

/-- A comma with blanks around it. -/
def comma? (cs : List Char) : Option (List Char) := (tag? "," (spaces cs)).map spaces

def name? : List Char → Option (String × List Char)
  | [] => none
  | c :: cs =>
    if Naming.isIdentStart c then
      some (.ofList (c :: cs.takeWhile Naming.isIdentPart), cs.dropWhile Naming.isIdentPart)
    else none

/-! ### Clause -/

/-- The name behind `as`. -/
def renaming? (cs : List Char) : Option (String × List Char) := do
  name? (← someSpaces? (← tag? "as" (← someSpaces? cs)))

def specifier? (cs : List Char) : Option (NamedImport × List Char) := do
  let (imported, cs) ← name? cs
  match renaming? cs with
  | some (bound, rest) => return (⟨imported, bound⟩, rest)
  | none => return (⟨imported, imported⟩, cs)

/-- More names, each behind a comma; a comma that no name follows is left. -/
def moreSpecifiers : Nat → List Char → List NamedImport × List Char
  | 0, cs => ([], cs)
  | fuel + 1, cs =>
    match (comma? cs).bind specifier? with
    | none => ([], cs)
    | some (n, rest) =>
      let (ns, rest) := moreSpecifiers fuel rest
      (n :: ns, rest)

/-- Names in braces, the last of them perhaps with a comma behind it. -/
def list? (cs : List Char) : Option (List NamedImport × List Char) := do
  let (n, cs) ← specifier? (spaces (← tag? "\x7b" cs))
  let (ns, cs) := moreSpecifiers cs.length cs
  let cs := spaces cs
  let cs := (tag? "," cs).getD cs
  let cs ← tag? "\x7d" (spaces cs)
  return (n :: ns, cs)

def clause? (cs : List Char) : Option (Bindings × List Char) :=
  match list? cs with
  | some (ns, rest) => some (⟨none, [], ns⟩, rest)
  | none => do
    let (name, cs) ← name? cs
    match (comma? cs).bind list? with
    | some (ns, rest) => return (⟨some name, [], ns⟩, rest)
    | none => return (⟨some name, [], []⟩, cs)

/-! ### Path and end -/

/-- A path up to the next quote of the kind it began with. -/
def quoted? : List Char → Option (String × List Char)
  | [] => none
  | q :: cs =>
    if q = '\'' ∨ q = '"' then
      match cs.takeWhile (· ≠ q), cs.dropWhile (· ≠ q) with
      | c :: path, _ :: rest => some (.ofList (c :: path), rest)
      | _, _ => none
    else none

/-- Whether a statement may end here. -/
def endsHere (cs : List Char) : Bool :=
  let cs := spaces cs
  let cs := spaces ((tag? ";" cs).getD cs)
  match tag? "//" cs with
  | some comment => !comment.any fun c => c == '\n' || c == '\r'
  | none => cs.isEmpty

/-- The import that a whole line is. -/
def ofChars? (cs : List Char) : Option Line := do
  let (bindings, cs) ← clause? (← someSpaces? (← tag? "import" (spaces cs)))
  let (path, cs) ← quoted? (spaces (← tag? "from" (← someSpaces? cs)))
  if endsHere cs then return ⟨bindings, path⟩ else none

def ofText? (line : String) : Option Line := ofChars? line.toList

end Line

end CapsuleCompiler.Import
