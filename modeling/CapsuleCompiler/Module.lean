import CapsuleCompiler.Report
import CapsuleCompiler.Text.Blank
import CapsuleCompiler.Unit

/-!
# Module — sources made independent, then bound to each other

A stub is a source without its references to other capsules. It is made from that source alone, so cycles of
references need no care. A stub becomes a module when the whole environment of stubs is known: a reference to a
capsule of the environment is an import of the module beside it, and any other reference declares components that
show nothing, so that the module still loads. A directive of the source stays in front of both.
-/

namespace CapsuleCompiler

structure Stub where
  capsule : CapsuleId
  symbol : String
  body : String
  dependencies : List Dependency
deriving Inhabited

namespace Stub

/-- The lines of a source that make no reference. -/
def ownLines (rule : ReferenceRule) (source : String) : List (List Char) :=
  (Text.lines source.toList).filter fun line => (rule.parseLine? line).isNone

/-- A component that shows nothing. -/
def emptyComponent (symbol : String) : String :=
  "export default function " ++ symbol ++ "() \x7b\n  return null\n\x7d"

/-- The source without its references, or a component in the place of an empty one. -/
def bodyOf (rule : ReferenceRule) (symbol source : String) : String :=
  match Text.trim (Text.join ['\n'] (ownLines rule source)) with
  | [] => emptyComponent symbol
  | c :: cs => .ofList (c :: cs)

def ofUnit (rule : ReferenceRule) (u : CompilationUnit) : Stub :=
  ⟨u.id, u.id.symbol, bodyOf rule u.id.symbol u.definition.source, u.extraction.references⟩

end Stub

/-! ### Environment -/

/-- Stubs in the order in which they came; a later stub of a capsule takes the place of the earlier. -/
structure StubEnvironment where
  stubs : List Stub
deriving Inhabited

namespace StubEnvironment

def empty : StubEnvironment := ⟨[]⟩

def size (env : StubEnvironment) : Nat := env.stubs.length

def isEmpty (env : StubEnvironment) : Bool := env.stubs.isEmpty

def get? (env : StubEnvironment) (id : CapsuleId) : Option Stub :=
  env.stubs.find? (·.capsule == id)

def contains (env : StubEnvironment) (id : CapsuleId) : Bool := env.stubs.any (·.capsule == id)

def ids (env : StubEnvironment) : List CapsuleId := env.stubs.map (·.capsule)

def replace (s : Stub) : List Stub → List Stub
  | [] => [s]
  | t :: ts => if t.capsule = s.capsule then s :: ts else t :: replace s ts

def insert (env : StubEnvironment) (s : Stub) : StubEnvironment := ⟨replace s env.stubs⟩

def ofUnits (rule : ReferenceRule) (units : List CompilationUnit) : StubEnvironment :=
  units.foldl (fun env u => env.insert (.ofUnit rule u)) empty

end StubEnvironment

/-! ### Modules -/

/-- A line that binds names of other capsules. -/
inductive HeaderLine
  /-- Names of the module beside this one. -/
  | sibling (bindings : Import.Bindings) (capsule : CapsuleId)
  /-- One more name of a default export. -/
  | another (name main : String)
  /-- A name of a capsule that is not compiled. -/
  | fallback (name : String) (capsule : CapsuleId)
deriving DecidableEq

def HeaderLine.text : HeaderLine → String
  | sibling bindings capsule =>
    "import " ++ bindings.clause ++ " from './" ++ capsule.text ++ "'"
  | another name main => "const " ++ name ++ " = " ++ main
  | fallback name capsule =>
    "const " ++ name ++ " = () => null // unresolved capsule: " ++ capsule.text

structure Module where
  capsule : CapsuleId
  symbol : String
  directive : Option String
  header : List HeaderLine
  body : String
  resolution : UnitResolution
deriving Inhabited

namespace Module

def aliasLines (b : Import.Bindings) : List HeaderLine :=
  match b.main with
  | none => []
  | some main => b.aliases.map fun name => .another name main

/-- The lines of a header for one reference. -/
def linesFor (env : StubEnvironment) (d : Dependency) : List HeaderLine :=
  if env.contains d.capsule then .sibling d.bindings d.capsule :: aliasLines d.bindings
  else d.bindings.locals.map fun name => .fallback name d.capsule

/-- Whether a first line, trimmed, is a directive: a quoted text that begins with `use`. -/
def isDirective (line : List Char) : Bool :=
  match (line.reverse.dropWhile (· == ';')).reverse with
  | [] => false
  | q :: rest =>
    (q == '\'' || q == '"') && rest.getLast? == some q && "use ".toList.isPrefixOf rest.dropLast

/-- A directive that opens a body, and what follows it. -/
def splitDirective (body : List Char) : Option (List Char) × List Char :=
  let line := Text.trim (body.takeWhile (· ≠ '\n'))
  if isDirective line then (some line, Text.trimStart ((body.dropWhile (· ≠ '\n')).drop 1))
  else (none, body)

def resolutionOf (env : StubEnvironment) (s : Stub) : UnitResolution where
  capsule := s.capsule
  resolved := (s.dependencies.map (·.capsule)).filter env.contains
  unresolved := (s.dependencies.map (·.capsule)).filter (!env.contains ·)

/-- The module of a stub among the stubs of an environment. -/
def ofStub (env : StubEnvironment) (s : Stub) : Module :=
  let (directive, body) := splitDirective s.body.toList
  { capsule := s.capsule
    symbol := s.symbol
    directive := directive.map .ofList
    header := s.dependencies.flatMap (linesFor env)
    body := .ofList body
    resolution := resolutionOf env s }

def text (m : Module) : String :=
  (match m.directive with
    | none => ""
    | some line => line ++ "\n\n") ++
  (if m.header.isEmpty then "" else "\n".intercalate (m.header.map HeaderLine.text) ++ "\n\n") ++
  m.body ++ "\n"

end Module

/-- The modules of all units of a composition. -/
structure Resolution where
  modules : List Module
deriving Inhabited

namespace Resolution

def ofUnits (rule : ReferenceRule) (units : List CompilationUnit) : Resolution :=
  let env := StubEnvironment.ofUnits rule units
  ⟨env.stubs.map (Module.ofStub env)⟩

def report (r : Resolution) : ResolutionReport := ⟨r.modules.map (·.resolution)⟩

/-- The module of a capsule. -/
def module? (r : Resolution) (id : CapsuleId) : Option Module :=
  r.modules.find? (·.capsule == id)

end Resolution

end CapsuleCompiler
