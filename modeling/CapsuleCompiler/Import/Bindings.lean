import CapsuleCompiler.Text.Lines

/-!
# Import.Bindings — the names that import lines bind

A module may be imported by several lines. `merge` takes their names together: the first default name stays, a
later one becomes an alias of it, and of named imports with one local name the first stays. `clause` writes the
names as they stand between `import` and `from`, without the aliases, which need a declaration each.
-/

namespace CapsuleCompiler.Import

/-- An exported name and the name it has in the importing module. -/
structure NamedImport where
  imported : String
  bound : String
deriving DecidableEq, Inhabited

structure Bindings where
  /-- The name of the default export. -/
  main : Option String
  /-- Further names of the default export. -/
  aliases : List String
  named : List NamedImport
deriving DecidableEq, Inhabited

namespace Bindings

def empty : Bindings := ⟨none, [], []⟩

/-- Every bound name. -/
def locals (b : Bindings) : List String := b.main.toList ++ b.aliases ++ b.named.map (·.bound)

/-! ### Taking together -/

def addMain (b : Bindings) (name : String) : Bindings :=
  match b.main with
  | none => { b with main := some name }
  | some first =>
    if first = name ∨ b.aliases.contains name then b else { b with aliases := b.aliases ++ [name] }

def addNamed (b : Bindings) (n : NamedImport) : Bindings :=
  if b.named.any (·.bound == n.bound) then b else { b with named := b.named ++ [n] }

/-- The names of `a`, then those of `b` that are not bound yet. -/
def merge (a b : Bindings) : Bindings :=
  b.named.foldl addNamed ((b.main.toList ++ b.aliases).foldl addMain a)

/-! ### Text -/

def namedText (n : NamedImport) : String :=
  if n.imported = n.bound then n.bound else n.imported ++ " as " ++ n.bound

def listText (ns : List NamedImport) : String :=
  "\x7b " ++ ", ".intercalate (ns.map namedText) ++ " \x7d"

def clause (b : Bindings) : String :=
  match b.main with
  | none => listText b.named
  | some name => if b.named.isEmpty then name else name ++ ", " ++ listText b.named

def aliasDeclarations (b : Bindings) : List String :=
  match b.main with
  | none => []
  | some name => b.aliases.map fun other => "const " ++ other ++ " = " ++ name

end Bindings

end CapsuleCompiler.Import
