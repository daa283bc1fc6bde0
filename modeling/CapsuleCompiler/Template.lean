import CapsuleCompiler.Dict
import CapsuleCompiler.Error
import CapsuleCompiler.Text.Blank

/-!
# Template — texts with places to fill

A placeholder is a key in double braces, with blanks around it allowed. A template is first cut into segments,
which depends on its text only; a double brace that opens no placeholder is text like any other. Rendering puts
the values in place of the keys and never looks at a value again. It fails at a key without a value, and where a
double brace opens a key that is never closed.
-/

namespace CapsuleCompiler

inductive Segment
  | text (cs : List Char)
  /-- A placeholder with its spelling between the braces. -/
  | slot (key spelling : List Char)
  /-- A placeholder that the rest of the template, which follows here, does not close. -/
  | unclosed (rest : List Char)
deriving DecidableEq

structure Template where
  source : String
deriving DecidableEq, Inhabited

namespace Template

def isKeyChar (c : Char) : Bool := c.isAlphanum || c == '_'

def isKey (cs : List Char) : Bool := !cs.isEmpty && cs.all isKeyChar

/-- Whether a key begins a text, up to a blank or the end. -/
def startsWithKey (cs : List Char) : Bool :=
  let cs := Text.trimStart cs
  !(cs.takeWhile isKeyChar).isEmpty && (cs.dropWhile isKeyChar).head?.all Text.isBlank

/-- What stands before the first double closing brace, and behind it. -/
def upToClosing? : List Char → Option (List Char × List Char)
  | [] => none
  | [_] => none
  | c :: d :: cs =>
    if c = '}' ∧ d = '}' then some ([], cs)
    else (upToClosing? (d :: cs)).map fun p => (c :: p.1, p.2)

theorem length_upToClosing? :
    ∀ {cs before rest : List Char}, upToClosing? cs = some (before, rest) → rest.length < cs.length
  | [], _, _, h => by simp [upToClosing?] at h
  | [_], _, _, h => by simp [upToClosing?] at h
  | c :: d :: cs, before, rest, h => by
    simp only [upToClosing?] at h
    split at h
    · simp only [Option.some.injEq, Prod.mk.injEq] at h
      simp only [List.length_cons, ← h.2]
      omega
    · obtain ⟨⟨b, r⟩, hp, heq⟩ := Option.map_eq_some_iff.1 h
      have := length_upToClosing? hp
      simp only [Prod.mk.injEq] at heq
      simp only [List.length_cons, ← heq.2] at this ⊢
      omega

/-! ### Segments -/

def segments : List Char → List Segment
  | [] => []
  | [c] => [.text [c]]
  | c :: d :: cs =>
    if c = '{' ∧ d = '{' then
      match h : upToClosing? cs with
      | none => if startsWithKey cs then [.unclosed cs] else .text [c, d] :: segments cs
      | some (before, rest) =>
        let key := Text.trim before
        if isKey key then
          have := length_upToClosing? h
          .slot key before :: segments rest
        else .text [c, d] :: segments cs
    else .text [c] :: segments (d :: cs)
termination_by cs => cs.length
decreasing_by
  all_goals
    simp only [List.length_cons]
    omega

/-! ### Rendering -/

/-- How much of an unclosed placeholder a message shows. -/
def excerptLength : Nat := 24

def renderSegments (bindings : Dict String) :
    List Segment → Except GenerationFault (List Char)
  | [] => .ok []
  | .text cs :: rest => do return cs ++ (← renderSegments bindings rest)
  | .slot key _ :: rest =>
    match bindings.get? (.ofList key) with
    | none => .error (.unbound (.ofList key))
    | some value => do return value.toList ++ (← renderSegments bindings rest)
  | .unclosed cs :: _ => .error (.unterminated (.ofList (cs.take excerptLength)))

def render (t : Template) (bindings : Dict String) : Except GenerationFault String := do
  return .ofList (← renderSegments bindings (segments t.source.toList))

/-! ### Built-in templates -/

/-- A key in double braces. -/
def slot (key : String) : String := "\x7b\x7b" ++ key ++ "\x7d\x7d"

def component : Template where
  source :=
    slot "prelude" ++ "export default function " ++ slot "symbol" ++ "() \x7b\n" ++
    slot "state" ++ "  return (\n" ++
    slot "markup" ++ "\n" ++
    "  )\n" ++
    "\x7d\n"

def page : Template where
  source :=
    slot "prelude" ++ "export default function " ++ slot "symbol" ++ "Page() \x7b\n" ++
    slot "state" ++ "  return (\n" ++
    "    <main className=\"capsula-page\">\n" ++
    "      <h1 className=\"capsula-title\">" ++ slot "title" ++ "</h1>\n" ++
    "      <div className=\"capsula-container\">\n" ++
    slot "markup" ++ "\n" ++
    "      </div>\n" ++
    "    </main>\n" ++
    "  )\n" ++
    "\x7d\n"

/-- The guide that comes with an application. -/
def readme : Template where
  source :=
    "# " ++ slot "title" ++ "\n\n" ++
    slot "description" ++ "\n\n" ++
    "Generated by " ++ slot "compiler" ++ ".\n\n" ++
    "## Setup\n\n" ++
    "1. Install dependencies:\n\n   ```bash\n" ++ slot "install" ++ "\n   ```\n\n" ++
    "2. Build for production:\n\n   ```bash\n" ++ slot "build" ++ "\n   ```\n\n" ++
    "3. Run the application:\n\n   ```bash\n" ++ slot "run" ++ "\n   ```\n\n" ++
    "## Capsule modules\n\n" ++
    slot "modules" ++ "\n"

end Template

end CapsuleCompiler
