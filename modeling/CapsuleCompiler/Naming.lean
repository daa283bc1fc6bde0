/-!
# Naming — words, symbols and canonical names

A word is a run of ASCII letters and digits; every other character only separates. `pascal` joins the words
with each first letter raised, `camel` lowers the first letter of that, and `kebab` writes words in small
letters with single hyphens, opening a new word also where the case of the letters shows one
(`HTMLView2Go` has the words `html`, `view2`, `go`). All three read the text once from the left; `kebab`
carries the place it has reached, so that the character before the current one is at hand exactly where
the rule looks at it.
-/

namespace CapsuleCompiler.Naming

/-! ### Pascal and camel -/

/-- The words run together, where `start` says that the next letter or digit opens a word. -/
def pascalFrom : Bool → List Char → List Char
  | _, [] => []
  | start, c :: cs =>
    if c.isAlphanum then (if start then c.toUpper else c) :: pascalFrom false cs
    else pascalFrom true cs

def pascal (text : String) : String := .ofList (pascalFrom true text.toList)

def lowerFirst : List Char → List Char
  | [] => []
  | c :: cs => c.toLower :: cs

def camel (text : String) : String := .ofList (lowerFirst (pascalFrom true text.toList))

/-! ### Kebab -/

/-- Where the reading stands: before the first word, between words, or inside one just behind `prev`. -/
inductive Place
  | start
  | between
  | within (prev : Char)

/-- A capital opens a word behind a small letter or a digit, and behind a capital when a small letter
follows. -/
def opensWord (prev c : Char) (next : Option Char) : Bool :=
  c.isUpper && (prev.isLower || prev.isDigit || (prev.isUpper && next.any Char.isLower))

def kebabFrom : Place → List Char → List Char
  | _, [] => []
  | place, c :: cs =>
    if c.isAlphanum then
      match place with
      | .start => c.toLower :: kebabFrom (.within c) cs
      | .between => '-' :: c.toLower :: kebabFrom (.within c) cs
      | .within prev =>
        if opensWord prev c cs.head? then '-' :: c.toLower :: kebabFrom (.within c) cs
        else c.toLower :: kebabFrom (.within c) cs
    else
      match place with
      | .start => kebabFrom .start cs
      | _ => kebabFrom .between cs

def kebab (text : String) : String := .ofList (kebabFrom .start text.toList)

/-! ### Identifiers -/

def isIdentStart (c : Char) : Bool := c.isAlpha || c == '_' || c == '$'

def isIdentPart (c : Char) : Bool := c.isAlphanum || c == '_' || c == '$'

/-- The names that a script may declare, within ASCII. -/
def isIdentifier (text : String) : Bool :=
  match text.toList with
  | [] => false
  | c :: cs => isIdentStart c && cs.all isIdentPart

/-- The name of a generated component, and `Composition` for a name without a usable word. -/
def compositionSymbol (name : String) : String :=
  let symbol := pascal name
  if isIdentifier symbol then symbol else "Composition"

/-- The package name of a generated application, and a fixed one for a name without a word. -/
def packageName (name : String) : String :=
  let package := kebab name
  if package.isEmpty then "capsula-app" else package

/-! ### Examples -/

example : kebab "HTMLView2Go" = "html-view2-go" := by decide +kernel
example : pascal "My  Workflow!" = "MyWorkflow" := by decide +kernel
example : camel "node-1" = "node1" := by decide +kernel

end CapsuleCompiler.Naming
