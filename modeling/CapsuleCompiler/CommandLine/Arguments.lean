import CapsuleCompiler.CommandLine.Usage

/-!
# CommandLine.Arguments — what the words of a command line ask for

Words are read from the left. A value that stands in a word of its own, and the path of the composition, are only
looked at when the next word has been understood, so a word that cannot be understood is the fault that is told;
a value joined to its option is looked at once. Behind `--` no word is an option. What is missing is
told when all words have been read, and the words of a command before those in front of it.
-/

namespace CapsuleCompiler.CommandLine

inductive Command
  | compile (composition registry : String) (shape : Shape) (out : Option String) (inline : Bool)
      (timeoutMs : Option Nat)
  | check (composition registry : String)
  | fingerprint (composition : String) (shape : Shape)
deriving DecidableEq, Inhabited

structure Invocation where
  /-- The path of the configuration. -/
  config : Option String
  command : Command
deriving DecidableEq, Inhabited

/-! ### Values -/

/-- What has been given so far. -/
structure Given where
  composition : Option String
  config : Option String
  registry : Option String
  shape : Option Shape
  out : Option String
  inline : Bool
  timeoutMs : Option Nat
deriving Inhabited

namespace Given

def nothing : Given := ⟨none, none, none, none, none, false, none⟩

/-- Whether an option has been given. -/
def has (g : Given) : Flag → Bool
  | .config => g.config.isSome
  | .registry => g.registry.isSome
  | .shape => g.shape.isSome
  | .out => g.out.isSome
  | .inline => g.inline
  | .timeoutMs => g.timeoutMs.isSome
  | .help => false
  | .version => false

/-- A natural number of 64 bits in decimal digits, perhaps with a plus sign. -/
def number? (text : String) : Option Nat :=
  let digits := match text.toList with
    | '+' :: cs => cs
    | cs => cs
  if digits.isEmpty || !digits.all Char.isDigit then none
  else
    let n := digits.foldl (fun n c => 10 * n + (c.toNat - '0'.toNat)) 0
    if n < Nat.pow 2 64 then some n else none

def setNew (g : Given) (flag : Flag) (value : String) : Except UsageFault Given :=
  match flag with
  | .config => .ok { g with config := some value }
  | .registry => .ok { g with registry := some value }
  | .shape =>
    match Shape.ofWord? value with
    | some shape => .ok { g with shape := some shape }
    | none => .error (.badValue flag value)
  | .out => if value.isEmpty then .error (.missingValue flag) else .ok { g with out := some value }
  | .inline => .ok { g with inline := true }
  | .timeoutMs =>
    match number? value with
    | some n => .ok { g with timeoutMs := some n }
    | none => .error (.badValue flag value)
  | .help => .error .helpAsked
  | .version => .error .versionAsked

/-- Sets an option; the value of a switch does not matter. -/
def set (g : Given) (flag : Flag) (value : String) : Except UsageFault Given :=
  if g.has flag then .error (.repeated flag) else g.setNew flag value

end Given

/-! ### Words -/

inductive Word
  /-- Two hyphens. -/
  | separator
  | long (name : String) (value : Option String)
  | letters (cs : List Char)
  | plain (text : String)
deriving DecidableEq

namespace Word

/-- What stands before the first equals sign, and behind it. -/
def cutValue (cs : List Char) : List Char × Option (List Char) :=
  match cs.dropWhile (· ≠ '=') with
  | [] => (cs, none)
  | _ :: value => (cs.takeWhile (· ≠ '='), some value)

def ofText (text : String) : Word :=
  match text.toList with
  | ['-', '-'] => .separator
  | '-' :: '-' :: cs => .long (.ofList (cutValue cs).1) ((cutValue cs).2.map .ofList)
  | '-' :: c :: cs => .letters (c :: cs)
  | _ => .plain text

end Word

/-! ### Reading -/

/-- What has been understood and not yet been looked at. -/
inductive Pending
  | nothing
  | value (flag : Flag) (text : Option String)
  | composition (path : String)
deriving DecidableEq, Inhabited

structure Reading where
  given : Given
  pending : Pending
deriving Inhabited

namespace Reading

def start : Reading := ⟨.nothing, .nothing⟩

/-- The option that waits for its value. -/
def awaits? (r : Reading) : Option Flag :=
  match r.pending with
  | .value flag none => some flag
  | _ => none

def hasComposition (r : Reading) : Bool :=
  match r.pending with
  | .composition _ => true
  | _ => r.given.composition.isSome

/-- Looks at what is pending. -/
def settle (r : Reading) : Except UsageFault Given :=
  match r.pending with
  | .nothing => .ok r.given
  | .value flag none => .error (.missingValue flag)
  | .value flag (some text) => r.given.set flag text
  | .composition path => .ok { r.given with composition := some path }

def withPending (r : Reading) (pending : Pending) : Except UsageFault Reading := do
  return ⟨← r.settle, pending⟩

/-- An option with its value, or a switch, comes into force. -/
def apply (r : Reading) (flag : Flag) (value : String) : Except UsageFault Reading := do
  return ⟨← (← r.settle).set flag value, .nothing⟩

def readLong (flags : List Flag) (r : Reading) (name : String) (value : Option String) :
    Except UsageFault Reading :=
  match flags.find? (·.long == name), value with
  | none, _ => .error (.unknownArgument ("--" ++ name))
  | some flag, some text =>
    if flag.takesValue then r.apply flag text else .error (.surplusValue flag)
  | some flag, none =>
    if flag.takesValue then r.withPending (.value flag none) else r.apply flag ""

/-- A value behind the letter of its option, perhaps with an equals sign between. -/
def joinedValue : List Char → String
  | '=' :: cs => .ofList cs
  | cs => .ofList cs

def readLetters (flags : List Flag) (r : Reading) : List Char → Except UsageFault Reading
  | [] => .ok r
  | c :: cs =>
    match flags.find? (·.letter? == some c) with
    | none => .error (.unknownArgument (.ofList ['-', c]))
    | some flag =>
      if flag.takesValue then
        if cs.isEmpty then r.withPending (.value flag none) else r.apply flag (joinedValue cs)
      else do readLetters flags (← r.apply flag "") cs

/-! ### Commands -/

/-- A word that is neither an option nor a value. -/
def readComposition (r : Reading) (text : String) : Except UsageFault Reading :=
  if r.hasComposition then .error (.unknownArgument text) else r.withPending (.composition text)

def readWord (flags : List Flag) (r : Reading) (text : String) : Word → Except UsageFault Reading
  | .separator => .ok r
  | .long name value => r.readLong flags name value
  | .letters cs => r.readLetters flags cs
  | .plain _ =>
    match r.awaits? with
    | some flag => .ok { r with pending := .value flag (some text) }
    | none => r.readComposition text

/-- The words behind `--`. -/
def readRest (r : Reading) : List String → Except UsageFault Given
  | [] => r.settle
  | text :: texts => do readRest (← r.readComposition text) texts

/-- The words of a command. -/
def readWords (flags : List Flag) (r : Reading) : List String → Except UsageFault Given
  | [] => r.settle
  | text :: texts =>
    match Word.ofText text with
    | .separator => r.readRest texts
    | word => do readWords flags (← r.readWord flags text word) texts

end Reading

/-! ### The whole -/

def required (name : String) : Option String → Except UsageFault String
  | some x => .ok x
  | none => .error (.missingArgument name)

def Given.command (g : Given) : CommandName → Except UsageFault Command
  | .compile => do
    let composition ← required "<COMPOSITION>" g.composition
    let registry ← required "--registry" g.registry
    return .compile composition registry (g.shape.getD .page) g.out g.inline g.timeoutMs
  | .check => do
    let composition ← required "<COMPOSITION>" g.composition
    return .check composition (← required "--registry" g.registry)
  | .fingerprint => do
    return .fingerprint (← required "<COMPOSITION>" g.composition) (g.shape.getD .page)

/-- Words behind the one that asks for help. -/
def helpOn : List String → UsageFault
  | [] => .helpAsked
  | [word] =>
    if word = helpWord ∨ (CommandName.ofWord? word).isSome then .helpAsked else .unknownCommand word
  | word :: next :: _ =>
    if word = helpWord ∨ (CommandName.ofWord? word).isSome then .unknownCommand next
    else .unknownCommand word

/-- What is left when no command has come. -/
def withoutCommand (r : Reading) : Except UsageFault Invocation := do
  let g ← r.settle
  if g.config.isSome then .error .noCommand else .error .nothingGiven

/-- A word in the place of a command. -/
def strayWord (text : String) (behindSeparator : Bool) : UsageFault :=
  if behindSeparator && (text == helpWord || (CommandName.ofWord? text).isSome) then
    .unknownArgument text
  else .unknownCommand text

def readCommand (r : Reading) (name : CommandName) (texts : List String) :
    Except UsageFault Invocation := do
  let g ← Reading.readWords (Flag.ofCommand name) .start texts
  let command ← g.command name
  let before ← r.settle
  return ⟨g.config.or before.config, command⟩

/-- The words in front of a command, and then the command. -/
def readInvocation (r : Reading) : List String → Except UsageFault Invocation
  | [] => withoutCommand r
  | text :: texts =>
    match Word.ofText text with
    | .separator =>
      match texts with
      | [] => withoutCommand r
      | next :: _ => .error (strayWord next true)
    | .plain _ =>
      match r.awaits? with
      | some flag => readInvocation { r with pending := .value flag (some text) } texts
      | none =>
        if text = helpWord then .error (helpOn texts)
        else
          match CommandName.ofWord? text with
          | some name => readCommand r name texts
          | none => .error (strayWord text false)
    | word => do readInvocation (← r.readWord Flag.general text word) texts

namespace Invocation

/-- What the words of a command line ask for. -/
def ofWords (words : List String) : Except UsageFault Invocation := readInvocation .start words

end Invocation

end CapsuleCompiler.CommandLine
