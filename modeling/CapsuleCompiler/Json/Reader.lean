import CapsuleCompiler.Json.Bracket

/-!
# Json.Reader — typed readers

A `Reader α` takes a value of type `α` off the front of a text. It is told how many more arrays and objects may
open inside each other, and an opening bracket that exceeds this is a fault of its own. Faults come in the order
of the text: a reader that meets a value of another type first reads that value far enough to name it.
`Reader.run` reads a whole document and refuses anything but blanks behind it.
-/

namespace CapsuleCompiler.Json

abbrev Reader (α : Type) := (depth : Nat) → List Char → Except Fault (α × List Char)

namespace Reader

variable {α β : Type}

/-- How many arrays and objects may open inside each other in a document. -/
def nesting : Nat := 127

def run (reader : Reader α) (document : String) : Except Fault α := do
  let (x, rest) ← reader nesting document.toList
  if (skipSpace rest).isEmpty then return x else .error .trailingCharacters

def map (f : α → β) (reader : Reader α) : Reader β := fun depth cs => do
  let (x, rest) ← reader depth cs
  return (f x, rest)

/-! ### Values of the wrong type -/

/-- The fault of a value, at which the text stands, where another type was wanted. -/
def mismatch (wanted : String) : List Char → Fault
  | [] => .eofValue
  | c :: cs =>
    let named (found : Except Fault Found) : Fault :=
      match found with
      | .error e => e
      | .ok found => .invalidType found wanted
    if c = 'n' then named do let _ ← word ['u', 'l', 'l'] cs; return .null
    else if c = 't' then named do let _ ← word ['r', 'u', 'e'] cs; return .bool true
    else if c = 'f' then named do let _ ← word ['a', 'l', 's', 'e'] cs; return .bool false
    else if c = '-' || c.isDigit then named do return (← Number.read (c :: cs)).1.toFound
    else if c = '"' then named do return .string (← stringBody cs).1
    else if c = '[' then .invalidType .sequence wanted
    else if c = '{' then .invalidType .map wanted
    else .expectedValue

/-! ### Scalars -/

def string : Reader String := fun _ cs =>
  match skipSpace cs with
  | '"' :: cs => stringBody cs
  | cs => .error (mismatch "a string" cs)

def bool : Reader Bool := fun _ cs =>
  match skipSpace cs with
  | 't' :: cs => do return (true, ← word ['r', 'u', 'e'] cs)
  | 'f' :: cs => do return (false, ← word ['a', 'l', 's', 'e'] cs)
  | cs => .error (mismatch "a boolean" cs)

/-- A natural number of 64 bits; `wanted` is its type in messages. -/
def natural (wanted : String) : Reader Nat := fun _ cs =>
  match skipSpace cs with
  | [] => .error .eofValue
  | c :: cs =>
    if c = '-' || c.isDigit then do
      match ← Number.read (c :: cs) with
      | (.integer (.ofNat n), rest) => return (n, rest)
      | (.integer n, _) => .error (.invalidValue (.integer n) wanted)
      | (x, _) => .error (.invalidType x.toFound wanted)
    else .error (mismatch wanted (c :: cs))

def unit : Reader Unit := fun _ cs =>
  match skipSpace cs with
  | 'n' :: cs => do return ((), ← word ['u', 'l', 'l'] cs)
  | cs => .error (mismatch "unit" cs)

/-- `null` is nothing. -/
def optional (reader : Reader α) : Reader (Option α) := fun depth cs =>
  match skipSpace cs with
  | 'n' :: cs => do return (none, ← word ['u', 'l', 'l'] cs)
  | cs => do
    let (x, rest) ← reader depth cs
    return (some x, rest)

/-! ### Arrays and objects -/

/-- The elements of an array behind its opening bracket; each one is at least a character long. -/
def itemsFrom (item : List Char → Except Fault (α × List Char)) :
    Nat → Bool → List Char → Except Fault (List α × List Char)
  | 0, _, _ => .error .eofList
  | fuel + 1, first, cs => do
    match ← nextItem first cs with
    | .closed rest => return ([], rest)
    | .part cs =>
      let (x, cs) ← item cs
      let (xs, rest) ← itemsFrom item fuel false cs
      return (x :: xs, rest)

def items (item : List Char → Except Fault (α × List Char)) (cs : List Char) :
    Except Fault (List α × List Char) :=
  itemsFrom item (cs.length + 1) true cs

/-- The members of an object behind its opening bracket, in the order of the text. -/
def membersFrom (item : List Char → Except Fault (α × List Char)) :
    Nat → Bool → List Char → Except Fault (List (String × α) × List Char)
  | 0, _, _ => .error .eofObject
  | fuel + 1, first, cs => do
    match ← nextKey first cs with
    | .closed rest => return ([], rest)
    | .part (key, cs) =>
      let (x, cs) ← item (← colon cs)
      let (xs, rest) ← membersFrom item fuel false cs
      return ((key, x) :: xs, rest)

def members (item : List Char → Except Fault (α × List Char)) (cs : List Char) :
    Except Fault (List (String × α) × List Char) :=
  membersFrom item (cs.length + 1) true cs

/-- One level of nesting is used up by what `inner` reads. -/
def nested (inner : Nat → Except Fault α) : Nat → Except Fault α
  | 0 => .error .tooDeep
  | depth + 1 => inner depth

def list (reader : Reader α) : Reader (List α) := fun depth cs =>
  match skipSpace cs with
  | '[' :: cs => nested (fun depth => items (reader depth) cs) depth
  | cs => .error (mismatch "a sequence" cs)

/-- Of members with one key the last one counts. -/
def dict (reader : Reader α) : Reader (Dict α) := fun depth cs =>
  match skipSpace cs with
  | '{' :: cs =>
    nested (fun depth => do
      let (es, rest) ← members (reader depth) cs
      return (Dict.ofList es, rest)) depth
  | cs => .error (mismatch "a map" cs)

/-- A value of any type, where `inner` reads what stands in its brackets if they may open. -/
def valueWith (inner : Option (List Char → Except Fault (Json × List Char))) (cs : List Char) :
    Except Fault (Json × List Char) :=
  match skipSpace cs with
  | [] => .error .eofValue
  | c :: cs =>
    if c = 'n' then do return (.null, ← word ['u', 'l', 'l'] cs)
    else if c = 't' then do return (.bool true, ← word ['r', 'u', 'e'] cs)
    else if c = 'f' then do return (.bool false, ← word ['a', 'l', 's', 'e'] cs)
    else if c = '-' || c.isDigit then do
      let (x, rest) ← Number.read (c :: cs)
      return (x.toJson, rest)
    else if c = '"' then do
      let (s, rest) ← stringBody cs
      return (.string s, rest)
    else if c = '[' then
      match inner with
      | none => .error .tooDeep
      | some inner => do
        let (xs, rest) ← items inner cs
        return (.array xs, rest)
    else if c = '{' then
      match inner with
      | none => .error .tooDeep
      | some inner => do
        let (es, rest) ← members inner cs
        return (.object (Dict.ofList es).entries, rest)
    else .error .expectedValue

/-- A value of any type; the members of an object are put in the order of their keys. -/
def value : Reader Json
  | 0 => valueWith none
  | depth + 1 => valueWith (some (value depth))

end Reader

end CapsuleCompiler.Json
