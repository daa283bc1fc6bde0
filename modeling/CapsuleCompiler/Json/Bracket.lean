import CapsuleCompiler.Json.Token

/-!
# Json.Bracket — what stands between the parts of an array or an object

`nextItem` and `nextKey` look behind an opening bracket or behind a part, and say whether the bracket closes or
another part begins; `first` is true as long as no part has been read. `skip` passes over a value of no
interest. It checks the syntax of that value but neither the range of its numbers nor how deep it is nested,
so it keeps the open brackets itself instead of calling itself for each.
-/

namespace CapsuleCompiler.Json

/-- Behind a closed bracket, or at the start of the next part. -/
inductive Next (α : Type)
  | closed (rest : List Char)
  | part (x : α)

def nextItem (first : Bool) (cs : List Char) : Except Fault (Next (List Char)) :=
  match skipSpace cs with
  | [] => .error .eofList
  | c :: cs =>
    if c = ']' then .ok (.closed cs)
    else if first then .ok (.part (c :: cs))
    else if c = ',' then
      match skipSpace cs with
      | [] => .error .eofValue
      | d :: cs => if d = ']' then .error .trailingComma else .ok (.part (d :: cs))
    else .error .expectedListCommaOrEnd

/-- Behind the bracket that must close an array now. -/
def endItems (cs : List Char) : Except Fault (List Char) :=
  match skipSpace cs with
  | [] => .error .eofList
  | c :: cs =>
    if c = ']' then .ok cs
    else if c = ',' ∧ (skipSpace cs).head? = some ']' then .error .trailingComma
    else .error .trailingCharacters

def keyBody (cs : List Char) : Except Fault (Next (String × List Char)) := do
  return .part (← stringBody cs)

/-- A part of an object begins with its key, which is read. -/
def nextKey (first : Bool) (cs : List Char) : Except Fault (Next (String × List Char)) :=
  match skipSpace cs with
  | [] => .error .eofObject
  | c :: cs =>
    if c = '}' then .ok (.closed cs)
    else if first then if c = '"' then keyBody cs else .error .keyNotString
    else if c = ',' then
      match skipSpace cs with
      | [] => .error .eofValue
      | d :: cs =>
        if d = '"' then keyBody cs
        else if d = '}' then .error .trailingComma
        else .error .keyNotString
    else .error .expectedObjectCommaOrEnd

def colon (cs : List Char) : Except Fault (List Char) :=
  match skipSpace cs with
  | [] => .error .eofObject
  | c :: cs => if c = ':' then .ok cs else .error .expectedColon

/-! ### Values of no interest -/

inductive Bracket
  | square
  | curly
deriving DecidableEq

namespace Bracket

def closing : Bracket → Char
  | square => ']'
  | curly => '}'

def atEnd : Bracket → Fault
  | square => .eofList
  | curly => .eofObject

def commaOrEnd : Bracket → Fault
  | square => .expectedListCommaOrEnd
  | curly => .expectedObjectCommaOrEnd

end Bracket

/-- Behind a string whose opening quote has been passed; half a surrogate pair is let pass. -/
def skipString : List Char → Except Fault (List Char)
  | [] => .error .eofString
  | '"' :: cs => .ok cs
  | '\\' :: c :: cs =>
    if c = 'u' then
      match hexQuad cs with
      | .error e => .error e
      | .ok _ => skipString cs
    else if ['"', '\\', '/', 'b', 'f', 'n', 'r', 't'].contains c then skipString cs
    else .error .invalidEscape
  | ['\\'] => .error .eofString
  | c :: cs => if c < ' ' then .error .controlCharacter else skipString cs

/-- Behind a value that is no array and no object, if one begins here. -/
def skipScalar (c : Char) (cs : List Char) : Except Fault (List Char) :=
  if c = 'n' then word ['u', 'l', 'l'] cs
  else if c = 't' then word ['r', 'u', 'e'] cs
  else if c = 'f' then word ['a', 'l', 's', 'e'] cs
  else if c = '"' then skipString cs
  else if c = '-' then return (← Numeral.read .invalidNumber cs).2
  else if c.isDigit then return (← Numeral.read .invalidNumber (c :: cs)).2
  else .error .expectedValue

/-- The text at the value of the next member, whose key is passed over. -/
def skipKey (cs : List Char) : Except Fault (List Char) :=
  match skipSpace cs with
  | [] => .error .eofObject
  | c :: cs => if c = '"' then do colon (← skipString cs) else .error .keyNotString

/-- What stands before the text: a value, or brackets that are open and the innermost of them with (`true`)
or without a part behind it. -/
inductive SkipState
  | value (opened : List Bracket)
  | inside (hasPart : Bool) (innermost : Bracket) (outer : List Bracket)

/-- One step of passing over a value: `none` when it is complete. -/
def skipStep : SkipState → List Char → Except Fault (Option SkipState × List Char)
  | .value opened, cs =>
    match skipSpace cs with
    | [] => .error .eofValue
    | c :: cs =>
      if c = '[' then .ok (some (.inside false .square opened), cs)
      else if c = '{' then .ok (some (.inside false .curly opened), cs)
      else do
        let rest ← skipScalar c cs
        match opened with
        | [] => return (none, rest)
        | innermost :: outer => return (some (.inside true innermost outer), rest)
  | .inside hasPart innermost outer, cs =>
    let part (cs : List Char) : Except Fault (Option SkipState × List Char) :=
      match innermost with
      | .square => .ok (some (.value (.square :: outer)), cs)
      | .curly => do return (some (.value (.curly :: outer)), ← skipKey cs)
    match skipSpace cs with
    | [] => .error innermost.atEnd
    | c :: cs =>
      if c = innermost.closing then
        match outer with
        | [] => .ok (none, cs)
        | next :: outer => .ok (some (.inside true next outer), cs)
      else if !hasPart then part (c :: cs)
      else if c = ',' then part cs
      else .error innermost.commaOrEnd

/-- Steps until the value is complete; of two steps in a row one passes a character. -/
def skipFrom : Nat → SkipState → List Char → Except Fault (List Char)
  | 0, _, _ => .error .eofValue
  | fuel + 1, state, cs => do
    match ← skipStep state cs with
    | (none, rest) => return rest
    | (some state, rest) => skipFrom fuel state rest

/-- Behind a value of no interest. -/
def skip (cs : List Char) : Except Fault (List Char) :=
  skipFrom (2 * cs.length + 2) (.value []) cs

end CapsuleCompiler.Json
