import CapsuleCompiler.Decimal.Layout
import CapsuleCompiler.Json.Value

/-!
# Json.Printer — the two written forms of a value

The compact form has no blanks at all; the pretty form sets every element and member on a line of its own,
two columns further in than its bracket, and writes an empty array or object as its two brackets. In both, a
string escapes the quote, the backslash and the characters below the space and no others, and a float has the
fewest digits that read back.
-/

namespace CapsuleCompiler.Json

/-! ### Scalars -/

/-- Floats are written in full from `0.00001` up to sixteen places before the point, and always show that they
are no integers. -/
def floatLayout : Decimal.Layout where
  positional e := -5 ≤ e && e ≤ 15
  pointZero := true

def floatChars (negative : Bool) (magnitude : Decimal.Binary64) : List Char :=
  let digits := floatLayout.text magnitude.shortest
  if negative then '-' :: digits else digits

def integerChars (n : Int) : List Char :=
  match n with
  | .ofNat n => Nat.toDigits 10 n
  | .negSucc n => '-' :: Nat.toDigits 10 (n + 1)

/-- The escape of a character below the space. -/
def controlChars (c : Char) : List Char :=
  if c = '\x08' then ['\\', 'b']
  else if c = '\t' then ['\\', 't']
  else if c = '\n' then ['\\', 'n']
  else if c = '\x0c' then ['\\', 'f']
  else if c = '\r' then ['\\', 'r']
  else ['\\', 'u', '0', '0', Nat.digitChar (c.toNat / 16), Nat.digitChar (c.toNat % 16)]

def charChars (c : Char) : List Char :=
  if c = '"' then ['\\', '"']
  else if c = '\\' then ['\\', '\\']
  else if c < ' ' then controlChars c
  else [c]

def bodyChars (cs : List Char) : List Char := cs.flatMap charChars

def stringChars (s : String) : List Char := '"' :: bodyChars s.toList ++ ['"']

/-! ### Compact form -/

mutual

def chars : Json → List Char
  | null => ['n', 'u', 'l', 'l']
  | bool true => ['t', 'r', 'u', 'e']
  | bool false => ['f', 'a', 'l', 's', 'e']
  | integer n => integerChars n
  | float negative magnitude => floatChars negative magnitude
  | string s => stringChars s
  | array items => '[' :: itemChars true items
  | object members => '{' :: memberChars true members

/-- The elements up to the closing bracket; a comma stands before all but the first. -/
def itemChars : Bool → List Json → List Char
  | _, [] => [']']
  | first, x :: xs => (if first then [] else [',']) ++ chars x ++ itemChars false xs

def memberChars : Bool → List (String × Json) → List Char
  | _, [] => ['}']
  | first, (k, x) :: xs =>
    (if first then [] else [',']) ++ stringChars k ++ ':' :: chars x ++ memberChars false xs

end

/-- The compact form. -/
def text (x : Json) : String := .ofList (chars x)

/-! ### Pretty form -/

def newline (depth : Nat) : List Char := '\n' :: List.replicate (2 * depth) ' '

mutual

def prettyChars (depth : Nat) : Json → List Char
  | array [] => ['[', ']']
  | array (x :: xs) =>
    '[' :: newline (depth + 1) ++ prettyChars (depth + 1) x ++ prettyItems (depth + 1) xs ++
      newline depth ++ [']']
  | object [] => ['{', '}']
  | object ((k, x) :: xs) =>
    '{' :: newline (depth + 1) ++ stringChars k ++ ':' :: ' ' :: prettyChars (depth + 1) x ++
      prettyMembers (depth + 1) xs ++ newline depth ++ ['}']
  | null => chars null
  | bool b => chars (bool b)
  | integer n => chars (integer n)
  | float negative magnitude => chars (float negative magnitude)
  | string s => stringChars s

def prettyItems (depth : Nat) : List Json → List Char
  | [] => []
  | x :: xs => ',' :: newline depth ++ prettyChars depth x ++ prettyItems depth xs

def prettyMembers (depth : Nat) : List (String × Json) → List Char
  | [] => []
  | (k, x) :: xs =>
    ',' :: newline depth ++ stringChars k ++ ':' :: ' ' :: prettyChars depth x ++
      prettyMembers depth xs

end

def pretty (x : Json) : String := .ofList (prettyChars 0 x)

end CapsuleCompiler.Json
