import CapsuleCompiler.Json.Number

/-!
# Json.Token — blanks, words and strings of a document

A string is read to its closing quote with its escapes resolved; two escapes that form a surrogate pair are
one character, and half a pair is refused. Reading a string always leaves fewer characters than it was given.
-/

namespace CapsuleCompiler.Json

def isSpace (c : Char) : Bool := c == ' ' || c == '\n' || c == '\t' || c == '\r'

def skipSpace (cs : List Char) : List Char := cs.dropWhile isSpace

/-- The remaining letters of one of the words `null`, `true` and `false`. -/
def word : List Char → List Char → Except Fault (List Char)
  | [], cs => .ok cs
  | _ :: _, [] => .error .eofValue
  | w :: ws, c :: cs => if w = c then word ws cs else .error .expectedIdent

/-! ### Escapes -/

def hexValue? (c : Char) : Option Nat :=
  if c.isDigit then some (c.toNat - '0'.toNat)
  else if 'a' ≤ c && c ≤ 'f' then some (c.toNat - 'a'.toNat + 10)
  else if 'A' ≤ c && c ≤ 'F' then some (c.toNat - 'A'.toNat + 10)
  else none

/-- Four hexadecimal digits; a text with fewer than four bytes left has ended inside the string. -/
def hexQuad : List Char → Except Fault (Nat × List Char)
  | a :: b :: c :: d :: rest =>
    match hexValue? a, hexValue? b, hexValue? c, hexValue? d with
    | some a, some b, some c, some d => .ok (((a * 16 + b) * 16 + c) * 16 + d, rest)
    | _, _, _, _ => .error .invalidEscape
  | cs => .error (if (cs.map Char.utf8Size).foldl (· + ·) 0 < 4 then .eofString else .invalidEscape)

def isLeading (n : Nat) : Bool := 0xD800 ≤ n && n ≤ 0xDBFF

def isTrailing (n : Nat) : Bool := 0xDC00 ≤ n && n ≤ 0xDFFF

/-- The character beyond the first 65536 that a surrogate pair stands for. -/
def pairChar (lead trail : Nat) : Char :=
  .ofNat ((lead - 0xD800) * 1024 + (trail - 0xDC00) + 0x10000)

/-- The second half of a surrogate pair, whose first half has been read. -/
def trailing (lead : Nat) : List Char → Except Fault (Char × List Char)
  | [] => .error .eofString
  | [c] => .error (if c = '\\' then .eofString else .unfinishedSurrogate)
  | c :: d :: cs =>
    if c = '\\' ∧ d = 'u' then
      match hexQuad cs with
      | .error e => .error e
      | .ok (n, rest) =>
        if isTrailing n then .ok (pairChar lead n, rest)
        else .error .loneSurrogate
    else .error .unfinishedSurrogate

def unicodeEscape (cs : List Char) : Except Fault (Char × List Char) :=
  match hexQuad cs with
  | .error e => .error e
  | .ok (n, rest) =>
    if isTrailing n then .error .loneSurrogate
    else if isLeading n then trailing n rest
    else .ok (.ofNat n, rest)

/-- The character that an escape stands for; its backslash has been read. -/
def escape : List Char → Except Fault (Char × List Char)
  | [] => .error .eofString
  | c :: cs =>
    match c with
    | '"' => .ok ('"', cs)
    | '\\' => .ok ('\\', cs)
    | '/' => .ok ('/', cs)
    | 'b' => .ok ('\x08', cs)
    | 'f' => .ok ('\x0c', cs)
    | 'n' => .ok ('\n', cs)
    | 'r' => .ok ('\r', cs)
    | 't' => .ok ('\t', cs)
    | 'u' => unicodeEscape cs
    | _ => .error .invalidEscape

theorem hexQuad_length {cs rest : List Char} {n : Nat} (h : hexQuad cs = .ok (n, rest)) :
    rest.length < cs.length := by
  unfold hexQuad at h
  split at h
  · split at h
    · cases h; simp only [List.length_cons]; omega
    · cases h
  · cases h

theorem trailing_length {lead : Nat} {cs rest : List Char} {c : Char}
    (h : trailing lead cs = .ok (c, rest)) : rest.length < cs.length := by
  unfold trailing at h
  split at h
  · cases h
  · cases h
  · split at h
    · split at h
      · cases h
      · next heq =>
        split at h
        · have := hexQuad_length heq
          simp only [Except.ok.injEq, Prod.mk.injEq] at h
          simp only [List.length_cons, ← h.2]
          omega
        · cases h
    · cases h

theorem unicodeEscape_length {cs rest : List Char} {c : Char}
    (h : unicodeEscape cs = .ok (c, rest)) : rest.length < cs.length := by
  unfold unicodeEscape at h
  split at h
  · cases h
  · next heq =>
    have := hexQuad_length heq
    split at h
    · cases h
    · split at h
      · have := trailing_length h; omega
      · simp only [Except.ok.injEq, Prod.mk.injEq] at h
        rwa [← h.2]

theorem escape_length {cs rest : List Char} {c : Char} (h : escape cs = .ok (c, rest)) :
    rest.length < cs.length := by
  unfold escape at h
  split at h
  · cases h
  · split at h
    case h_9 => have := unicodeEscape_length h; simp only [List.length_cons]; omega
    all_goals cases h
    all_goals simp

/-! ### Strings -/

/-- A string behind its opening quote, with `seen` read before, last character first. -/
def stringFrom (seen : List Char) : List Char → Except Fault (List Char × List Char)
  | [] => .error .eofString
  | c :: cs =>
    if c = '"' then .ok (seen.reverse, cs)
    else if c = '\\' then
      match h : escape cs with
      | .error e => .error e
      | .ok (d, rest) =>
        have := escape_length h
        stringFrom (d :: seen) rest
    else if c < ' ' then .error .controlCharacter
    else stringFrom (c :: seen) cs
termination_by cs => cs.length

/-- A string behind its opening quote. -/
def stringBody (cs : List Char) : Except Fault (String × List Char) :=
  match stringFrom [] cs with
  | .error e => .error e
  | .ok (s, rest) => .ok (.ofList s, rest)

end CapsuleCompiler.Json
