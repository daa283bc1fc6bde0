import CapsuleCompiler.Json.Reader

/-!
# Json.Record — records and alternatives

A record is written as an object, or as an array of its fields in order. `Fields` lists its fields with their
readers, and the values make a nested pair. In an object the fields come in any order, other members are passed
over, a field that comes twice is a fault where it comes again, and a field that is missing is a fault when the
object has closed. An alternative is written as its name, or as an object whose only member has that name.
-/

namespace CapsuleCompiler.Json

/-- What a field that is not written stands for. -/
inductive Absent (α : Type)
  /-- The field must be written. -/
  | fault
  /-- In an object it may be left out, in an array it may not. -/
  | inObject (x : α)
  | anywhere (x : α)

def Absent.inObject? : Absent α → Option α
  | fault => none
  | inObject x => some x
  | anywhere x => some x

def Absent.inArray? : Absent α → Option α
  | anywhere x => some x
  | _ => none

/-- The fields of a record in order. -/
inductive Fields : Type → Type 1
  | done : Fields Unit
  | field {α β : Type} (name : String) (reader : Reader α) (absent : Absent α) (rest : Fields β) :
      Fields (α × β)

namespace Fields

variable {σ : Type}

def count {σ : Type} : Fields σ → Nat
  | done => 0
  | field _ _ _ rest => rest.count + 1

/-! ### Object form -/

/-- The values read so far. -/
def Draft : {σ : Type} → Fields σ → Type
  | _, done => Unit
  | _, field (α := α) _ _ _ rest => Option α × rest.Draft

def blank : {σ : Type} → (fs : Fields σ) → fs.Draft
  | _, done => ()
  | _, field _ _ _ rest => (none, rest.blank)

/-- Reads the member of a key behind that key. -/
def accept (depth : Nat) (key : String) (cs : List Char) :
    {σ : Type} → (fs : Fields σ) → fs.Draft → Except Fault (fs.Draft × List Char)
  | _, done, _ => do return ((), ← skip (← colon cs))
  | _, field name reader _ rest, draft =>
    if key = name then
      match draft.1 with
      | some _ => .error (.duplicateField name)
      | none => do
        let (x, cs) ← reader depth (← colon cs)
        return ((some x, draft.2), cs)
    else do
      let (later, cs) ← accept depth key cs rest draft.2
      return ((draft.1, later), cs)

def close : {σ : Type} → (fs : Fields σ) → fs.Draft → Except Fault σ
  | _, done, _ => .ok ()
  | _, field name _ absent rest, draft =>
    match draft.1.or absent.inObject? with
    | none => .error (.missingField name)
    | some x => do return (x, ← rest.close draft.2)

def readMembers (fs : Fields σ) (depth : Nat) :
    Nat → Bool → fs.Draft → List Char → Except Fault (σ × List Char)
  | 0, _, _, _ => .error .eofObject
  | fuel + 1, first, draft, cs => do
    match ← nextKey first cs with
    | .closed rest => return (← fs.close draft, rest)
    | .part (key, cs) =>
      let (draft, cs) ← fs.accept depth key cs draft
      readMembers fs depth fuel false draft cs

/-! ### Array form -/

/-- The fields from `index` on when the array has no more elements. -/
def fill (tooShort : Nat → Fault) : {σ : Type} → Fields σ → Nat → Except Fault σ
  | _, done, _ => .ok ()
  | _, field _ _ absent rest, index =>
    match absent.inArray? with
    | none => .error (tooShort index)
    | some x => do return (x, ← fill tooShort rest (index + 1))

def readItems (tooShort : Nat → Fault) (depth : Nat) :
    {σ : Type} → Fields σ → Nat → List Char → Except Fault (σ × List Char)
  | _, done, _, cs => do return ((), ← endItems cs)
  | _, field name reader absent rest, index, cs => do
    match ← nextItem (index == 0) cs with
    | .closed after => return (← fill tooShort (field name reader absent rest) index, after)
    | .part cs =>
      let (x, cs) ← reader depth cs
      let (xs, cs) ← readItems tooShort depth rest (index + 1) cs
      return ((x, xs), cs)

end Fields

namespace Reader

def record (name : String) (fs : Fields σ) : Reader σ := fun depth cs =>
  match skipSpace cs with
  | '[' :: cs =>
    nested (fun depth => fs.readItems (.invalidLength · name fs.count) depth 0 cs) depth
  | '{' :: cs => nested (fun depth => fs.readMembers depth (cs.length + 1) true fs.blank cs) depth
  | cs => .error (mismatch ("struct " ++ name) cs)

/-! ### Alternatives -/

/-- An alternative is a constant, or stands for a value of its own. -/
inductive Content (α : Type)
  | constant (x : α)
  | value (reader : Reader α)

/-- The alternative of a name; `other` takes all names that are not listed. -/
def choose (cases : List (String × Content α)) (other : Option α) (name : String) :
    Except Fault (Content α) :=
  match cases.lookup name, other with
  | some content, _ => .ok content
  | none, some x => .ok (.constant x)
  | none, none => .error (.unknownVariant name (cases.map (·.1)))

/-- The name of an alternative behind the bracket of its object. -/
def variantName (cs : List Char) : Except Fault (String × List Char) :=
  match skipSpace cs with
  | [] => .error .eofObject
  | c :: cs =>
    if c = '"' then stringBody cs
    else if c = '}' then .error .expectedValue
    else .error .keyNotString

def closeVariant (cs : List Char) : Except Fault (List Char) :=
  match skipSpace cs with
  | [] => .error .eofObject
  | c :: cs => if c = '}' then .ok cs else .error .expectedValue

def choice (cases : List (String × Content α)) (other : Option α) : Reader α := fun depth cs =>
  match skipSpace cs with
  | [] => .error .eofValue
  | '"' :: cs => do
    let (name, rest) ← stringBody cs
    match ← choose cases other name with
    | .constant x => return (x, rest)
    | .value _ => .error (.invalidType .unitVariant "newtype variant")
  | '{' :: cs =>
    nested (fun depth => do
      let (name, cs) ← variantName cs
      let content ← choose cases other name
      let cs ← colon cs
      let (x, cs) ←
        match content with
        | .constant x => unit.map (fun _ => x) depth cs
        | .value reader => reader depth cs
      return (x, ← closeVariant cs)) depth
  | _ => .error .expectedValue

/-- A choice among constants only. -/
def constants (cases : List (String × α)) : Reader α :=
  choice (cases.map fun c => (c.1, .constant c.2)) none

end Reader

end CapsuleCompiler.Json
