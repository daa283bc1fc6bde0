import CapsuleCompiler.Document.Capsule

/-!
# Catalog — the capsules there are

A catalog holds one definition for each id it knows; a definition that is inserted takes the place of an earlier
one with its id.
-/

namespace CapsuleCompiler

structure Catalog where
  definitions : List CapsuleDefinition
deriving Inhabited

namespace Catalog

def empty : Catalog := ⟨[]⟩

def size (c : Catalog) : Nat := c.definitions.length

def isEmpty (c : Catalog) : Bool := c.definitions.isEmpty

def lookup (c : Catalog) (id : CapsuleId) : Option CapsuleDefinition :=
  c.definitions.find? (·.id == id)

def contains (c : Catalog) (id : CapsuleId) : Bool := (c.lookup id).isSome

def replace (d : CapsuleDefinition) : List CapsuleDefinition → List CapsuleDefinition
  | [] => [d]
  | e :: es => if e.id = d.id then d :: es else e :: replace d es

def insert (c : Catalog) (d : CapsuleDefinition) : Catalog := ⟨replace d c.definitions⟩

def ofList (ds : List CapsuleDefinition) : Catalog := ds.foldl insert empty

/-- A catalog is written as the array of its definitions. -/
def ofText (document : String) : Except CompileError Catalog :=
  (ofDocument (.list CapsuleDefinition.reader) document).map ofList

/-! ### What a look-up finds -/

theorem id_of_lookup {c : Catalog} {id : CapsuleId} {d : CapsuleDefinition}
    (h : c.lookup id = some d) : d.id = id := by
  simpa using List.find?_some h

theorem find?_replace (d : CapsuleDefinition) (id : CapsuleId) (ds : List CapsuleDefinition) :
    (replace d ds).find? (·.id == id) = if d.id = id then some d else ds.find? (·.id == id) := by
  induction ds with
  | nil => by_cases h : d.id = id <;> simp [replace, h]
  | cons e es ih =>
    simp only [replace]
    split
    · next he => by_cases h : d.id = id <;> simp [h, he]
    · next he =>
      by_cases h : e.id = id
      · have : d.id ≠ id := fun hd => he (h.trans hd.symm)
        simp [h, this]
      · simp [h, ih]

theorem lookup_insert (c : Catalog) (d : CapsuleDefinition) (id : CapsuleId) :
    (c.insert d).lookup id = if d.id = id then some d else c.lookup id :=
  find?_replace d id c.definitions

end Catalog

end CapsuleCompiler
