import CapsuleCompiler.Catalog
import CapsuleCompiler.Extraction

/-!
# Unit — the capsules that a composition needs

A unit is a capsule to compile, with the references of its source. The units of a composition are its placed
capsules in the order in which they first appear, and behind them the capsules of the catalog that units
reference, breadth first, each capsule once. The collection carries the capsules of the catalog that are not yet
units, and ends because a capsule that becomes a unit leaves them.
-/

namespace CapsuleCompiler

structure CompilationUnit where
  definition : CapsuleDefinition
  /-- Whether the composition places the capsule itself. -/
  placed : Bool
  extraction : Extraction
deriving Inhabited

namespace CompilationUnit

def id (u : CompilationUnit) : CapsuleId := u.definition.id

/-- The ids that the source references. -/
def references (u : CompilationUnit) : List CapsuleId := u.extraction.ids

def ofDefinition (rule : ReferenceRule) (catalog : Catalog) (placed : Bool)
    (d : CapsuleDefinition) : CompilationUnit :=
  ⟨d, placed, .ofSource rule catalog.contains d.id d.source⟩

/-! ### Collection -/

/-- The first definition of each id. -/
def distinct (seen : List CapsuleId) : List CapsuleDefinition → List CapsuleDefinition
  | [] => []
  | d :: ds => if d.id ∈ seen then distinct seen ds else d :: distinct (d.id :: seen) ds

/-- The definitions of referenced ids among those that are no units yet, and the definitions left. -/
def discover (fresh : List CapsuleDefinition) :
    List CapsuleId → List CapsuleDefinition × List CapsuleDefinition
  | [] => ([], fresh)
  | id :: ids =>
    match fresh.find? (·.id == id) with
    | none => discover fresh ids
    | some d =>
      let (found, left) := discover (fresh.filter (·.id != id)) ids
      (d :: found, left)

theorem length_filter_lt {fresh : List CapsuleDefinition} {id : CapsuleId} {d : CapsuleDefinition}
    (h : fresh.find? (·.id == id) = some d) :
    (fresh.filter (·.id != id)).length < fresh.length := by
  have hmem := List.mem_of_find?_eq_some h
  have hid : d.id = id := by simpa using List.find?_some h
  refine Nat.lt_of_le_of_ne (List.length_filter_le ..) fun heq => ?_
  have := (List.length_filter_eq_length_iff.1 heq) d hmem
  simp_all

theorem length_discover (fresh : List CapsuleDefinition) (ids : List CapsuleId) :
    (discover fresh ids).2.length + (discover fresh ids).1.length ≤ fresh.length := by
  induction ids generalizing fresh with
  | nil => simp [discover]
  | cons id ids ih =>
    simp only [discover]
    split
    · exact ih fresh
    · next d h =>
      have := length_filter_lt h
      have := ih (fresh.filter (·.id != id))
      simp only [List.length_cons]
      omega

/-- The units of a queue and all that they lead to. -/
def closure (rule : ReferenceRule) (catalog : Catalog) :
    List CapsuleDefinition → List CompilationUnit → List CompilationUnit
  | _, [] => []
  | fresh, u :: queue =>
    let step := discover fresh u.references
    u :: closure rule catalog step.2 (queue ++ step.1.map (ofDefinition rule catalog false))
termination_by fresh queue => 2 * fresh.length + queue.length
decreasing_by
  have := length_discover fresh u.references
  simp only [List.length_append, List.length_map, List.length_cons]
  omega

/-- The units for the capsules that a composition places. -/
def collect (rule : ReferenceRule) (catalog : Catalog) (placed : List CapsuleDefinition) :
    List CompilationUnit :=
  let first := distinct [] placed
  let fresh := catalog.definitions.filter fun d => !(first.map (·.id)).contains d.id
  closure rule catalog fresh (first.map (ofDefinition rule catalog true))

/-- The findings on unknown references, in the order of the units. -/
def diagnostics (units : List CompilationUnit) : List Diagnostic :=
  units.flatMap (·.extraction.diagnostics)

end CompilationUnit

end CapsuleCompiler
