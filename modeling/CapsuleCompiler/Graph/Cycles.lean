import CapsuleCompiler.Graph.Basic

/-!
# Graph.Cycles — reference cycles

The search goes through the graph depth first, with roots and references in their order. It keeps the capsules
it has not met and the frames of the path to the current capsule, innermost first, each with the references still
to follow. A reference back into the path closes a cycle, which is reported from the capsule it leads to along the
path and back to that capsule. Each capsule is met once, so the search ends.
-/

namespace CapsuleCompiler.DependencyGraph

/-- A capsule on the path and the references of it that have not been followed. -/
abbrev Frame := CapsuleId × List CapsuleId

def path (frames : List Frame) : List CapsuleId := frames.map (·.1)

def pending (frames : List Frame) : Nat := (frames.map fun f => f.2.length + 1).foldr (· + ·) 0

/-- The part of the path from a capsule on it to its end, closed by that capsule. -/
def closeCycle (id : CapsuleId) (frames : List Frame) : List CapsuleId :=
  id :: ((path frames).takeWhile (· ≠ id)).reverse ++ [id]

/-- The capsules not met and the cycles found when all frames are done. -/
def searchCycles (g : DependencyGraph) :
    List CapsuleId → List Frame → List (List CapsuleId) → List CapsuleId × List (List CapsuleId)
  | fresh, [], found => (fresh, found)
  | fresh, (_, []) :: frames, found => searchCycles g fresh frames found
  | fresh, (id, next :: rest) :: frames, found =>
    if next ∈ fresh then
      searchCycles g (fresh.erase next) ((next, g.successors next) :: (id, rest) :: frames) found
    else if next ∈ path ((id, rest) :: frames) then
      searchCycles g fresh ((id, rest) :: frames)
        (found ++ [closeCycle next ((id, rest) :: frames)])
    else searchCycles g fresh ((id, rest) :: frames) found
termination_by fresh frames => (fresh.length, pending frames)
decreasing_by
  · exact Prod.Lex.right _ (by simp [pending])
  · next h =>
      refine Prod.Lex.left _ _ ?_
      have := List.length_erase_of_mem h
      have := List.length_pos_of_mem h
      omega
  · exact Prod.Lex.right _ (by simp [pending])
  · exact Prod.Lex.right _ (by simp [pending])

/-- Searches from each root that no earlier search has met. -/
def searchRoots (g : DependencyGraph) :
    List CapsuleId → List CapsuleId → List (List CapsuleId) → List (List CapsuleId)
  | [], _, found => found
  | root :: roots, fresh, found =>
    if root ∈ fresh then
      let (fresh, found) := searchCycles g (fresh.erase root) [(root, g.successors root)] found
      searchRoots g roots fresh found
    else searchRoots g roots fresh found

/-- The reference cycles, each closed by repeating its first capsule. -/
def findCycles (g : DependencyGraph) : List (List CapsuleId) := g.searchRoots g.nodes g.nodes []

def cycleDiagnostic (chain : List CapsuleId) : Diagnostic where
  severity := .info
  kind := .cycleDetected
  message := "circular capsule reference: " ++ CapsuleId.chain chain
  affected := chain.map (·.text)

def cycleDiagnostics (g : DependencyGraph) : List Diagnostic := g.findCycles.map cycleDiagnostic

end CapsuleCompiler.DependencyGraph
