import CapsuleCompiler.Graph.Basic

/-!
# Graph.Order — capsules after what they reference

A depth-first search puts each capsule on a list once everything it leads to is there. On a graph without
cycles that list has every capsule behind all it references. The second pass checks this: going through the list
backwards, whoever references a capsule must have come by. It names the first one that has not, as does the
search itself a capsule that references itself.
-/

namespace CapsuleCompiler.DependencyGraph

/-- Empties a stack of capsules to visit. A capsule not met before stays on the stack below those it references
and is put on the list when it is on top again. -/
def finish (g : DependencyGraph) :
    List CapsuleId → List CapsuleId → List CapsuleId →
      Except CapsuleId (List CapsuleId × List CapsuleId)
  | fresh, [], done => .ok (fresh, done)
  | fresh, top :: stack, done =>
    if top ∈ fresh then
      if top ∈ g.successors top then .error top
      else
        finish g (fresh.erase top)
          ((g.successors top).filter (· ∈ fresh.erase top) ++ top :: stack) done
    else finish g fresh stack (if top ∈ done then done else done ++ [top])
termination_by fresh stack => (fresh.length, stack.length)
decreasing_by
  · next h _ =>
      refine Prod.Lex.left _ _ ?_
      have := List.length_erase_of_mem h
      have := List.length_pos_of_mem h
      omega
  · exact Prod.Lex.right _ (by simp)

/-- Finishes from each root that no earlier search has met. -/
def finishRoots (g : DependencyGraph) :
    List CapsuleId → List CapsuleId → List CapsuleId → Except CapsuleId (List CapsuleId)
  | [], _, done => .ok done
  | root :: roots, fresh, done =>
    if root ∈ fresh then do
      let (fresh, done) ← finish g fresh [root] done
      finishRoots g roots fresh done
    else finishRoots g roots fresh done

/-- Of a list of consumers first, the first capsule that should have come before one on the list. -/
def lateConsumer? (g : DependencyGraph) (seen : List CapsuleId) : List CapsuleId → Option CapsuleId
  | [] => none
  | id :: ids =>
    match (g.predecessors id).find? fun c => !(id :: seen).contains c with
    | some consumer => some consumer
    | none => lateConsumer? g (id :: seen) ids

/-- All capsules, each one behind all it references, or a capsule that a cycle keeps from its place. -/
def order (g : DependencyGraph) : Except CapsuleId (List CapsuleId) := do
  let done ← g.finishRoots g.nodes g.nodes []
  match g.lateConsumer? [] done.reverse with
  | some id => .error id
  | none => .ok done

def order? (g : DependencyGraph) : Option (List CapsuleId) :=
  match g.order with
  | .ok ids => some ids
  | .error _ => none

def resolveOrder (g : DependencyGraph) : Except CompileError (List CapsuleId) :=
  g.order.mapError fun id => .invalidComposition (.noDependencyOrder id)

end CapsuleCompiler.DependencyGraph
