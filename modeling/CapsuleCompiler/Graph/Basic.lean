import CapsuleCompiler.Error

/-!
# Graph.Basic — which capsule references which

Capsules and references stand in the order in which they were added, each of them once. A reference runs from
the capsule that makes it to the capsule it names; both are capsules of the graph, and a capsule may reference
itself.
-/

namespace CapsuleCompiler

structure DependencyGraph where
  nodes : List CapsuleId
  edges : List (CapsuleId × CapsuleId)
deriving Inhabited

namespace DependencyGraph

def empty : DependencyGraph := ⟨[], []⟩

def addCapsule (g : DependencyGraph) (id : CapsuleId) : DependencyGraph :=
  if id ∈ g.nodes then g else { g with nodes := g.nodes ++ [id] }

/-- The place of a capsule in the order of the graph. -/
def indexOf (g : DependencyGraph) (id : CapsuleId) : Nat := g.nodes.idxOf id

def addEdge (g : DependencyGraph) (edge : CapsuleId × CapsuleId) : DependencyGraph :=
  if edge ∈ g.edges then g else { g with edges := g.edges ++ [edge] }

def addDependency (g : DependencyGraph) (consumer provider : CapsuleId) : DependencyGraph :=
  ((g.addCapsule consumer).addCapsule provider).addEdge (consumer, provider)

/-- What a capsule references, in the order of the references. -/
def successors (g : DependencyGraph) (id : CapsuleId) : List CapsuleId :=
  (g.edges.filter (·.1 == id)).map (·.2)

/-- What references a capsule. -/
def predecessors (g : DependencyGraph) (id : CapsuleId) : List CapsuleId :=
  (g.edges.filter (·.2 == id)).map (·.1)

@[simp] theorem mem_successors {g : DependencyGraph} {a b : CapsuleId} :
    b ∈ g.successors a ↔ (a, b) ∈ g.edges := by
  simp only [successors, List.mem_map, List.mem_filter, beq_iff_eq]
  exact ⟨fun ⟨_, ⟨he, ha⟩, hb⟩ => ha ▸ hb ▸ he, fun h => ⟨(a, b), ⟨h, rfl⟩, rfl⟩⟩

@[simp] theorem mem_predecessors {g : DependencyGraph} {a b : CapsuleId} :
    a ∈ g.predecessors b ↔ (a, b) ∈ g.edges := by
  simp only [predecessors, List.mem_map, List.mem_filter, beq_iff_eq]
  exact ⟨fun ⟨_, ⟨he, hb⟩, ha⟩ => ha ▸ hb ▸ he, fun h => ⟨(a, b), ⟨h, rfl⟩, rfl⟩⟩

end DependencyGraph

end CapsuleCompiler
