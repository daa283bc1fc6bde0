import CapsuleCompiler.Proofs.Graph.Built
import Mathlib.Data.List.Induction
import Mathlib.Logic.Function.Basic

/-!
# Proofs.Graph.Adjacency — references in the order in which they are made

The graph keeps its references in one list, the oldest in front.  Adjacency lists keep those of each capsule apart, the
newest in front.  Both store a repeated reference once, so an adjacency list that is reversed has what the capsule
references in the order in which it was first referenced (`successors_build`).
-/

namespace CapsuleCompiler.DependencyGraph

/-! ### The list of references -/

/-- The reference that a call makes. -/
def Step.reference? : Step → Option (CapsuleId × CapsuleId)
  | .capsule _ => none
  | .dependency consumer provider => some (consumer, provider)

theorem build_concat (steps : List Step) (step : Step) : build (steps ++ [step]) = step.apply (build steps) :=
  List.foldl_append ..

theorem edges_addDependency (g : DependencyGraph) (a b : CapsuleId) :
    (g.addDependency a b).edges = if (a, b) ∈ g.edges then g.edges else g.edges ++ [(a, b)] := by
  rw [addDependency, addEdge, edges_addCapsule, edges_addCapsule]
  split
  · rw [edges_addCapsule, edges_addCapsule]
  · rfl

/-- References of which none is repeated stand in the order of the calls. -/
theorem edges_build_of_nodup {steps : List Step} (h : (steps.filterMap Step.reference?).Nodup) :
    (build steps).edges = steps.filterMap Step.reference? := by
  induction steps using List.reverseRecOn with
  | nil => rfl
  | append_singleton steps step ih =>
    rw [List.filterMap_append] at h ⊢
    obtain ⟨hnd, -, hnew⟩ := List.nodup_append.1 h
    rw [build_concat]
    cases step with
    | capsule id =>
      rw [Step.apply, edges_addCapsule, ih hnd]
      exact (List.append_nil _).symm
    | dependency a b =>
      have hnot : (a, b) ∉ steps.filterMap Step.reference? := fun hmem =>
        hnew (a, b) hmem (a, b) List.mem_cons_self rfl
      rw [Step.apply, edges_addDependency, ih hnd, if_neg hnot]
      rfl

/-! ### Adjacency lists -/

/-- A new reference comes in front of the older ones of its capsule, and a repeated one changes nothing. -/
def Step.link (lists : CapsuleId → List CapsuleId) : Step → CapsuleId → List CapsuleId
  | .capsule _ => lists
  | .dependency consumer provider =>
    if provider ∈ lists consumer then lists
    else Function.update lists consumer (provider :: lists consumer)

/-- What each capsule references after some calls, the newest reference in front. -/
def newestFirst (steps : List Step) : CapsuleId → List CapsuleId := steps.foldl Step.link fun _ => []

theorem successors_congr {g h : DependencyGraph} (hedges : g.edges = h.edges) (id : CapsuleId) :
    g.successors id = h.successors id := by
  rw [successors, successors, hedges]

theorem successors_addDependency_of_mem {g : DependencyGraph} {a b : CapsuleId} (h : (a, b) ∈ g.edges)
    (id : CapsuleId) : (g.addDependency a b).successors id = g.successors id :=
  successors_congr ((edges_addDependency g a b).trans (if_pos h)) id

theorem successors_addDependency_of_notMem {g : DependencyGraph} {a b : CapsuleId} (h : (a, b) ∉ g.edges)
    (id : CapsuleId) : (g.addDependency a b).successors id = g.successors id ++ if id = a then [b] else [] := by
  rw [successors, edges_addDependency, if_neg h, List.filter_append, List.map_append, List.filter_singleton]
  by_cases hid : id = a
  · simp [hid, successors]
  · have hne : (a == id) = false := beq_eq_false_iff_ne.2 (Ne.symm hid)
    simp [hid, hne, successors]

/-- A reversed adjacency list has the references of its capsule in the order of the graph. -/
theorem successors_build (steps : List Step) (id : CapsuleId) :
    (build steps).successors id = (newestFirst steps id).reverse := by
  induction steps using List.reverseRecOn generalizing id with
  | nil => rfl
  | append_singleton steps step ih =>
    have hlast : newestFirst (steps ++ [step]) = step.link (newestFirst steps) := List.foldl_append ..
    rw [build_concat, hlast]
    cases step with
    | capsule other => exact (successors_congr (edges_addCapsule ..) id).trans (ih id)
    | dependency a b =>
      have hmem : (a, b) ∈ (build steps).edges ↔ b ∈ newestFirst steps a := by
        rw [← mem_successors, ih, List.mem_reverse]
      rw [Step.apply, Step.link]
      by_cases hb : b ∈ newestFirst steps a
      · rw [successors_addDependency_of_mem (hmem.2 hb), if_pos hb, ih]
      · rw [successors_addDependency_of_notMem (mt hmem.1 hb), if_neg hb, ih]
        by_cases hid : id = a
        · subst hid
          simp
        · simp [hid]

end CapsuleCompiler.DependencyGraph
