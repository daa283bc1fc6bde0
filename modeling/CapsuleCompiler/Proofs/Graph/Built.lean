import CapsuleCompiler.Graph.Basic
import Mathlib.Data.List.Chain
import Mathlib.Data.List.Infix
import Mathlib.Data.List.Nodup
import Mathlib.Logic.Relation

/-!
# Proofs.Graph.Built — graphs that come from steps, their walks and their orders

A graph is built by adding capsules and references one at a time, in any order and with repetitions.  `Sound` is
what every step keeps: capsules and references stand once, and references run between capsules.

A capsule is *before* another in a list without repetitions when the two form a sublist of it; that form survives
insertions into the list (`List.Sublist.trans`), which positions do not.  `acyclic_of_before` is the one argument
for acyclicity used below: an order in which every reference points backwards leaves no room for a cycle.
-/

namespace CapsuleCompiler.DependencyGraph

open Relation

/-! ### Steps -/

/-- One call that extends a graph. -/
inductive Step
  | capsule (id : CapsuleId)
  | dependency (consumer provider : CapsuleId)

def Step.apply (g : DependencyGraph) : Step → DependencyGraph
  | .capsule id => g.addCapsule id
  | .dependency consumer provider => g.addDependency consumer provider

/-- The graph after some steps. -/
def build (steps : List Step) : DependencyGraph := steps.foldl Step.apply empty

structure Sound (g : DependencyGraph) : Prop where
  nodup_nodes : g.nodes.Nodup
  nodup_edges : g.edges.Nodup
  ends_mem : ∀ e ∈ g.edges, e.1 ∈ g.nodes ∧ e.2 ∈ g.nodes

theorem sound_empty : Sound empty := ⟨.nil, .nil, by simp [empty]⟩

theorem mem_nodes_addCapsule {g : DependencyGraph} {id other : CapsuleId} :
    other ∈ (g.addCapsule id).nodes ↔ other ∈ g.nodes ∨ other = id := by
  unfold addCapsule
  split
  · next h => exact ⟨.inl, fun ho => ho.elim (fun h => h) fun heq => heq ▸ h⟩
  · simp

theorem edges_addCapsule (g : DependencyGraph) (id : CapsuleId) : (g.addCapsule id).edges = g.edges := by
  unfold addCapsule
  split <;> rfl

theorem Sound.addCapsule {g : DependencyGraph} (hg : g.Sound) (id : CapsuleId) : (g.addCapsule id).Sound := by
  refine ⟨?_, by rw [edges_addCapsule]; exact hg.nodup_edges, fun e he => ?_⟩
  · unfold DependencyGraph.addCapsule
    split
    · exact hg.nodup_nodes
    · next h => simpa using hg.nodup_nodes.concat h
  · rw [edges_addCapsule] at he
    obtain ⟨h1, h2⟩ := hg.ends_mem e he
    exact ⟨mem_nodes_addCapsule.2 (.inl h1), mem_nodes_addCapsule.2 (.inl h2)⟩

theorem Sound.addEdge {g : DependencyGraph} (hg : g.Sound) {edge : CapsuleId × CapsuleId}
    (h1 : edge.1 ∈ g.nodes) (h2 : edge.2 ∈ g.nodes) : (g.addEdge edge).Sound := by
  unfold DependencyGraph.addEdge
  split
  · exact hg
  · next h =>
    refine ⟨hg.nodup_nodes, by simpa using hg.nodup_edges.concat h, fun e he => ?_⟩
    rcases List.mem_append.1 he with he | he
    · exact hg.ends_mem e he
    · rw [List.mem_singleton] at he
      subst he
      exact ⟨h1, h2⟩

theorem Sound.addDependency {g : DependencyGraph} (hg : g.Sound) (consumer provider : CapsuleId) :
    (g.addDependency consumer provider).Sound :=
  ((hg.addCapsule consumer).addCapsule provider).addEdge
    (mem_nodes_addCapsule.2 (.inl (mem_nodes_addCapsule.2 (.inr rfl))))
    (mem_nodes_addCapsule.2 (.inr rfl))

theorem Sound.apply {g : DependencyGraph} (hg : g.Sound) (step : Step) : (step.apply g).Sound := by
  cases step with
  | capsule id => exact hg.addCapsule id
  | dependency consumer provider => exact hg.addDependency consumer provider

/-- Every graph that is built from steps is sound. -/
theorem sound_build (steps : List Step) : (build steps).Sound := by
  have run : ∀ (steps : List Step) (g : DependencyGraph), g.Sound → (steps.foldl Step.apply g).Sound := by
    intro steps
    induction steps with
    | nil => exact fun g hg => hg
    | cons step steps ih => exact fun g hg => ih _ (hg.apply step)
  exact run steps empty sound_empty

theorem mem_edges_addEdge {g : DependencyGraph} {edge other : CapsuleId × CapsuleId} :
    other ∈ (g.addEdge edge).edges ↔ other ∈ g.edges ∨ other = edge := by
  unfold DependencyGraph.addEdge
  split
  · next h => exact ⟨.inl, fun ho => ho.elim (fun h => h) fun heq => heq ▸ h⟩
  · simp

/-- The references of a graph are those of its steps. -/
theorem mem_edges_build {steps : List Step} {a b : CapsuleId} :
    (a, b) ∈ (build steps).edges ↔ .dependency a b ∈ steps := by
  induction steps using List.reverseRecOn with
  | nil => simp [build, empty]
  | append_singleton steps step ih =>
    have hlast : build (steps ++ [step]) = step.apply (build steps) := List.foldl_append ..
    rw [hlast, List.mem_append, List.mem_singleton, ← ih]
    cases step with
    | capsule id =>
      rw [Step.apply, edges_addCapsule]
      simp
    | dependency consumer provider =>
      rw [Step.apply, addDependency, mem_edges_addEdge, edges_addCapsule, edges_addCapsule, Prod.mk.injEq,
        Step.dependency.injEq]

/-- The capsules that a call brings into a graph. -/
def Step.ends : Step → List CapsuleId
  | .capsule id => [id]
  | .dependency consumer provider => [consumer, provider]

theorem nodes_addEdge (g : DependencyGraph) (edge : CapsuleId × CapsuleId) : (g.addEdge edge).nodes = g.nodes := by
  unfold DependencyGraph.addEdge
  split <;> rfl

/-- The capsules of a graph are those of its steps. -/
theorem mem_nodes_build {steps : List Step} {id : CapsuleId} :
    id ∈ (build steps).nodes ↔ ∃ step ∈ steps, id ∈ step.ends := by
  induction steps using List.reverseRecOn with
  | nil => simp [build, empty]
  | append_singleton steps step ih =>
    have hlast : build (steps ++ [step]) = step.apply (build steps) := List.foldl_append ..
    have hstep : id ∈ (step.apply (build steps)).nodes ↔ id ∈ (build steps).nodes ∨ id ∈ step.ends := by
      cases step with
      | capsule other => rw [Step.apply, mem_nodes_addCapsule, Step.ends, List.mem_singleton]
      | dependency consumer provider =>
        rw [Step.apply, addDependency, nodes_addEdge, mem_nodes_addCapsule, mem_nodes_addCapsule, or_assoc, Step.ends,
          List.mem_pair]
    rw [hlast, hstep, ih]
    simp [or_and_right, exists_or]

/-! ### Walks -/

/-- `a` references `b`. -/
abbrev Refers (g : DependencyGraph) (a b : CapsuleId) : Prop := (a, b) ∈ g.edges

def Acyclic (g : DependencyGraph) : Prop := ∀ id, ¬ TransGen g.Refers id id

theorem acyclic_congr {g h : DependencyGraph} (hrefers : ∀ a b, g.Refers a b ↔ h.Refers a b) :
    g.Acyclic ↔ h.Acyclic := by
  have heq : g.Refers = h.Refers := funext fun a => funext fun b => propext (hrefers a b)
  rw [Acyclic, Acyclic, heq]

/-- The graph without some of its references. -/
def without (g : DependencyGraph) (edges : List (CapsuleId × CapsuleId)) : DependencyGraph :=
  { g with edges := g.edges.filter fun e => !edges.contains e }

theorem refers_without {g : DependencyGraph} {edges : List (CapsuleId × CapsuleId)} {a b : CapsuleId} :
    (g.without edges).Refers a b ↔ g.Refers a b ∧ (a, b) ∉ edges := by
  simp [Refers, without]

theorem nodup_successors {g : DependencyGraph} (hg : g.Sound) (id : CapsuleId) : (g.successors id).Nodup := by
  refine (hg.nodup_edges.filter _).map_on fun e he f hf heq => ?_
  simp only [List.mem_filter, beq_iff_eq] at he hf
  exact Prod.ext (he.2.trans hf.2.symm) heq

/-- The walk along a chain of references, from its first capsule to a later one. -/
theorem transGen_of_isChain {r : CapsuleId → CapsuleId → Prop} {b : CapsuleId} :
    ∀ {ids : List CapsuleId} {a : CapsuleId}, (a :: ids ++ [b]).IsChain r → TransGen r a b
  | [], _, h => .single (by simpa using h)
  | c :: ids, a, h => by
    obtain ⟨hac, h⟩ := List.isChain_cons_cons.1 h
    exact .head hac (transGen_of_isChain h)

/-! ### Orders -/

theorem idxOf_lt_of_before {order : List CapsuleId} (hnd : order.Nodup) {a b : CapsuleId}
    (h : List.Sublist [a, b] order) : order.idxOf a < order.idxOf b := by
  induction order with
  | nil => exact absurd h.length_le (by simp)
  | cons c order ih =>
    obtain ⟨hc, hnd⟩ := List.nodup_cons.1 hnd
    cases h with
    | cons _ h =>
      have ha : a ≠ c := fun heq => hc (heq ▸ h.subset (by simp))
      have hb : b ≠ c := fun heq => hc (heq ▸ h.subset (by simp))
      rw [List.idxOf_cons_ne _ ha.symm, List.idxOf_cons_ne _ hb.symm]
      exact Nat.succ_lt_succ (ih hnd h)
    | cons_cons _ h =>
      have hb : b ≠ a := fun heq => hc (heq ▸ h.subset (by simp))
      rw [List.idxOf_cons_self, List.idxOf_cons_ne _ hb.symm]
      exact Nat.succ_pos _

theorem not_before_of_before {order : List CapsuleId} (hnd : order.Nodup) {a b : CapsuleId}
    (h : List.Sublist [a, b] order) : ¬ List.Sublist [b, a] order := fun h' =>
  Nat.lt_asymm (idxOf_lt_of_before hnd h) (idxOf_lt_of_before hnd h')

/-- A relation that only leads backwards in an order has no cycle. -/
theorem acyclic_of_before {r : CapsuleId → CapsuleId → Prop} {order : List CapsuleId} (hnd : order.Nodup)
    (h : ∀ a b, r a b → List.Sublist [b, a] order) (id : CapsuleId) : ¬ TransGen r id id := by
  have run : ∀ {a b}, TransGen r a b → order.idxOf b < order.idxOf a := by
    intro a b hab
    induction hab with
    | single hab => exact idxOf_lt_of_before hnd (h _ _ hab)
    | tail _ hbc ih => exact (idxOf_lt_of_before hnd (h _ _ hbc)).trans ih
  exact fun hid => Nat.lt_irrefl _ (run hid)

end CapsuleCompiler.DependencyGraph
