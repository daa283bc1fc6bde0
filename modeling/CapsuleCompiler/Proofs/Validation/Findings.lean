import CapsuleCompiler.Proofs.Compilation.References
import CapsuleCompiler.Proofs.Generation.Scope

/-!
# Proofs.Validation.Findings — what is left out of a composition, and what is said about it

A composition is validated unless an instance id repeats (`validate_eq_error_iff`, `validate_eq_ok_iff`).  What is right
about a node, a binding or a connection is said here without the validation: `Places`, `Offers` and `Takes` speak of the
nodes and the catalog only.  `Accounts` then gives for every node, binding and connection, in order, the findings on it,
and leaves no others.  Errors are the findings on nodes and connections that are left out, so an artifact has errors
exactly if something was (`Accounts.hasErrors_iff`).
-/

namespace CapsuleCompiler

/-! ### Repeated names -/

section Repeated

variable {α : Type} [BEq α] [LawfulBEq α] {seen xs : List α} {x : α}

/-- The first element that stands before in the list, or among those seen. -/
theorem firstRepeated?_eq_some_iff : firstRepeated? seen xs = some x ↔ ∃ before after, xs = before ++ x :: after ∧
    before.Nodup ∧ (∀ y ∈ before, y ∉ seen) ∧ (x ∈ before ∨ x ∈ seen) := by
  induction xs generalizing seen with
  | nil => simp [firstRepeated?]
  | cons y ys ih =>
    rw [firstRepeated?]
    by_cases hy : y ∈ seen
    · rw [if_pos (List.contains_iff_mem.2 hy)]
      constructor
      · intro h
        cases h
        exact ⟨[], ys, rfl, List.nodup_nil, by simp, .inr hy⟩
      · rintro ⟨before, after, heq, -, hfresh, -⟩
        cases before with
        | nil => rw [(List.cons_eq_cons.1 heq).1]
        | cons z before => exact absurd ((List.cons_eq_cons.1 heq).1 ▸ hy) (hfresh z List.mem_cons_self)
    · rw [if_neg (by simpa using hy), ih]
      constructor
      · rintro ⟨before, after, rfl, hnd, hfresh, hx⟩
        have hnew : y ∉ before := fun hmem => hfresh y hmem List.mem_cons_self
        refine ⟨y :: before, after, rfl, List.nodup_cons.2 ⟨hnew, hnd⟩, fun z hz => ?_, ?_⟩
        · rcases List.mem_cons.1 hz with rfl | hz
          · exact hy
          · exact fun hseen => hfresh z hz (List.mem_cons_of_mem _ hseen)
        · rcases hx with hx | hx
          · exact .inl (List.mem_cons_of_mem _ hx)
          · rcases List.mem_cons.1 hx with rfl | hx
            · exact .inl List.mem_cons_self
            · exact .inr hx
      · rintro ⟨before, after, heq, hnd, hfresh, hx⟩
        cases before with
        | nil =>
          obtain ⟨rfl, -⟩ := List.cons_eq_cons.1 heq
          simp [hy] at hx
        | cons z before =>
          obtain ⟨rfl, rfl⟩ := List.cons_eq_cons.1 heq
          obtain ⟨hnew, hnd⟩ := List.nodup_cons.1 hnd
          refine ⟨before, after, rfl, hnd, fun w hw hseen => ?_, ?_⟩
          · rcases List.mem_cons.1 hseen with rfl | hseen
            · exact hnew hw
            · exact hfresh w (List.mem_cons_of_mem _ hw) hseen
          · rcases hx with hx | hx
            · rcases List.mem_cons.1 hx with rfl | hx
              · exact .inr List.mem_cons_self
              · exact .inl hx
            · exact .inr (List.mem_cons_of_mem _ hx)

theorem firstRepeated?_eq_none_iff : firstRepeated? seen xs = none ↔ xs.Nodup ∧ ∀ y ∈ xs, y ∉ seen := by
  induction xs generalizing seen with
  | nil => simp [firstRepeated?]
  | cons y ys ih =>
    rw [firstRepeated?, List.nodup_cons]
    by_cases hy : y ∈ seen
    · rw [if_pos (List.contains_iff_mem.2 hy)]
      simp [hy]
    · rw [if_neg (by simpa using hy), ih]
      constructor
      · rintro ⟨hnd, hfresh⟩
        refine ⟨⟨fun hmem => hfresh y hmem List.mem_cons_self, hnd⟩, fun z hz => ?_⟩
        rcases List.mem_cons.1 hz with rfl | hz
        · exact hy
        · exact fun hseen => hfresh z hz (List.mem_cons_of_mem _ hseen)
      · rintro ⟨⟨hnew, hnd⟩, hfresh⟩
        refine ⟨hnd, fun z hz hseen => ?_⟩
        rcases List.mem_cons.1 hseen with rfl | hseen
        · exact hnew hz
        · exact hfresh z (List.mem_cons_of_mem _ hz) hseen

end Repeated

/-! ### What is right about a composition -/

namespace Composition

variable (c : Composition) (catalog : Catalog)

/-- An instance of the composition whose capsule the catalog defines. -/
def Places (id : InstanceId) (d : CapsuleDefinition) : Prop :=
  ∃ n ∈ c.nodes, n.id = id ∧ catalog.lookup n.capsule = some d

/-- A declared output of a placed instance. -/
def Offers (source : PortRef) (output : PortSpec) : Prop :=
  ∃ d, c.Places catalog source.owner d ∧ d.output? source.port = some output

/-- A declared input of a placed instance. -/
def Takes (target : PortRef) (input : PortSpec) : Prop :=
  ∃ d, c.Places catalog target.owner d ∧ d.input? target.port = some input

/-- A connection from a declared output to a declared input of placed instances. -/
def Links (k : Connection) : Prop :=
  (∃ output, c.Offers catalog k.source output) ∧ ∃ input, c.Takes catalog k.target input

/-- A binding of a declared input, to a declared output of a placed instance if it is a reference. -/
def Usable (p : PlacedNode) (port : String) (binding : Binding) : Prop :=
  (p.definition.input? port).isSome ∧
    ∀ source, binding = .reference source → ∃ output, c.Offers catalog source output

/-- The findings on a node. -/
inductive NodeFindings (n : Node) : List Diagnostic → Prop
  | placed (h : catalog.contains n.capsule) : NodeFindings n []
  | leftOut (h : ¬catalog.contains n.capsule) (message : String) :
    NodeFindings n [⟨.error, .missingDependency, message, [n.id.text, n.capsule.text]⟩]

/-- The findings on a binding of a placed node. -/
inductive BindingFindings : PlacedNode × String × Binding → List Diagnostic → Prop
  | usable {p : PlacedNode} {port : String} {binding : Binding} (h : c.Usable catalog p port binding) :
    BindingFindings (p, port, binding) []
  | unusable {p : PlacedNode} {port : String} {binding : Binding} (h : ¬c.Usable catalog p port binding)
    (message other : String) :
    BindingFindings (p, port, binding) [⟨.warning, .invalidPort, message, [p.node.id.text, other]⟩]

/-- The findings on a connection. -/
inductive ConnectionFindings (k : Connection) : List Diagnostic → Prop
  | matching {output input : PortSpec} (houtput : c.Offers catalog k.source output)
    (hinput : c.Takes catalog k.target input)
    (htypes : output.type = input.type ∨ output.type = .any ∨ input.type = .any) : ConnectionFindings k []
  | mismatched {output input : PortSpec} (houtput : c.Offers catalog k.source output)
    (hinput : c.Takes catalog k.target input)
    (htypes : output.type ≠ input.type ∧ output.type ≠ .any ∧ input.type ≠ .any) (message : String) :
    ConnectionFindings k [⟨.warning, .typeMismatch, message, [k.source.owner.text, k.target.owner.text]⟩]
  | dropped (h : ¬c.Links catalog k) (message : String) :
    ConnectionFindings k [⟨.error, .invalidPort, message, [k.source.owner.text, k.target.owner.text]⟩]

end Composition

/-- The bindings of placed nodes, in order. -/
def Validation.bindings (v : Validation) : List (PlacedNode × String × Binding) :=
  v.placed.flatMap fun p => p.node.bindings.entries.map (p, ·)

/-- What a validation keeps of a composition, and the findings on each of its parts. -/
structure Validation.Accounts (v : Validation) (c : Composition) (catalog : Catalog) : Prop where
  distinct : (c.nodes.map (·.id)).Nodup
  nodes : v.placed.map (·.node) = c.nodes.filter (catalog.contains ·.capsule)
  definitions : ∀ p ∈ v.placed, catalog.lookup p.node.capsule = some p.definition
  connections : ∃ kept : Connection → Bool,
    (∀ k, kept k ↔ c.Links catalog k) ∧ v.connections = c.connections.filter kept
  diagnostics : ∃ onNodes onBindings onConnections,
    List.Forall₂ (Composition.NodeFindings catalog) c.nodes onNodes ∧
    List.Forall₂ (c.BindingFindings catalog) v.bindings onBindings ∧
    List.Forall₂ (c.ConnectionFindings catalog) c.connections onConnections ∧
    v.diagnostics = onNodes.flatten ++ onBindings.flatten ++ onConnections.flatten

/-! ### When there is a validation -/

namespace Composition

variable {c : Composition} {catalog : Catalog}

/-- A composition is refused for the first node whose id stands before. -/
theorem validate_eq_error_iff {e : CompileError} : c.validate catalog = .error e ↔ ∃ before n after,
    c.nodes = before ++ n :: after ∧ (before.map (·.id)).Nodup ∧ n.id ∈ before.map (·.id) ∧
      e = .invalidComposition (.repeatedInstance n.id) := by
  have hrepeated (id : InstanceId) : c.repeatedInstance? = some id ↔ ∃ before n after,
      c.nodes = before ++ n :: after ∧ (before.map (·.id)).Nodup ∧ n.id ∈ before.map (·.id) ∧ n.id = id := by
    rw [repeatedInstance?, firstRepeated?_eq_some_iff]
    constructor
    · rintro ⟨ids, rest, heq, hnd, -, hid⟩
      obtain ⟨before, more, hnodes, rfl, hmore⟩ := List.map_eq_append_iff.1 heq
      obtain ⟨n, after, rfl, rfl, -⟩ := List.map_eq_cons_iff.1 hmore
      exact ⟨before, n, after, hnodes, hnd, by simpa using hid, rfl⟩
    · rintro ⟨before, n, after, hnodes, hnd, hid, rfl⟩
      exact ⟨before.map (·.id), after.map (·.id), by simp [hnodes], hnd, by simp, .inl hid⟩
  unfold validate
  cases h : c.repeatedInstance? with
  | none =>
    have hnone (id : InstanceId) : c.repeatedInstance? ≠ some id := by simp [h]
    constructor
    · intro he
      cases he
    · rintro ⟨before, n, after, hnodes, hnd, hid, -⟩
      exact absurd ((hrepeated n.id).2 ⟨before, n, after, hnodes, hnd, hid, rfl⟩) (hnone n.id)
  | some id =>
    constructor
    · intro he
      cases he
      obtain ⟨before, n, after, hnodes, hnd, hid, rfl⟩ := (hrepeated id).1 h
      exact ⟨before, n, after, hnodes, hnd, hid, rfl⟩
    · rintro ⟨before, n, after, hnodes, hnd, hid, rfl⟩
      have hsome := (hrepeated n.id).2 ⟨before, n, after, hnodes, hnd, hid, rfl⟩
      rw [h] at hsome
      rw [Option.some.inj hsome]

theorem validate_eq_ok_iff {v : Validation} :
    c.validate catalog = .ok v ↔ (c.nodes.map (·.id)).Nodup ∧ v = .ofComposition catalog c := by
  have hdistinct : c.repeatedInstance? = none ↔ (c.nodes.map (·.id)).Nodup := by
    rw [repeatedInstance?, firstRepeated?_eq_none_iff]
    simp
  rw [← hdistinct, validate]
  cases c.repeatedInstance? with
  | none => simp [eq_comm]
  | some id => simp

end Composition

/-- The stages succeed for distinct instances, whatever the catalog. -/
theorem Compiler.exists_stages_iff {compiler : Compiler} {c : Composition} :
    (∃ s, compiler.stages c = .ok s) ↔ (c.nodes.map (·.id)).Nodup := by
  constructor
  · rintro ⟨s, hs⟩
    obtain ⟨v, hv, -⟩ := bind_eq_ok.1 hs
    exact (Composition.validate_eq_ok_iff.1 hv).1
  · intro hnd
    exact ⟨_, stages_of_validate (Composition.validate_eq_ok_iff.2 ⟨hnd, rfl⟩)⟩

/-! ### Placed nodes and their ports -/

namespace Validation

variable {c : Composition} {catalog : Catalog} {p : PlacedNode} {id : InstanceId}

theorem mem_place_iff {nodes : List Node} : p ∈ place catalog nodes ↔
    p.node ∈ nodes ∧ catalog.lookup p.node.capsule = some p.definition := by
  unfold place
  rw [List.mem_filterMap]
  constructor
  · rintro ⟨n, hn, h⟩
    obtain ⟨d, hd, rfl⟩ := Option.map_eq_some_iff.1 h
    exact ⟨hn, hd⟩
  · rintro ⟨hn, hd⟩
    exact ⟨p.node, hn, by rw [hd]; rfl⟩

theorem map_node_place (nodes : List Node) :
    (place catalog nodes).map (·.node) = nodes.filter (catalog.contains ·.capsule) := by
  induction nodes with
  | nil => rfl
  | cons n nodes ih =>
    unfold place at ih ⊢
    cases h : catalog.lookup n.capsule <;> simp [h, Catalog.contains, ih]

section

variable (hnd : (c.nodes.map (·.id)).Nodup)
include hnd

theorem nodup_place : ((place catalog c.nodes).map (·.node.id)).Nodup := by
  have hmap : (place catalog c.nodes).map (·.node.id) = (c.nodes.filter (catalog.contains ·.capsule)).map (·.id) := by
    rw [← map_node_place, List.map_map]
    rfl
  rw [hmap]
  exact hnd.sublist (List.filter_sublist.map _)

/-- Distinct instances are found under their ids. -/
theorem findPlaced_eq_some_iff : findPlaced (place catalog c.nodes) id = some p ↔
    p ∈ place catalog c.nodes ∧ p.node.id = id :=
  find?_key_eq_some_iff (nodup_place hnd)

theorem exists_findPlaced_iff {f : CapsuleDefinition → Prop} :
    (∃ p, findPlaced (place catalog c.nodes) id = some p ∧ f p.definition) ↔ ∃ d, c.Places catalog id d ∧ f d := by
  constructor
  · rintro ⟨p, hp, hf⟩
    obtain ⟨hplaced, hid⟩ := (findPlaced_eq_some_iff hnd).1 hp
    obtain ⟨hnode, hd⟩ := mem_place_iff.1 hplaced
    exact ⟨p.definition, ⟨p.node, hnode, hid, hd⟩, hf⟩
  · rintro ⟨d, ⟨n, hn, hid, hd⟩, hf⟩
    exact ⟨⟨n, d⟩, (findPlaced_eq_some_iff hnd).2 ⟨mem_place_iff.2 ⟨hn, hd⟩, hid⟩, hf⟩

theorem isOutput_iff {source : PortRef} :
    isOutput (place catalog c.nodes) source ↔ ∃ output, c.Offers catalog source output := by
  unfold isOutput
  rw [Option.any_eq_true, exists_findPlaced_iff hnd (f := fun d => (d.output? source.port).isSome)]
  simp only [Option.isSome_iff_exists, Composition.Offers]
  constructor
  · rintro ⟨d, hd, output, houtput⟩
    exact ⟨output, d, hd, houtput⟩
  · rintro ⟨output, d, hd, houtput⟩
    exact ⟨d, hd, output, houtput⟩

theorem linkedPorts_eq_ok_iff {unknown : List InstanceId} {k : Connection} {output input : PortSpec} :
    linkedPorts (place catalog c.nodes) unknown k = .ok (output, input) ↔
      c.Offers catalog k.source output ∧ c.Takes catalog k.target input := by
  have hend {id : InstanceId} {p : PlacedNode} : endpoint (place catalog c.nodes) unknown id = .ok p ↔
      findPlaced (place catalog c.nodes) id = some p := by
    unfold endpoint
    cases findPlaced (place catalog c.nodes) id <;> simp
  rw [Composition.Offers, Composition.Takes, ← exists_findPlaced_iff hnd, ← exists_findPlaced_iff hnd, linkedPorts,
    bind_eq_ok]
  simp only [bind_eq_ok, hend]
  constructor
  · rintro ⟨producer, hproducer, consumer, hconsumer, h⟩
    split at h
    · cases h
    · next houtput =>
      split at h
      · cases h
      · next hinput =>
        cases h
        exact ⟨⟨producer, hproducer, houtput⟩, consumer, hconsumer, hinput⟩
  · rintro ⟨⟨producer, hproducer, houtput⟩, consumer, hconsumer, hinput⟩
    exact ⟨producer, hproducer, consumer, hconsumer, by rw [houtput, hinput]⟩

theorem isKept_iff {unknown : List InstanceId} {k : Connection} :
    isKept (place catalog c.nodes) unknown k ↔ c.Links catalog k := by
  unfold isKept Composition.Links
  cases h : linkedPorts (place catalog c.nodes) unknown k with
  | ok ports =>
    obtain ⟨houtput, hinput⟩ := (linkedPorts_eq_ok_iff hnd).1 h
    simp only [true_iff]
    exact ⟨⟨_, houtput⟩, _, hinput⟩
  | error fault =>
    simp only [Bool.false_eq_true, false_iff]
    rintro ⟨⟨output, houtput⟩, input, hinput⟩
    rw [(linkedPorts_eq_ok_iff hnd).2 ⟨houtput, hinput⟩] at h
    cases h

/-! ### Findings -/

theorem bindingFindings_checkBinding (p : PlacedNode) (port : String) (binding : Binding) :
    c.BindingFindings catalog (p, port, binding) (checkBinding (place catalog c.nodes) p port binding).toList := by
  unfold checkBinding
  by_cases hinput : (p.definition.input? port).isNone
  · rw [if_pos hinput]
    refine .unusable (fun h => ?_) _ _
    have hdeclared := h.1
    rw [Option.isNone_iff_eq_none.1 hinput] at hdeclared
    cases hdeclared
  · have hsome : (p.definition.input? port).isSome := by simpa [← Option.isSome_iff_ne_none] using hinput
    rw [if_neg hinput]
    cases binding with
    | literal value => exact .usable ⟨hsome, fun source h => by cases h⟩
    | reference source =>
      dsimp only
      by_cases houtput : isOutput (place catalog c.nodes) source
      · rw [if_pos houtput]
        refine .usable ⟨hsome, fun r h => ?_⟩
        cases h
        exact (isOutput_iff hnd).1 houtput
      · rw [if_neg houtput]
        exact .unusable (fun h => houtput ((isOutput_iff hnd).2 (h.2 source rfl))) _ _

theorem connectionFindings_checkConnection (unknown : List InstanceId) (k : Connection) :
    c.ConnectionFindings catalog k (checkConnection (place catalog c.nodes) unknown k).toList := by
  unfold checkConnection
  cases h : linkedPorts (place catalog c.nodes) unknown k with
  | error fault =>
    refine .dropped (fun hlinks => ?_) _
    have hkept : isKept (place catalog c.nodes) unknown k := (isKept_iff hnd).2 hlinks
    unfold isKept at hkept
    rw [h] at hkept
    cases hkept
  | ok ports =>
    obtain ⟨output, input⟩ := ports
    obtain ⟨houtput, hinput⟩ := (linkedPorts_eq_ok_iff hnd).1 h
    dsimp only
    have hcompatible : output.type.compatible input.type ↔
        output.type = input.type ∨ output.type = .any ∨ input.type = .any := by
      simp [PortType.compatible, or_assoc]
    by_cases htypes : output.type.compatible input.type
    · rw [if_pos htypes]
      exact .matching houtput hinput (hcompatible.1 htypes)
    · rw [if_neg htypes]
      rw [hcompatible, not_or, not_or] at htypes
      exact .mismatched houtput hinput htypes _

end

theorem map_unknownCapsule_unplaced (nodes : List Node) : (unplaced catalog nodes).map unknownCapsule =
    (nodes.map fun n => if catalog.contains n.capsule then [] else [unknownCapsule n]).flatten := by
  unfold unplaced
  induction nodes with
  | nil => rfl
  | cons n nodes ih => by_cases h : catalog.contains n.capsule <;> simp [h, ih]

theorem flatMap_checkBindings (v : Validation) (placed : List PlacedNode) : v.placed.flatMap (checkBindings placed) =
    (v.bindings.map fun b => (checkBinding placed b.1 b.2.1 b.2.2).toList).flatten := by
  rw [← List.flatMap_def, bindings, List.flatMap_assoc]
  refine congrArg (v.placed.flatMap ·) (funext fun p => ?_)
  rw [checkBindings, List.filterMap_eq_flatMap_toList, List.flatMap_map]

/-- The validation of distinct instances accounts for every part of the composition. -/
theorem accounts_ofComposition (hnd : (c.nodes.map (·.id)).Nodup) : (ofComposition catalog c).Accounts c catalog where
  distinct := hnd
  nodes := map_node_place c.nodes
  definitions := fun p hp => (mem_place_iff.1 hp).2
  connections := ⟨_, fun k => isKept_iff hnd, rfl⟩
  diagnostics := by
    let placed := place catalog c.nodes
    let unknown := (unplaced catalog c.nodes).map (·.id)
    refine ⟨c.nodes.map fun n => if catalog.contains n.capsule then [] else [unknownCapsule n],
      (ofComposition catalog c).bindings.map fun b => (checkBinding placed b.1 b.2.1 b.2.2).toList,
      c.connections.map fun k => (checkConnection placed unknown k).toList, ?_, ?_, ?_, ?_⟩
    · rw [List.forall₂_map_right_iff, List.forall₂_same]
      intro n _
      by_cases h : catalog.contains n.capsule
      · rw [if_pos h]
        exact .placed h
      · rw [if_neg h]
        exact .leftOut h _
    · rw [List.forall₂_map_right_iff, List.forall₂_same]
      rintro ⟨p, port, binding⟩ _
      exact bindingFindings_checkBinding hnd p port binding
    · rw [List.forall₂_map_right_iff, List.forall₂_same]
      exact fun k _ => connectionFindings_checkConnection hnd unknown k
    · rw [← map_unknownCapsule_unplaced, ← flatMap_checkBindings, ← List.flatMap_def,
        ← List.filterMap_eq_flatMap_toList]
      rfl

/-! ### Errors -/

theorem hasErrors_flatten_iff {α : Type} {R : α → List Diagnostic → Prop} {P : α → Prop} {xs : List α}
    {findings : List (List Diagnostic)} (hall : List.Forall₂ R xs findings)
    (herrors : ∀ x ds, R x ds → (Diagnostic.hasErrors ds ↔ P x)) :
    Diagnostic.hasErrors findings.flatten ↔ ∃ x ∈ xs, P x := by
  induction hall with
  | nil => simp [Diagnostic.hasErrors]
  | cons h _ ih =>
    have hhead := herrors _ _ h
    unfold Diagnostic.hasErrors at ih hhead ⊢
    rw [List.flatten_cons, List.any_append, Bool.or_eq_true, ih, hhead, List.exists_mem_cons_iff]

theorem filter_ne_self_iff {α : Type} (p : α → Bool) (xs : List α) : xs.filter p ≠ xs ↔ ∃ x ∈ xs, ¬p x := by
  rw [Ne, List.filter_eq_self]
  push Not
  rfl

/-- There are errors exactly if a node or a connection is left out. -/
theorem Accounts.hasErrors_iff {v : Validation} (h : v.Accounts c catalog) : Diagnostic.hasErrors v.diagnostics ↔
    v.placed.map (·.node) ≠ c.nodes ∨ v.connections ≠ c.connections := by
  obtain ⟨onNodes, onBindings, onConnections, hnodes, hbindings, hconnections, hall⟩ := h.diagnostics
  obtain ⟨kept, hkept, heq⟩ := h.connections
  have hn := hasErrors_flatten_iff (P := fun n => ¬catalog.contains n.capsule) hnodes (by
    rintro n _ (⟨hn⟩ | ⟨hn, _⟩) <;> simp [hn, Diagnostic.hasErrors])
  have hb := hasErrors_flatten_iff (P := fun _ => False) hbindings (by
    rintro b _ (_ | _) <;> simp [Diagnostic.hasErrors])
  have hc := hasErrors_flatten_iff (P := fun k => ¬kept k) hconnections (by
    rintro k _ (⟨houtput, hinput, _⟩ | ⟨houtput, hinput, _, _⟩ | ⟨hdropped, _⟩)
    · simp [Diagnostic.hasErrors, (hkept k).2 ⟨⟨_, houtput⟩, _, hinput⟩]
    · simp [Diagnostic.hasErrors, (hkept k).2 ⟨⟨_, houtput⟩, _, hinput⟩]
    · simpa [Diagnostic.hasErrors, ← hkept k] using hdropped)
  simp only [and_false, exists_false] at hb
  rw [h.nodes, heq, filter_ne_self_iff, filter_ne_self_iff, ← hn, ← hc, hall, Diagnostic.hasErrors_append,
    Diagnostic.hasErrors_append, Bool.or_eq_true, Bool.or_eq_true]
  tauto

end Validation

/-! ### Validation -/

/-- **Nothing is left out unsaid.**  A composition is refused exactly if an instance id repeats, for the first node
whose id does; otherwise every node, binding and connection has the findings that it should have, and an artifact has
errors exactly if a node or a connection was left out. -/
theorem Composition.validate_accounts (catalog : Catalog) (c : Composition) :
    (∀ e, c.validate catalog = .error e ↔ ∃ before n after, c.nodes = before ++ n :: after ∧
      (before.map (·.id)).Nodup ∧ n.id ∈ before.map (·.id) ∧ e = .invalidComposition (.repeatedInstance n.id)) ∧
    ((∃ e, c.validate catalog = .error e) ↔ ¬(c.nodes.map (·.id)).Nodup) ∧
    ∀ v, c.validate catalog = .ok v → v.Accounts c catalog ∧
      ∀ rule generator shape timing a, (Compiler.mk catalog rule generator).run c shape timing = .ok a →
        (a.hasErrors ↔ v.placed.map (·.node) ≠ c.nodes ∨ v.connections ≠ c.connections) := by
  refine ⟨fun e => validate_eq_error_iff, ?_, fun v hv => ?_⟩
  · constructor
    · rintro ⟨e, he⟩ hnd
      rw [validate_eq_ok_iff.2 ⟨hnd, rfl⟩] at he
      cases he
    · intro hrepeated
      cases h : c.validate catalog with
      | error e => exact ⟨e, rfl⟩
      | ok v => exact absurd (validate_eq_ok_iff.1 h).1 hrepeated
  · obtain ⟨hnd, rfl⟩ := validate_eq_ok_iff.1 hv
    have haccounts : (Validation.ofComposition catalog c).Accounts c catalog := Validation.accounts_ofComposition hnd
    refine ⟨haccounts, fun rule generator shape timing a ha => ?_⟩
    rw [Compiler.hasErrors_of_run ha]
    exact haccounts.hasErrors_iff

namespace Compiler

/-- A search, a list with a binding that it does not declare, and an instance of an unknown capsule. -/
def lossyPlacement : Composition :=
  ⟨"Store", none, [⟨⟨"search"⟩, ⟨"search-bar"⟩, .empty⟩, ⟨⟨"ghost"⟩, ⟨"ghost-card"⟩, .empty⟩,
      ⟨⟨"list"⟩, ⟨"item-list"⟩, .ofList [("colour", .literal (.string "red"))]⟩],
    [⟨⟨⟨"search"⟩, "query"⟩, ⟨⟨"list"⟩, "filter"⟩⟩, ⟨⟨⟨"search"⟩, "query"⟩, ⟨⟨"ghost"⟩, "input"⟩⟩]⟩

theorem validate_accounts_lossy : ∃ v a, lossyPlacement.validate storeCatalog = .ok v ∧
    (ofConfig storeCatalog .standard).run lossyPlacement .page ⟨0, ""⟩ = .ok a ∧
    v.Accounts lossyPlacement storeCatalog ∧
    v.diagnostics.map (fun d => (d.severity, d.kind, d.affected)) =
      [(.error, .missingDependency, ["ghost", "ghost-card"]), (.warning, .invalidPort, ["list", "item-list"]),
        (.error, .invalidPort, ["search", "ghost"])] ∧
    v.connections.length = 1 ∧ a.hasErrors := by
  obtain ⟨a, ha⟩ : ∃ a, (ofConfig storeCatalog .standard).run lossyPlacement .page ⟨0, ""⟩ = .ok a :=
    run_mainFile_isOk rfl (by decide +kernel) (by decide)
  have hvalid : lossyPlacement.validate storeCatalog = .ok (.ofComposition storeCatalog lossyPlacement) := rfl
  obtain ⟨haccounts, herrors⟩ := (Composition.validate_accounts storeCatalog lossyPlacement).2.2 _ hvalid
  have hconnections : (Validation.ofComposition storeCatalog lossyPlacement).connections.length = 1 := by decide +kernel
  refine ⟨_, a, hvalid, ha, haccounts, by decide +kernel, hconnections, (herrors _ _ _ _ _ ha).2 (.inr fun heq => ?_)⟩
  rw [heq] at hconnections
  cases hconnections

end Compiler

end CapsuleCompiler
