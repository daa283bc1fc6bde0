import CapsuleCompiler.Proofs.Compilation.References
import CapsuleCompiler.Proofs.Graph.FinishOrder
import CapsuleCompiler.Proofs.Validation.Findings
import Mathlib

/-!
# Proofs.Compilation.NodeOrder — compilations of the same nodes in another order

The order of the nodes decides in which order capsules become units, and with it the order of nearly everything that
follows.  What is there does not depend on it: instances are found by their ids, a unit is determined by its id and
whether it is placed, a module by its stub and the capsules of the environment, and an order of the capsules is there
exactly where references have no cycle.  So each stage hands on a permutation of what it hands on for the other order
(`stages_perm`).
-/

namespace CapsuleCompiler

/-! ### Validations -/

namespace Validation

variable {catalog : Catalog} {ps qs : List PlacedNode} {unknown others : List InstanceId}

theorem checkBindings_congr (h : findPlaced ps = findPlaced qs) : checkBindings ps = checkBindings qs := by
  unfold checkBindings checkBinding isOutput
  rw [h]

theorem linkedPorts_congr (h : findPlaced ps = findPlaced qs) (hunknown : unknown.contains = others.contains) :
    linkedPorts ps unknown = linkedPorts qs others := by
  unfold linkedPorts endpoint
  rw [h, hunknown]

variable {c : Composition} {nodes : List Node}

theorem findPlaced_perm (catalog : Catalog) (h : nodes.Perm c.nodes) (hnd : (c.nodes.map (·.id)).Nodup) :
    findPlaced (place catalog nodes) = findPlaced (place catalog c.nodes) := by
  funext id
  exact (find?_key_perm (h.filterMap _).symm (nodup_place hnd) id).symm

/-- Nodes in another order are placed in that order, and the rest of the validation is the same. -/
theorem ofComposition_perm (catalog : Catalog) (h : nodes.Perm c.nodes) (hnd : (c.nodes.map (·.id)).Nodup) :
    (ofComposition catalog { c with nodes }).placed.Perm (ofComposition catalog c).placed ∧
      (ofComposition catalog { c with nodes }).connections = (ofComposition catalog c).connections ∧
      (ofComposition catalog { c with nodes }).diagnostics.Perm (ofComposition catalog c).diagnostics := by
  have hfind := findPlaced_perm catalog h hnd
  have hplaced : (place catalog nodes).Perm (place catalog c.nodes) := h.filterMap _
  have hleft : (unplaced catalog nodes).Perm (unplaced catalog c.nodes) := h.filter _
  have hunknown :
      ((unplaced catalog nodes).map (·.id)).contains = ((unplaced catalog c.nodes).map (·.id)).contains := by
    funext id
    rw [Bool.eq_iff_iff, List.contains_iff_mem, List.contains_iff_mem]
    exact (hleft.map _).mem_iff
  have hlinked := linkedPorts_congr hfind hunknown
  unfold ofComposition isKept checkConnection
  dsimp only
  rw [hlinked, checkBindings_congr hfind]
  exact ⟨hplaced, rfl, ((hleft.map _).append (hplaced.flatMap_right _)).append_right _⟩

end Validation

/-! ### Units -/

namespace CompilationUnit

variable {rule : ReferenceRule} {catalog : Catalog} {ds es : List CapsuleDefinition} {u : CompilationUnit}

theorem placed_iff_of_mem_collect (hlook : ∀ d ∈ ds, catalog.lookup d.id = some d) (hu : u ∈ collect rule catalog ds) :
    u.placed ↔ u.id ∈ ds.map (·.id) := by
  obtain ⟨later, hmap⟩ := @placed_collect rule catalog ds
  have hids : (collect rule catalog ds).map (·.id) = (ds.map (·.id)).eraseDups ++ later := by
    simpa [Function.comp_def] using congrArg (List.map Prod.fst) hmap
  have hnd := nodup_collect rule hlook
  rw [hids] at hnd
  have hmem : (u.id, u.placed) ∈ (collect rule catalog ds).map fun u => (u.id, u.placed) := List.mem_map_of_mem hu
  rw [hmap, List.mem_append, List.mem_map, List.mem_map] at hmem
  rcases hmem with ⟨capsule, hid, heq⟩ | ⟨capsule, hid, heq⟩
  all_goals obtain ⟨rfl, hplaced⟩ := Prod.mk.inj heq
  · exact iff_of_true hplaced.symm (List.mem_eraseDups.1 hid)
  · have hnot : u.id ∉ ds.map (·.id) := fun hds =>
      (List.nodup_append.1 hnd).2.2 u.id (List.mem_eraseDups.2 hds) u.id hid rfl
    exact iff_of_false (by simp [← hplaced]) hnot

theorem Looked.ext {v : CompilationUnit} (hu : Looked rule catalog u) (hv : Looked rule catalog v) (hid : u.id = v.id)
    (hplaced : u.placed = v.placed) : u = v := by
  have hdefinition : u.definition = v.definition := Option.some.inj (hu.1.symm.trans (hid ▸ hv.1))
  have hextraction : u.extraction = v.extraction := by rw [hu.2, hv.2, hid, hdefinition]
  cases u
  cases v
  simp_all

/-- A unit is determined by its id and whether it is placed. -/
theorem mem_collect_iff_looked (hlook : ∀ d ∈ ds, catalog.lookup d.id = some d) : u ∈ collect rule catalog ds ↔
    u.id ∈ (collect rule catalog ds).map (·.id) ∧ Looked rule catalog u ∧ (u.placed ↔ u.id ∈ ds.map (·.id)) := by
  constructor
  · intro hu
    exact ⟨List.mem_map_of_mem hu, looked_of_mem_collect rule hlook hu, placed_iff_of_mem_collect hlook hu⟩
  · rintro ⟨hid, hlooked, hplaced⟩
    obtain ⟨v, hv, hvid⟩ := List.mem_map.1 hid
    have hsame : u.placed = v.placed := by
      rw [Bool.eq_iff_iff, hplaced, placed_iff_of_mem_collect hlook hv, hvid]
    rw [hlooked.ext (looked_of_mem_collect rule hlook hv) hvid.symm hsame]
    exact hv

theorem collect_perm (rule : ReferenceRule) (hds : ∀ d ∈ ds, catalog.lookup d.id = some d)
    (hes : ∀ d ∈ es, catalog.lookup d.id = some d) (h : ∀ id, id ∈ ds.map (·.id) ↔ id ∈ es.map (·.id)) :
    (collect rule catalog ds).Perm (collect rule catalog es) := by
  have hids (id : CapsuleId) :
      id ∈ (collect rule catalog ds).map (·.id) ↔ id ∈ (collect rule catalog es).map (·.id) := by
    rw [mem_collect_iff rule hds, mem_collect_iff rule hes, h]
    simp only [h]
  refine (List.perm_ext_iff_of_nodup (nodup_collect rule hds).of_map (nodup_collect rule hes).of_map).2 fun u => ?_
  rw [mem_collect_iff_looked hds, mem_collect_iff_looked hes, hids, h]

end CompilationUnit

/-! ### Modules and reports -/

namespace Module

/-- A module depends on an environment by the capsules that it knows. -/
theorem ofStub_congr {env other : StubEnvironment} (h : env.contains = other.contains) : ofStub env = ofStub other := by
  unfold ofStub linesFor resolutionOf
  rw [h]

end Module

theorem Resolution.modules_perm (rule : ReferenceRule) {units others : List CompilationUnit} (h : units.Perm others)
    (hnd : (units.map (·.id)).Nodup) : (ofUnits rule units).modules.Perm (ofUnits rule others).modules := by
  have hother : (others.map (·.id)).Nodup := (h.map _).nodup_iff.1 hnd
  have hknown : (StubEnvironment.ofUnits rule units).contains = (StubEnvironment.ofUnits rule others).contains := by
    funext id
    rw [Bool.eq_iff_iff, StubEnvironment.contains_iff, StubEnvironment.contains_iff, StubEnvironment.ids_ofUnits hnd,
      StubEnvironment.ids_ofUnits hother]
    exact (h.map _).mem_iff
  rw [modules_ofUnits hnd, modules_ofUnits hother, Module.ofStub_congr hknown]
  exact h.map _

namespace ResolutionReport

variable {r r' : ResolutionReport}

theorem total_perm (h : r.units.Perm r'.units) : r.total = r'.total := by
  rw [total, total, ← List.sum_eq_foldl, ← List.sum_eq_foldl]
  exact (h.map _).sum_eq

theorem resolved_perm (h : r.units.Perm r'.units) : r.resolved = r'.resolved := by
  rw [resolved, resolved, ← List.sum_eq_foldl, ← List.sum_eq_foldl]
  exact (h.map _).sum_eq

end ResolutionReport

/-! ### Graphs of units -/

namespace DependencyGraph

variable {units others : List CompilationUnit}

/-- The steps that the references of units are. -/
def stepsOf (units : List CompilationUnit) : List Step :=
  units.flatMap fun u => .capsule u.id :: u.references.map (.dependency u.id)

theorem ofUnits_eq_build (units : List CompilationUnit) : ofUnits units = build (stepsOf units) := by
  unfold ofUnits build stepsOf
  rw [List.foldl_flatMap]
  refine congrArg (List.foldl · empty units) (funext fun g => funext fun u => ?_)
  rw [List.foldl_cons, List.foldl_map]
  rfl

theorem refers_ofUnits {a b : CapsuleId} :
    (ofUnits units).Refers a b ↔ ∃ u ∈ units, u.id = a ∧ b ∈ u.references := by
  rw [Refers, ofUnits_eq_build, mem_edges_build, stepsOf, List.mem_flatMap]
  refine exists_congr fun u => and_congr_right fun _ => ?_
  simp [and_comm]

theorem sound_ofUnits (units : List CompilationUnit) : (ofUnits units).Sound :=
  ofUnits_eq_build units ▸ sound_build _

theorem order?_isSome_perm (h : units.Perm others) :
    (ofUnits units).order?.isSome ↔ (ofUnits others).order?.isSome := by
  rw [order?_isSome_iff (sound_ofUnits units), order?_isSome_iff (sound_ofUnits others)]
  refine acyclic_congr fun a b => ?_
  rw [refers_ofUnits, refers_ofUnits]
  simp only [h.mem_iff]

end DependencyGraph

/-! ### Stages -/

namespace Compiler

variable {compiler : Compiler} {c : Composition} {s : Stages} {nodes : List Node}

/-- **Independence of the order of the nodes.**  With its nodes in another order a composition has the same units, of
which the same are placed, each capsule has the same module and the same entry of the report, and the findings on nodes,
bindings, connections and references are the same; an order of the capsules is there as before. -/
theorem stages_perm (h : compiler.stages c = .ok s) (hnodes : nodes.Perm c.nodes) : ∃ s',
    compiler.stages { c with nodes } = .ok s' ∧ s'.units.Perm s.units ∧
      (∀ id, s'.resolution.module? id = s.resolution.module? id) ∧
      (∀ id, s'.resolution.report.unit? id = s.resolution.report.unit? id) ∧
      s'.resolution.report.total = s.resolution.report.total ∧
      s'.resolution.report.resolved = s.resolution.report.resolved ∧
      s'.validation.diagnostics.Perm s.validation.diagnostics ∧
      (CompilationUnit.diagnostics s'.units).Perm (CompilationUnit.diagnostics s.units) ∧
      (s'.graph.order?.isSome ↔ s.graph.order?.isSome) := by
  have hnd := exists_stages_iff.1 ⟨s, h⟩
  have hother : (nodes.map (·.id)).Nodup := (hnodes.map _).nodup_iff.2 hnd
  obtain ⟨s', h'⟩ : ∃ s', compiler.stages { c with nodes } = .ok s' := exists_stages_iff.2 hother
  obtain ⟨hplaced, -, hdiagnostics⟩ := Validation.ofComposition_perm compiler.catalog hnodes hnd
  rw [← validation_of_stages h, ← validation_of_stages h'] at hplaced hdiagnostics
  have hunits : s'.units.Perm s.units := by
    rw [units_of_stages h, units_of_stages h']
    exact CompilationUnit.collect_perm compiler.rule (fun _ => lookup_of_stages h') (fun _ => lookup_of_stages h)
      fun _ => ((hplaced.map _).map _).mem_iff
  have hmodules := Resolution.modules_perm compiler.rule hunits (nodup_units_of_stages h')
  rw [← resolution_of_stages h, ← resolution_of_stages h'] at hmodules
  have hreport : s'.resolution.report.units.Perm s.resolution.report.units := hmodules.map _
  have hids := nodup_units_of_stages h'
  refine ⟨s', h', hunits, find?_key_perm hmodules (capsules_of_stages h' ▸ hids),
    find?_key_perm hreport (capsules_report_of_stages h' ▸ hids), ResolutionReport.total_perm hreport,
    ResolutionReport.resolved_perm hreport, hdiagnostics, hunits.flatMap_right _, ?_⟩
  rw [graph_of_stages h, graph_of_stages h']
  exact DependencyGraph.order?_isSome_perm hunits

open CompilationUnit (ringCatalog)

/-- The two capsules that reference each other, both placed. -/
def pairPlacement : Composition :=
  ⟨"Ring", none, [⟨⟨"first"⟩, ⟨"card"⟩, .empty⟩, ⟨⟨"second"⟩, ⟨"link"⟩, .empty⟩], []⟩

def pairStages (nodes : List Node) : Stages :=
  .ofValidation (ofConfig ringCatalog .standard).rule ringCatalog
    (.ofComposition ringCatalog { pairPlacement with nodes })

theorem stages_perm_pair :
    (ofConfig ringCatalog .standard).stages pairPlacement = .ok (pairStages pairPlacement.nodes) ∧
    pairPlacement.nodes.reverse.Perm pairPlacement.nodes ∧ ∃ s',
      (ofConfig ringCatalog .standard).stages { pairPlacement with nodes := pairPlacement.nodes.reverse } = .ok s' ∧
      (pairStages pairPlacement.nodes).units.map (·.id) = [⟨"card"⟩, ⟨"link"⟩] ∧
      s'.units.map (·.id) = [⟨"link"⟩, ⟨"card"⟩] ∧ s'.units.Perm (pairStages pairPlacement.nodes).units ∧
      (∀ id, s'.resolution.module? id = (pairStages pairPlacement.nodes).resolution.module? id) ∧
      (s'.graph.order?.isSome ↔ (pairStages pairPlacement.nodes).graph.order?.isSome) := by
  have hs : (ofConfig ringCatalog .standard).stages pairPlacement = .ok (pairStages pairPlacement.nodes) := rfl
  have hnodes := pairPlacement.nodes.reverse_perm
  obtain ⟨s', hs', hunits, hmodules, -, -, -, -, -, horder⟩ := stages_perm hs hnodes
  have heq : pairStages pairPlacement.nodes.reverse = s' := Except.ok.inj (Eq.trans (by rfl) hs')
  refine ⟨hs, hnodes, s', hs', by decide +kernel, ?_, hunits, hmodules, horder⟩
  rw [← heq]
  decide +kernel

end Compiler

end CapsuleCompiler
