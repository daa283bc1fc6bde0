import CapsuleCompiler.Proofs.Compilation.NodeOrder
import CapsuleCompiler.Proofs.Graph.Adjacency

/-!
# Proofs.Compilation.Edges — the graph of a compilation against its report

The graph is built from the references of the units, one call for each, and gets its capsules on the way.  The report
is made from the stubs of the same units and never sees the graph.  A unit references a capsule once and no capsule has
two units, so no call repeats a reference: the references of the graph are those of the units, one unit after the other
(`edges_ofUnits`), and they are the entries of the report.
-/

namespace CapsuleCompiler

/-! ### Graphs of units -/

namespace DependencyGraph

variable {units : List CompilationUnit}

theorem filterMap_reference?_stepsOf (units : List CompilationUnit) :
    (stepsOf units).filterMap Step.reference? = units.flatMap fun u => u.references.map (u.id, ·) := by
  rw [stepsOf, List.filterMap_flatMap]
  refine congrArg (List.flatMap · units) (funext fun u => ?_)
  rw [List.filterMap_cons_none rfl, List.filterMap_map]
  exact congrFun List.filterMap_eq_map u.references

theorem nodup_references_of_units (hnd : (units.map (·.id)).Nodup) (hrefs : ∀ u ∈ units, u.references.Nodup) :
    (units.flatMap fun u => u.references.map (u.id, ·)).Nodup := by
  refine List.nodup_flatMap.2 ⟨fun u hu => (hrefs u hu).map (Prod.mk_right_injective u.id), ?_⟩
  refine (List.pairwise_map.1 hnd).imp fun hne e he hf => ?_
  obtain ⟨b, -, rfl⟩ := List.mem_map.1 he
  obtain ⟨c, -, heq⟩ := List.mem_map.1 hf
  exact hne (Prod.mk.inj heq).1.symm

/-- The references of a graph of units are those of its units, one unit after the other. -/
theorem edges_ofUnits (hnd : (units.map (·.id)).Nodup) (hrefs : ∀ u ∈ units, u.references.Nodup) :
    (ofUnits units).edges = units.flatMap fun u => u.references.map (u.id, ·) := by
  rw [ofUnits_eq_build, ← filterMap_reference?_stepsOf]
  refine edges_build_of_nodup ?_
  rw [filterMap_reference?_stepsOf]
  exact nodup_references_of_units hnd hrefs

theorem length_edges_ofUnits (hnd : (units.map (·.id)).Nodup) (hrefs : ∀ u ∈ units, u.references.Nodup) :
    (ofUnits units).edges.length = (units.map (·.references.length)).sum := by
  rw [edges_ofUnits hnd hrefs, List.length_flatMap]
  simp only [List.length_map]

theorem filter_references (id : CapsuleId) (u : CompilationUnit) :
    (u.references.map (u.id, ·)).filter (·.1 == id) = if u.id = id then u.references.map (u.id, ·) else [] := by
  rw [List.filter_map]
  by_cases h : u.id = id
  · simp [h, Function.comp_def]
  · simp [h, Function.comp_def]

theorem successors_ofUnits (hnd : (units.map (·.id)).Nodup) (hrefs : ∀ u ∈ units, u.references.Nodup)
    {u : CompilationUnit} (hu : u ∈ units) : (ofUnits units).successors u.id = u.references := by
  obtain ⟨before, after, rfl⟩ := List.append_of_mem hu
  -- No other unit has the id, so the others contribute nothing.
  have hothers : ∀ v ∈ before ++ after, (v.references.map (v.id, ·)).filter (·.1 == u.id) = [] := by
    intro v hv
    rw [filter_references, if_neg]
    rw [List.map_append, List.map_cons, List.nodup_middle, List.nodup_cons, ← List.map_append] at hnd
    exact fun heq => hnd.1 (heq ▸ List.mem_map_of_mem hv)
  have hbefore := List.flatMap_eq_nil_iff.2 fun v hv => hothers v (List.mem_append_left _ hv)
  have hafter := List.flatMap_eq_nil_iff.2 fun v hv => hothers v (List.mem_append_right _ hv)
  rw [successors, edges_ofUnits hnd hrefs, List.filter_flatMap, List.flatMap_append, List.flatMap_cons, hbefore, hafter,
    filter_references, if_pos rfl, List.nil_append, List.append_nil, List.map_map]
  exact List.map_id' _

/-- A capsule without a unit references nothing. -/
theorem successors_ofUnits_of_notMem {id : CapsuleId} (h : id ∉ units.map (·.id)) :
    (ofUnits units).successors id = [] := by
  refine List.eq_nil_iff_forall_not_mem.2 fun b hb => ?_
  obtain ⟨u, hu, rfl, -⟩ := refers_ofUnits.1 (mem_successors.1 hb)
  exact h (List.mem_map_of_mem hu)

theorem mem_nodes_ofUnits_iff {id : CapsuleId} :
    id ∈ (ofUnits units).nodes ↔ id ∈ units.map (·.id) ∨ ∃ u ∈ units, id ∈ u.references := by
  rw [ofUnits_eq_build, mem_nodes_build]
  constructor
  · rintro ⟨step, hstep, hid⟩
    obtain ⟨u, hu, hstep⟩ := List.mem_flatMap.1 hstep
    rcases List.mem_cons.1 hstep with rfl | hstep
    · exact .inl (List.mem_map.2 ⟨u, hu, (List.mem_singleton.1 hid).symm⟩)
    · obtain ⟨b, hb, rfl⟩ := List.mem_map.1 hstep
      rcases List.mem_pair.1 hid with rfl | rfl
      · exact .inl (List.mem_map_of_mem hu)
      · exact .inr ⟨u, hu, hb⟩
  · rintro (hid | ⟨u, hu, hid⟩)
    · obtain ⟨u, hu, rfl⟩ := List.mem_map.1 hid
      exact ⟨.capsule u.id, List.mem_flatMap.2 ⟨u, hu, List.mem_cons_self⟩, List.mem_singleton_self _⟩
    · refine ⟨.dependency u.id id, List.mem_flatMap.2 ⟨u, hu, ?_⟩, List.mem_pair.2 (.inr rfl)⟩
      exact List.mem_cons_of_mem _ (List.mem_map_of_mem hid)

end DependencyGraph

/-! ### Reports -/

/-- The capsules that are left unresolved, each once. -/
def ResolutionReport.unresolvedIds (r : ResolutionReport) : List CapsuleId := (r.units.flatMap (·.unresolved)).dedup

namespace Compiler

variable {compiler : Compiler} {c : Composition} {v : Validation} {s : Stages} {id : CapsuleId}

theorem nodup_references_of_stages (h : compiler.stages c = .ok s) {u : CompilationUnit} (hu : u ∈ s.units) :
    u.references.Nodup :=
  CompilationUnit.nodup_references (looked_of_stages h hu)

/-- A reference leads to a unit if its capsule is known. -/
theorem mem_units_of_mem_references (h : compiler.stages c = .ok s) {u : CompilationUnit} (hu : u ∈ s.units)
    (hid : id ∈ u.references) : id ∈ s.units.map (·.id) ↔ compiler.catalog.contains id := by
  rw [units_of_stages h] at hu ⊢
  exact CompilationUnit.mem_collect_of_mem_references _ (fun _ => lookup_of_stages h) hu hid

/-- Unresolved is what a unit references and no unit is. -/
theorem unresolvedIds_eq (h : compiler.stages c = .ok s) : s.resolution.report.unresolvedIds =
    ((s.units.flatMap (·.references)).filter (· ∉ s.units.map (·.id))).dedup := by
  rw [ResolutionReport.unresolvedIds, units_report_of_stages h, List.flatMap_map, List.filter_flatMap]
  refine congrArg List.dedup (List.flatMap_congr fun u hu => ?_)
  rw [CompilationUnit.missing_eq (looked_of_stages h hu)]
  refine List.filter_congr fun id hid => ?_
  rw [decide_not, Bool.decide_congr (mem_units_of_mem_references h hu hid), Bool.decide_eq_true]

theorem mem_unresolvedIds_iff (h : compiler.stages c = .ok s) :
    id ∈ s.resolution.report.unresolvedIds ↔ (∃ u ∈ s.units, id ∈ u.references) ∧ id ∉ s.units.map (·.id) := by
  rw [unresolvedIds_eq h, List.mem_dedup, List.mem_filter, List.mem_flatMap, decide_eq_true_eq]

/-- The units and the unresolved capsules are the capsules of the graph. -/
theorem nodes_perm_of_stages (h : compiler.stages c = .ok s) :
    s.graph.nodes.Perm (s.units.map (·.id) ++ s.resolution.report.unresolvedIds) := by
  have hnodes : s.graph.nodes.Nodup := by
    rw [graph_of_stages h]
    exact (DependencyGraph.sound_ofUnits s.units).nodup_nodes
  have hall : (s.units.map (·.id) ++ s.resolution.report.unresolvedIds).Nodup := by
    refine List.nodup_append.2 ⟨nodup_units_of_stages h, List.nodup_dedup _, fun a ha b hb heq => ?_⟩
    exact ((mem_unresolvedIds_iff h).1 hb).2 (heq ▸ ha)
  refine (List.perm_ext_iff_of_nodup hnodes hall).2 fun id => ?_
  rw [graph_of_stages h, DependencyGraph.mem_nodes_ofUnits_iff, List.mem_append, mem_unresolvedIds_iff h]
  by_cases hid : id ∈ s.units.map (·.id)
  · simp only [hid, true_or]
  · simp only [hid, false_or, not_false_eq_true, and_true]

/-- Every reference of a unit is resolved or not, so the report counts all of them. -/
theorem total_report_eq_sum (h : compiler.stages c = .ok s) :
    s.resolution.report.total = (s.units.map (·.references.length)).sum := by
  rw [ResolutionReport.total, ← List.sum_eq_foldl, units_report_of_stages h, List.map_map]
  refine congrArg List.sum (List.map_congr_left fun u hu => ?_)
  have hpart := (List.filter_append_perm (· ∉ u.missing) u.references).length_eq
  rwa [CompilationUnit.references_filter_mem_missing (looked_of_stages h hu), List.length_append] at hpart

/-- **The graph and the report.**  The graph has one capsule for each unit and one for each capsule that the report
leaves unresolved, and as many references as the report counts.  What a unit references stands there in the order of
its source, as it does in an adjacency list that is read from its oldest end; an unresolved capsule references
nothing. -/
theorem graph_matches_report (h : c.validate compiler.catalog = .ok v) :
    ∃ s, compiler.stages c = .ok s ∧
      s.graph.nodes.Nodup ∧ s.graph.nodes.Perm (s.units.map (·.id) ++ s.resolution.report.unresolvedIds) ∧
      s.graph.nodes.length = s.units.length + s.resolution.report.unresolvedIds.length ∧
      s.graph.edges.length = s.resolution.report.total ∧
      (∀ u ∈ s.units, s.graph.successors u.id = u.references ∧
        (DependencyGraph.newestFirst (DependencyGraph.stepsOf s.units) u.id).reverse = u.references) ∧
      ∀ id ∈ s.resolution.report.unresolvedIds, s.graph.successors id = [] := by
  have hs := stages_of_validate h
  generalize Stages.ofValidation compiler.rule compiler.catalog v = s at hs
  have hnd := nodup_units_of_stages hs
  have hrefs : ∀ u ∈ s.units, u.references.Nodup := fun u hu => nodup_references_of_stages hs hu
  have hgraph := graph_of_stages hs
  have hperm := nodes_perm_of_stages hs
  have hunits : ∀ u ∈ s.units, s.graph.successors u.id = u.references := by
    intro u hu
    rw [hgraph]
    exact DependencyGraph.successors_ofUnits hnd hrefs hu
  refine ⟨s, hs, ?_, hperm, ?_, ?_, fun u hu => ⟨hunits u hu, ?_⟩, fun id hid => ?_⟩
  · rw [hgraph]
    exact (DependencyGraph.sound_ofUnits s.units).nodup_nodes
  · rw [hperm.length_eq, List.length_append, List.length_map]
  · rw [hgraph, DependencyGraph.length_edges_ofUnits hnd hrefs, total_report_eq_sum hs]
  · rw [← DependencyGraph.successors_build, ← DependencyGraph.ofUnits_eq_build, ← hgraph, hunits u hu]
  · rw [hgraph]
    exact DependencyGraph.successors_ofUnits_of_notMem ((mem_unresolvedIds_iff hs).1 hid).2

/-- A page over two parts that share their base.  The page names one part twice, and a ghost that the other part
references as well. -/
def diamondCatalog : Catalog := .ofList [
  ⟨⟨"page"⟩, "Page", "", "import Right from './components/right'\nimport Left from './components/left'\n" ++
    "import Ghost from './components/ghost'\nimport Other from './components/right'\n", .none, none, .empty⟩,
  ⟨⟨"left"⟩, "Left", "", "import Base from './components/base'\nimport Ghost from './components/ghost'\n", .none, none,
    .empty⟩,
  ⟨⟨"right"⟩, "Right", "", "import Base from './components/base'\n", .none, none, .empty⟩,
  ⟨⟨"base"⟩, "Base", "", "", .none, none, .empty⟩]

def diamondPlacement : Composition := ⟨"Diamond", none, [⟨⟨"first"⟩, ⟨"page"⟩, .empty⟩], []⟩

def diamondStages : Stages :=
  .ofValidation (ofConfig diamondCatalog .standard).rule diamondCatalog (.ofComposition diamondCatalog diamondPlacement)

theorem units_diamond : diamondStages.units.map (fun u => (u.id, u.references)) =
    [(⟨"page"⟩, [⟨"right"⟩, ⟨"left"⟩, ⟨"ghost"⟩]), (⟨"right"⟩, [⟨"base"⟩]), (⟨"left"⟩, [⟨"base"⟩, ⟨"ghost"⟩]),
      (⟨"base"⟩, [])] := by
  decide +kernel

theorem graph_matches_report_diamond :
    diamondPlacement.validate (ofConfig diamondCatalog .standard).catalog =
      .ok (.ofComposition diamondCatalog diamondPlacement) ∧
    ∃ s, (ofConfig diamondCatalog .standard).stages diamondPlacement = .ok s ∧
      s.graph.nodes.Perm [⟨"page"⟩, ⟨"right"⟩, ⟨"left"⟩, ⟨"base"⟩, ⟨"ghost"⟩] ∧
      s.resolution.report.unresolvedIds = [⟨"ghost"⟩] ∧ s.resolution.report.total = 6 ∧ s.graph.edges.length = 6 ∧
      s.graph.successors ⟨"page"⟩ = [⟨"right"⟩, ⟨"left"⟩, ⟨"ghost"⟩] ∧ s.graph.successors ⟨"ghost"⟩ = [] := by
  have hvalid : diamondPlacement.validate (ofConfig diamondCatalog .standard).catalog =
      .ok (.ofComposition diamondCatalog diamondPlacement) := rfl
  obtain ⟨s, hs, -, hnodes, -, hedges, hunits, hmissing⟩ := graph_matches_report hvalid
  obtain rfl : diamondStages = s := Except.ok.inj hs
  have hids : diamondStages.units.map (·.id) = [⟨"page"⟩, ⟨"right"⟩, ⟨"left"⟩, ⟨"base"⟩] := by
    simpa [Function.comp_def] using congrArg (List.map Prod.fst) units_diamond
  have hghost : diamondStages.resolution.report.unresolvedIds = [⟨"ghost"⟩] := by
    have hall := congrArg (List.flatMap Prod.snd) units_diamond
    rw [List.flatMap_map] at hall
    rw [unresolvedIds_eq hs, hall, hids]
    decide
  have htotal : diamondStages.resolution.report.total = 6 := by
    have hlengths := congrArg (List.map fun p => p.2.length) units_diamond
    rw [List.map_map] at hlengths
    exact (total_report_eq_sum hs).trans (congrArg List.sum hlengths)
  have hpage : (⟨"page"⟩, [⟨"right"⟩, ⟨"left"⟩, ⟨"ghost"⟩]) ∈ diamondStages.units.map fun u => (u.id, u.references) := by
    simp [units_diamond]
  obtain ⟨page, hmem, heq⟩ := List.mem_map.1 hpage
  obtain ⟨hid, hrefs⟩ := Prod.mk.inj heq
  rw [hids, hghost] at hnodes
  refine ⟨hvalid, diamondStages, hs, hnodes, hghost, htotal, hedges.trans htotal, ?_, hmissing _ (by simp [hghost])⟩
  rw [← hid, ← hrefs]
  exact (hunits page hmem).1

end Compiler

end CapsuleCompiler
