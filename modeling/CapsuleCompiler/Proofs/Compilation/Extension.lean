import CapsuleCompiler.Proofs.Compilation.References
import CapsuleCompiler.Proofs.Unit.Extraction
import CapsuleCompiler.Proofs.Validation.Findings
import Mathlib

/-!
# Proofs.Compilation.Extension — compilations with more capsules at hand

A catalog that knows more, and of what the other knows the same, places the nodes that the other places, keeps the
connections that it keeps and follows the references that it follows.  The references of a source do not depend on the
catalog, so a unit resolves with the larger catalog what it resolved before.  Errors are nodes and connections that are
left out, and there are no more of them (`stages_extend`).
-/

namespace CapsuleCompiler

open Relation

/-! ### Larger catalogs -/

/-- The larger catalog has the definitions of the other. -/
def Catalog.Extends (catalog larger : Catalog) : Prop :=
  ∀ id d, catalog.lookup id = some d → larger.lookup id = some d

variable {catalog larger : Catalog} {rule : ReferenceRule} {c : Composition}

namespace Catalog.Extends

theorem contains (h : catalog.Extends larger) {id : CapsuleId} (hid : catalog.contains id) : larger.contains id := by
  obtain ⟨d, hd⟩ := CompilationUnit.contains_iff.1 hid
  exact CompilationUnit.contains_iff.2 ⟨d, h id d hd⟩

theorem references (h : catalog.Extends larger) {a b : CapsuleId} (hab : CompilationUnit.References rule catalog a b) :
    CompilationUnit.References rule larger a b := by
  obtain ⟨d, hd, hb⟩ := hab
  rw [Extraction.ids_ofSource] at hb
  exact ⟨d, h a d hd, by rwa [Extraction.ids_ofSource]⟩

theorem places (h : catalog.Extends larger) {id : InstanceId} {d : CapsuleDefinition} (hd : c.Places catalog id d) :
    c.Places larger id d := by
  obtain ⟨n, hn, hid, hlookup⟩ := hd
  exact ⟨n, hn, hid, h _ _ hlookup⟩

theorem links (h : catalog.Extends larger) {k : Connection} (hk : c.Links catalog k) : c.Links larger k := by
  obtain ⟨⟨output, d, hd, houtput⟩, input, e, he, hinput⟩ := hk
  exact ⟨⟨output, d, h.places hd, houtput⟩, input, e, h.places he, hinput⟩

end Catalog.Extends

/-- A definition of an id that is not known makes a catalog larger. -/
theorem Catalog.extends_insert {d : CapsuleDefinition} (hnew : catalog.lookup d.id = none) :
    catalog.Extends (catalog.insert d) := by
  intro id e he
  have hne : d.id ≠ id := by
    rintro rfl
    rw [hnew] at he
    cases he
  rw [lookup_insert, if_neg hne]
  exact he

/-! ### Errors -/

namespace Diagnostic

def errorCount (ds : List Diagnostic) : Nat := ds.countP (·.severity == .error)

theorem errorCount_append (ds es : List Diagnostic) : errorCount (ds ++ es) = errorCount ds + errorCount es :=
  List.countP_append ..

theorem errorCount_eq_zero_iff {ds : List Diagnostic} : errorCount ds = 0 ↔ hasErrors ds = false := by
  rw [errorCount, List.countP_eq_zero, hasErrors, List.any_eq_false]

end Diagnostic

namespace Validation

theorem place_subset (h : catalog.Extends larger) (nodes : List Node) : place catalog nodes ⊆ place larger nodes := by
  intro p hp
  obtain ⟨hnode, hd⟩ := mem_place_iff.1 hp
  exact mem_place_iff.2 ⟨hnode, h _ _ hd⟩

theorem severity_of_mem_checkBindings {placed : List PlacedNode} {p : PlacedNode} {d : Diagnostic}
    (h : d ∈ checkBindings placed p) : d.severity = .warning := by
  obtain ⟨e, -, he⟩ := List.mem_filterMap.1 h
  unfold checkBinding at he
  split at he
  · cases he
    rfl
  · split at he
    · cases he
    · split at he
      · cases he
      · cases he
        rfl

/-- The finding on a connection is an error exactly if the connection is dropped. -/
theorem severity_checkConnection (placed : List PlacedNode) (unknown : List InstanceId) (k : Connection) :
    ((checkConnection placed unknown k).map (·.severity == .error)).getD false = !isKept placed unknown k := by
  unfold checkConnection isKept
  cases linkedPorts placed unknown k with
  | error fault => rfl
  | ok ports =>
    dsimp only
    split <;> rfl

/-- Errors are the nodes and the connections that are left out. -/
theorem errorCount_ofComposition (catalog : Catalog) (c : Composition) :
    Diagnostic.errorCount (ofComposition catalog c).diagnostics =
      c.nodes.countP (!catalog.contains ·.capsule) +
        c.connections.countP (!isKept (place catalog c.nodes) ((unplaced catalog c.nodes).map (·.id)) ·) := by
  have hnodes : Diagnostic.errorCount ((unplaced catalog c.nodes).map unknownCapsule) =
      c.nodes.countP (!catalog.contains ·.capsule) := by
    have hall : (unplaced catalog c.nodes).countP ((·.severity == .error) ∘ unknownCapsule) =
        (unplaced catalog c.nodes).length := List.countP_eq_length.2 fun _ _ => rfl
    rw [Diagnostic.errorCount, List.countP_map, hall]
    exact List.countP_eq_length_filter.symm
  have hbindings : Diagnostic.errorCount
      ((place catalog c.nodes).flatMap (checkBindings (place catalog c.nodes))) = 0 := by
    refine List.countP_eq_zero.2 fun d hd => ?_
    obtain ⟨p, -, hd⟩ := List.mem_flatMap.1 hd
    rw [severity_of_mem_checkBindings hd]
    decide
  rw [ofComposition]
  dsimp only
  rw [Diagnostic.errorCount_append, Diagnostic.errorCount_append, hnodes, hbindings, Nat.add_zero,
    Diagnostic.errorCount, List.countP_filterMap]
  simp only [severity_checkConnection]

theorem errorCount_extend (h : catalog.Extends larger) (hnd : (c.nodes.map (·.id)).Nodup) :
    Diagnostic.errorCount (ofComposition larger c).diagnostics ≤
      Diagnostic.errorCount (ofComposition catalog c).diagnostics := by
  rw [errorCount_ofComposition, errorCount_ofComposition]
  refine Nat.add_le_add (List.countP_mono_left fun n _ hn => ?_) (List.countP_mono_left fun k _ hk => ?_)
  · rw [Bool.not_eq_true'] at hn ⊢
    exact Bool.eq_false_of_not_eq_true fun hknown => Bool.eq_false_iff.1 hn (h.contains hknown)
  · rw [Bool.not_eq_true'] at hk ⊢
    refine Bool.eq_false_of_not_eq_true fun hkept => Bool.eq_false_iff.1 hk ?_
    exact (isKept_iff hnd).2 (h.links ((isKept_iff hnd).1 hkept))

end Validation

/-! ### Units -/

namespace CompilationUnit

variable {ds es : List CapsuleDefinition} {u v : CompilationUnit}

theorem ids_collect_subset (rule : ReferenceRule) (h : catalog.Extends larger)
    (hds : ∀ d ∈ ds, catalog.lookup d.id = some d) (hes : ∀ d ∈ es, larger.lookup d.id = some d) (hsub : ds ⊆ es) :
    (collect rule catalog ds).map (·.id) ⊆ (collect rule larger es).map (·.id) := by
  intro capsule hmem
  have hroots : ds.map (·.id) ⊆ es.map (·.id) := List.map_subset _ hsub
  rcases (mem_collect_iff rule hds).1 hmem with hplaced | ⟨hknown, root, hroot, hpath⟩
  · exact (mem_collect_iff rule hes).2 (.inl (hroots hplaced))
  · exact (mem_collect_iff rule hes).2
      (.inr ⟨h.contains hknown, root, hroots hroot, TransGen.mono (fun _ _ => h.references) _ _ hpath⟩)

theorem references_eq (hu : Looked rule catalog u) :
    u.references = ((Extraction.lineReferences rule u.definition.source).map Reference.capsule).eraseDups := by
  rw [references, hu.2, Extraction.ids_ofSource]

/-- With a larger catalog a unit references the same, and resolves what it resolved. -/
theorem resolved_sublist (h : catalog.Extends larger) (hu : Looked rule catalog u) (hv : Looked rule larger v)
    (hid : v.id = u.id) : (u.references.filter (· ∉ u.missing)).Sublist (v.references.filter (· ∉ v.missing)) := by
  have hdefinition : v.definition = u.definition := Option.some.inj (hv.1.symm.trans (hid ▸ h _ _ hu.1))
  rw [references_filter_notMem_missing hu, references_filter_notMem_missing hv, references_eq hu, references_eq hv,
    hdefinition]
  exact List.monotone_filter_right _ fun _ => h.contains

end CompilationUnit

/-! ### Stages -/

namespace Compiler

variable {compiler : Compiler} {s : Stages}

theorem unit?_report_of_stages (h : compiler.stages c = .ok s) {u : CompilationUnit} (hu : u ∈ s.units) :
    s.resolution.report.unit? u.id = some ⟨u.id, u.references.filter (· ∉ u.missing), u.missing⟩ := by
  refine (find?_key_eq_some_iff (capsules_report_of_stages h ▸ nodup_units_of_stages h)).2 ⟨?_, rfl⟩
  rw [units_report_of_stages h]
  exact List.mem_map_of_mem hu

/-- Errors come from the validation. -/
theorem errorCount_of_stages (h : compiler.stages c = .ok s) :
    Diagnostic.errorCount s.diagnostics = Diagnostic.errorCount s.validation.diagnostics := by
  have hreferences := CompilationUnit.hasErrors_diagnostics fun u hu => looked_of_stages h (u := u) hu
  rw [Stages.diagnostics, Diagnostic.errorCount_append, Diagnostic.errorCount_append,
    Diagnostic.errorCount_eq_zero_iff.2 hreferences,
    Diagnostic.errorCount_eq_zero_iff.2 s.graph.hasErrors_cycleDiagnostics, Nat.add_zero]

/-- **Larger catalogs.**  With a catalog that has the definitions of another and maybe more, every unit is still a unit
and resolves, in the same order, what it resolved; every connection that was kept is kept, and there are no more
errors. -/
theorem stages_extend (h : compiler.stages c = .ok s) (hlarger : compiler.catalog.Extends larger) : ∃ s',
    { compiler with catalog := larger }.stages c = .ok s' ∧
      s.units.map (·.id) ⊆ s'.units.map (·.id) ∧
      (∀ u ∈ s.units, ∃ r r', s.resolution.report.unit? u.id = some r ∧
        s'.resolution.report.unit? u.id = some r' ∧ r.resolved.Sublist r'.resolved) ∧
      s.validation.connections.Sublist s'.validation.connections ∧
      Diagnostic.errorCount s'.diagnostics ≤ Diagnostic.errorCount s.diagnostics := by
  have hnd := exists_stages_iff.1 ⟨s, h⟩
  obtain ⟨s', h'⟩ : ∃ s', { compiler with catalog := larger }.stages c = .ok s' := exists_stages_iff.2 hnd
  have hunits : s.units.map (·.id) ⊆ s'.units.map (·.id) := by
    rw [units_of_stages h, units_of_stages h']
    refine CompilationUnit.ids_collect_subset _ hlarger (fun _ => lookup_of_stages h) (fun _ => lookup_of_stages h') ?_
    rw [validation_of_stages h, validation_of_stages h']
    exact List.map_subset _ (Validation.place_subset hlarger c.nodes)
  refine ⟨s', h', hunits, fun u hu => ?_, ?_, ?_⟩
  · obtain ⟨u', hu', hid⟩ := List.mem_map.1 (hunits (List.mem_map_of_mem hu))
    refine ⟨_, _, unit?_report_of_stages h hu, hid ▸ unit?_report_of_stages h' hu', ?_⟩
    exact CompilationUnit.resolved_sublist hlarger (looked_of_stages h hu) (looked_of_stages h' hu') hid
  · rw [validation_of_stages h, validation_of_stages h']
    refine List.monotone_filter_right _ fun k hk => ?_
    exact (Validation.isKept_iff hnd).2 (hlarger.links ((Validation.isKept_iff hnd).1 hk))
  · rw [errorCount_of_stages h, errorCount_of_stages h', validation_of_stages h, validation_of_stages h']
    exact Validation.errorCount_extend hlarger hnd

open CompilationUnit (ringCatalog)

/-- The third capsule that one of the two references. -/
def ringIcon : CapsuleDefinition := ⟨⟨"icon"⟩, "Icon", "", "", .none, none, .empty⟩

/-- A capsule of the ring and one that the ring does not know. -/
def iconPlacement : Composition :=
  ⟨"Ring", none, [⟨⟨"first"⟩, ⟨"card"⟩, .empty⟩, ⟨⟨"second"⟩, ⟨"icon"⟩, .empty⟩], []⟩

def iconStages (catalog : Catalog) : Stages :=
  .ofValidation (ofConfig ringCatalog .standard).rule catalog (.ofComposition catalog iconPlacement)

theorem stages_extend_icon :
    (ofConfig ringCatalog .standard).stages iconPlacement = .ok (iconStages ringCatalog) ∧
    ringCatalog.Extends (ringCatalog.insert ringIcon) ∧ ∃ s',
      { ofConfig ringCatalog .standard with catalog := ringCatalog.insert ringIcon }.stages iconPlacement = .ok s' ∧
      (iconStages ringCatalog).units.map (·.id) = [⟨"card"⟩, ⟨"link"⟩] ∧
      s'.units.map (·.id) = [⟨"card"⟩, ⟨"icon"⟩, ⟨"link"⟩] ∧
      (iconStages ringCatalog).units.map (·.id) ⊆ s'.units.map (·.id) ∧
      (iconStages ringCatalog).resolution.report.resolved = 2 ∧ s'.resolution.report.resolved = 3 ∧
      Diagnostic.errorCount s'.diagnostics ≤ Diagnostic.errorCount (iconStages ringCatalog).diagnostics := by
  have hs : (ofConfig ringCatalog .standard).stages iconPlacement = .ok (iconStages ringCatalog) := rfl
  have hlarger : ringCatalog.Extends (ringCatalog.insert ringIcon) := Catalog.extends_insert (by rfl)
  obtain ⟨s', hs', hunits, -, -, herrors⟩ := stages_extend hs hlarger
  have heq : iconStages (ringCatalog.insert ringIcon) = s' := Except.ok.inj (Eq.trans (by rfl) hs')
  refine ⟨hs, hlarger, s', hs', by decide +kernel, ?_, hunits, by decide +kernel, ?_, herrors⟩
  all_goals
    rw [← heq]
    decide +kernel

end Compiler

end CapsuleCompiler
