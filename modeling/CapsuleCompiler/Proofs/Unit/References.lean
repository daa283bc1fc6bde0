import CapsuleCompiler.Proofs.Unit.Collection
import CapsuleCompiler.Proofs.Unit.Modules

/-!
# Proofs.Unit.References — extracted references, and what becomes of them

A source has one reference for each capsule it names (`nodup_ids`), and one finding, in the same order, for each
of them that the catalog does not know.  Units are closed under known references, so among the stubs of the units a
reference is found exactly when the catalog knows it: what extraction reports as missing is what a module leaves
unresolved (`resolutionOf_unit`).
-/

namespace CapsuleCompiler

variable {rule : ReferenceRule} {catalog : Catalog} {ds : List CapsuleDefinition}

/-! ### One source -/

namespace Extraction

/-- Adding the names of a line to an entry keeps everything else of it. -/
theorem map_addReference {β : Type} {g : Dependency → β} (hg : ∀ d b, g { d with bindings := b } = g d) (number : Nat)
    (r : Reference) (ds : List Dependency) :
    (addReference number r ds).map g =
      if r.capsule ∈ ds.map (·.capsule) then ds.map g
      else ds.map g ++ [g ⟨r.capsule, r.modulePath, r.bindings, number⟩] := by
  induction ds with
  | nil => rfl
  | cons d ds ih =>
    rw [addReference]
    by_cases h : d.capsule = r.capsule
    · rw [if_pos h, if_pos (by simp [h]), List.map_cons, List.map_cons, hg]
    · rw [if_neg h, List.map_cons, ih, List.map_cons, List.map_cons]
      by_cases hmem : r.capsule ∈ ds.map (·.capsule)
      · rw [if_pos hmem, if_pos (List.mem_cons_of_mem _ hmem)]
      · rw [if_neg hmem, if_neg (by simpa [Ne.symm h] using hmem), List.cons_append]

theorem capsules_addReference (number : Nat) (r : Reference) (ds : List Dependency) :
    (addReference number r ds).map (·.capsule) =
      if r.capsule ∈ ds.map (·.capsule) then ds.map (·.capsule) else ds.map (·.capsule) ++ [r.capsule] :=
  map_addReference (fun _ _ => rfl) number r ds

theorem collect_concat (found : List (Nat × Reference)) (f : Nat × Reference) :
    collect (found ++ [f]) = addReference f.1 f.2 (collect found) :=
  List.foldl_append ..

theorem nodup_collect (found : List (Nat × Reference)) : ((collect found).map (·.capsule)).Nodup := by
  induction found using List.reverseRecOn with
  | nil => exact List.nodup_nil
  | append_singleton found f ih =>
    rw [collect_concat, capsules_addReference]
    split
    · exact ih
    · next hnew => exact List.nodup_append.2 ⟨ih, List.nodup_singleton _, by simpa using hnew⟩

variable (rule) (known : CapsuleId → Bool) (consumer : CapsuleId) (source : String)

/-- A source references a capsule once. -/
theorem nodup_ids : (ofSource rule known consumer source).ids.Nodup := nodup_collect _

theorem diagnostics_ofSource :
    (ofSource rule known consumer source).diagnostics =
      ((ofSource rule known consumer source).references.filter fun d => !known d.capsule).map
        (missing consumer) :=
  rfl

end Extraction

theorem Module.resolution_ofStub (env : StubEnvironment) (s : Stub) :
    (Module.ofStub env s).resolution = Module.resolutionOf env s :=
  rfl

/-! ### Warnings of a unit -/

/-- The capsule that a finding on a reference says to be missing: the second of the ids it names. -/
def Diagnostic.provider? (d : Diagnostic) : Option CapsuleId := d.affected[1]?.map CapsuleId.mk

namespace CompilationUnit

/-- The warnings about references of a unit that name no known capsule. -/
def missingWarnings (u : CompilationUnit) : List Diagnostic :=
  u.extraction.diagnostics.filter fun d => d.kind == .missingDependency && d.severity == .warning

/-- The capsules that these warnings name. -/
def missing (u : CompilationUnit) : List CapsuleId := u.missingWarnings.filterMap (·.provider?)

variable {u : CompilationUnit}

/-- Every finding of an extraction is a warning about a missing capsule. -/
theorem missingWarnings_eq (h : Looked rule catalog u) : u.missingWarnings = u.extraction.diagnostics := by
  refine List.filter_eq_self.2 fun d hd => ?_
  rw [h.2, Extraction.diagnostics_ofSource] at hd
  obtain ⟨r, -, rfl⟩ := List.mem_map.1 hd
  rfl

theorem missing_eq (h : Looked rule catalog u) : u.missing = u.references.filter (!catalog.contains ·) := by
  rw [missing, missingWarnings_eq h, references, h.2, Extraction.diagnostics_ofSource, List.filterMap_map,
    Extraction.ids, List.filter_map]
  exact congrFun (List.filterMap_eq_map (f := fun d : Dependency => d.capsule)) _

theorem length_missing (h : Looked rule catalog u) : u.missing.length = u.missingWarnings.length := by
  rw [missing_eq h, missingWarnings_eq h, references, h.2, Extraction.diagnostics_ofSource, Extraction.ids,
    List.filter_map, List.length_map, List.length_map]
  rfl

/-- Each warning names the unit and the capsule it misses. -/
theorem affected_missingWarnings (h : Looked rule catalog u) :
    u.missingWarnings.map (·.affected) = u.missing.map fun id => [u.id.text, id.text] := by
  rw [missing_eq h, missingWarnings_eq h, references, h.2, Extraction.diagnostics_ofSource, Extraction.ids,
    List.filter_map, List.map_map, List.map_map]
  rfl

/-- What remains of the references without the missing ones is known. -/
theorem references_filter_notMem_missing (h : Looked rule catalog u) :
    u.references.filter (· ∉ u.missing) = u.references.filter catalog.contains := by
  refine List.filter_congr fun id hid => ?_
  simp [missing_eq h, hid]

theorem references_filter_mem_missing (h : Looked rule catalog u) :
    u.references.filter (fun id => !decide (id ∉ u.missing)) = u.missing := by
  have hmissing := missing_eq h
  refine Eq.trans (List.filter_congr fun id hid => ?_) hmissing.symm
  simp [hmissing, hid]

theorem nodup_references (h : Looked rule catalog u) : u.references.Nodup := by
  rw [references, h.2]
  exact Extraction.nodup_ids ..

/-! ### Among the units -/

section

variable (rule) (hlook : ∀ d ∈ ds, catalog.lookup d.id = some d)
include hlook

theorem looked_of_mem_collect (hu : u ∈ collect rule catalog ds) : Looked rule catalog u := by
  obtain ⟨left, h⟩ := collected rule hlook
  exact h.looked u (List.mem_append_left _ hu)

/-- A reference of a unit leads to a unit if its capsule is known. -/
theorem mem_collect_of_mem_references (hu : u ∈ collect rule catalog ds) {id : CapsuleId} (hid : id ∈ u.references) :
    id ∈ (collect rule catalog ds).map (·.id) ↔ catalog.contains id := by
  constructor
  · exact contains_of_mem_collect rule hlook
  · intro hknown
    obtain ⟨left, h⟩ := collected rule hlook
    simpa using h.closed u hu id hid hknown

/-- The stubs of all units resolve what is known, and leave unresolved what extraction reports as missing. -/
theorem resolutionOf_unit (hu : u ∈ collect rule catalog ds) :
    Module.resolutionOf (.ofUnits rule (collect rule catalog ds)) (.ofUnit rule u) =
      ⟨u.id, u.references.filter (· ∉ u.missing), u.missing⟩ := by
  have hlooked := looked_of_mem_collect rule hlook hu
  have hfound : ∀ id ∈ u.references,
      (StubEnvironment.ofUnits rule (collect rule catalog ds)).contains id = catalog.contains id := by
    intro id hid
    rw [Bool.eq_iff_iff, StubEnvironment.contains_iff, StubEnvironment.ids_ofUnits (nodup_collect rule hlook),
      mem_collect_of_mem_references rule hlook hu hid]
  rw [references_filter_notMem_missing hlooked, missing_eq hlooked]
  refine congrArg₂ (UnitResolution.mk u.id) (List.filter_congr hfound) (List.filter_congr fun id hid => ?_)
  rw [hfound id hid]

theorem units_report_collect :
    (Resolution.ofUnits rule (collect rule catalog ds)).report.units =
      (collect rule catalog ds).map fun u => ⟨u.id, u.references.filter (· ∉ u.missing), u.missing⟩ := by
  rw [Resolution.report, Resolution.modules_ofUnits (nodup_collect rule hlook), List.map_map]
  refine List.map_congr_left fun u hu => ?_
  rw [Function.comp_apply, Module.resolution_ofStub, resolutionOf_unit rule hlook hu]

end

end CompilationUnit

end CapsuleCompiler
