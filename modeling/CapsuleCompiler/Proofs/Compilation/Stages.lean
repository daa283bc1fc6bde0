import CapsuleCompiler.Compilation
import CapsuleCompiler.Proofs.Fallible
import CapsuleCompiler.Proofs.Unit.Collection
import CapsuleCompiler.Proofs.Unit.Modules

/-!
# Proofs.Compilation.Stages — what the stages of a compilation hand on

The stages succeed exactly when no instance is repeated, and then they are those of the validation of the composition.
Their units are collected from the capsules of the nodes, each capsule is in one unit, and each unit in one module.
-/

namespace CapsuleCompiler

variable {catalog : Catalog} {c : Composition} {s : Stages}

theorem Validation.lookup_of_mem_placed {d : CapsuleDefinition}
    (h : d ∈ (ofComposition catalog c).placed.map (·.definition)) : catalog.lookup d.id = some d := by
  obtain ⟨p, hp, rfl⟩ := List.mem_map.1 h
  obtain ⟨n, -, hn⟩ := List.mem_filterMap.1 hp
  obtain ⟨d, hd, rfl⟩ := Option.map_eq_some_iff.1 hn
  rwa [Catalog.id_of_lookup hd]

theorem Composition.validate_eq_ok {v : Validation} (h : c.validate catalog = .ok v) :
    v = .ofComposition catalog c := by
  rw [validate] at h
  split at h
  · cases h
  · exact (Except.ok.inj h).symm

namespace Compiler

variable {compiler : Compiler}

theorem stages_of_validate {v : Validation} (h : c.validate compiler.catalog = .ok v) :
    compiler.stages c = .ok (.ofValidation compiler.rule compiler.catalog v) :=
  bind_eq_ok.2 ⟨v, h, rfl⟩

theorem stages_eq_ok (h : compiler.stages c = .ok s) :
    s = .ofValidation compiler.rule compiler.catalog (.ofComposition compiler.catalog c) := by
  obtain ⟨v, hv, h⟩ := bind_eq_ok.1 h
  rw [← Except.ok.inj h, Composition.validate_eq_ok hv]

theorem validation_of_stages (h : compiler.stages c = .ok s) : s.validation = .ofComposition compiler.catalog c := by
  rw [stages_eq_ok h]
  rfl

theorem graph_of_stages (h : compiler.stages c = .ok s) : s.graph = .ofUnits s.units := by
  rw [stages_eq_ok h]
  rfl

theorem units_of_stages (h : compiler.stages c = .ok s) :
    s.units = CompilationUnit.collect compiler.rule compiler.catalog (s.validation.placed.map (·.definition)) := by
  rw [stages_eq_ok h]
  rfl

theorem lookup_of_stages (h : compiler.stages c = .ok s) {d : CapsuleDefinition}
    (hd : d ∈ s.validation.placed.map (·.definition)) : compiler.catalog.lookup d.id = some d := by
  rw [stages_eq_ok h] at hd
  exact Validation.lookup_of_mem_placed hd

theorem nodup_units_of_stages (h : compiler.stages c = .ok s) : (s.units.map (·.id)).Nodup := by
  rw [units_of_stages h]
  exact CompilationUnit.nodup_collect _ fun _ => lookup_of_stages h

theorem resolution_of_stages (h : compiler.stages c = .ok s) : s.resolution = .ofUnits compiler.rule s.units := by
  rw [stages_eq_ok h]
  rfl

theorem modules_of_stages (h : compiler.stages c = .ok s) :
    s.resolution.modules =
      s.units.map fun u => Module.ofStub (.ofUnits compiler.rule s.units) (.ofUnit compiler.rule u) := by
  rw [resolution_of_stages h]
  exact Resolution.modules_ofUnits (nodup_units_of_stages h)

theorem capsules_of_stages (h : compiler.stages c = .ok s) :
    s.resolution.modules.map (·.capsule) = s.units.map (·.id) := by
  rw [resolution_of_stages h]
  exact Resolution.capsules_ofUnits (nodup_units_of_stages h)

/-- Every placed capsule is compiled. -/
theorem mem_units_of_placed (h : compiler.stages c = .ok s) {id : CapsuleId}
    (hid : id ∈ s.validation.placed.map (·.definition.id)) : id ∈ s.units.map (·.id) := by
  rw [units_of_stages h, CompilationUnit.mem_collect_iff _ fun _ => lookup_of_stages h, List.map_map]
  exact .inl hid

/-- Every compiled capsule is known. -/
theorem contains_of_mem_units (h : compiler.stages c = .ok s) {id : CapsuleId} (hid : id ∈ s.units.map (·.id)) :
    compiler.catalog.contains id := by
  rw [units_of_stages h] at hid
  exact CompilationUnit.contains_of_mem_collect _ (fun _ => lookup_of_stages h) hid

theorem run_eq_ok {shape : Shape} {timing : Timing} {a : Artifact} :
    compiler.run c shape timing = .ok a ↔ ∃ s out, compiler.stages c = .ok s ∧
      compiler.generator.generateFiles ⟨c, s.validation, s.units, s.resolution, s.graph.order?⟩ shape = .ok out ∧
      artifactOf c shape s out timing = a := by
  constructor
  · intro h
    obtain ⟨s, hs, h⟩ := bind_eq_ok.1 h
    obtain ⟨out, hout, h⟩ := bind_eq_ok.1 h
    exact ⟨s, out, hs, mapError_eq_ok.1 hout, Except.ok.inj h⟩
  · rintro ⟨s, out, hs, hout, rfl⟩
    exact bind_eq_ok.2 ⟨s, hs, bind_eq_ok.2 ⟨out, mapError_eq_ok.2 hout, rfl⟩⟩

end Compiler

end CapsuleCompiler
