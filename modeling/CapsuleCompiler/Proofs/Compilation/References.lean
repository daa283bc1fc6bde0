import CapsuleCompiler.Proofs.Compilation.Links
import CapsuleCompiler.Proofs.Unit.References
import Mathlib

/-!
# Proofs.Compilation.References — the report of a compilation against its warnings

Extraction asks the catalog whether a reference is known, and the report asks the stubs of all units whether it is
found.  The answers are the same for every reference, so the report and the warnings can be counted against each other.
-/

namespace CapsuleCompiler

theorem ResolutionReport.total_eq (r : ResolutionReport) :
    r.total = r.resolved + (r.units.map (·.unresolved.length)).sum := by
  rw [total, resolved, ← List.sum_eq_foldl, ← List.sum_eq_foldl, ← List.sum_map_add]
  rfl

theorem Diagnostic.hasErrors_append (ds es : List Diagnostic) :
    hasErrors (ds ++ es) = (hasErrors ds || hasErrors es) :=
  List.any_append

theorem CompilationUnit.hasErrors_diagnostics {rule : ReferenceRule} {catalog : Catalog} {units : List CompilationUnit}
    (h : ∀ u ∈ units, Looked rule catalog u) : Diagnostic.hasErrors (diagnostics units) = false := by
  unfold Diagnostic.hasErrors
  rw [List.any_eq_false]
  intro d hd
  obtain ⟨u, hu, hd⟩ := List.mem_flatMap.1 hd
  rw [(h u hu).2, Extraction.diagnostics_ofSource] at hd
  obtain ⟨r, -, rfl⟩ := List.mem_map.1 hd
  exact (by decide : ¬(Severity.warning == Severity.error) = true)

theorem DependencyGraph.hasErrors_cycleDiagnostics (g : DependencyGraph) :
    Diagnostic.hasErrors g.cycleDiagnostics = false := by
  simp [Diagnostic.hasErrors, cycleDiagnostics, cycleDiagnostic]

namespace Compiler

variable {compiler : Compiler} {c : Composition} {v : Validation} {s : Stages}

theorem looked_of_stages (h : compiler.stages c = .ok s) {u : CompilationUnit} (hu : u ∈ s.units) :
    CompilationUnit.Looked compiler.rule compiler.catalog u := by
  rw [units_of_stages h] at hu
  exact CompilationUnit.looked_of_mem_collect _ (fun _ => lookup_of_stages h) hu

/-- The report has an entry for each unit, which leaves unresolved what the warnings of the unit name. -/
theorem units_report_of_stages (h : compiler.stages c = .ok s) :
    s.resolution.report.units =
      s.units.map fun u => ⟨u.id, u.references.filter (· ∉ u.missing), u.missing⟩ := by
  rw [resolution_of_stages h, units_of_stages h]
  exact CompilationUnit.units_report_collect _ fun _ => lookup_of_stages h

theorem capsules_report_of_stages (h : compiler.stages c = .ok s) :
    s.resolution.report.units.map (·.capsule) = s.units.map (·.id) := by
  rw [units_report_of_stages h, List.map_map]
  rfl

theorem total_report_of_stages (h : compiler.stages c = .ok s) :
    s.resolution.report.total =
      s.resolution.report.resolved + (s.units.flatMap (·.missingWarnings)).length := by
  rw [ResolutionReport.total_eq, units_report_of_stages h, List.map_map, List.length_flatMap]
  refine congrArg (_ + ·) (congrArg List.sum (List.map_congr_left fun u hu => ?_))
  exact CompilationUnit.length_missing (looked_of_stages h hu)

/-- Errors come from the validation: findings on references are warnings, and those on cycles are less. -/
theorem hasErrors_of_run {shape : Shape} {timing : Timing} {a : Artifact} (h : compiler.run c shape timing = .ok a) :
    a.hasErrors = Diagnostic.hasErrors (Validation.ofComposition compiler.catalog c).diagnostics := by
  obtain ⟨s, out, hs, -, rfl⟩ := run_eq_ok.1 h
  have hreferences := CompilationUnit.hasErrors_diagnostics fun u hu => looked_of_stages hs (u := u) hu
  have hdiagnostics : Diagnostic.hasErrors s.diagnostics = Diagnostic.hasErrors s.validation.diagnostics := by
    rw [Stages.diagnostics, Diagnostic.hasErrors_append, Diagnostic.hasErrors_append, hreferences,
      DependencyGraph.hasErrors_cycleDiagnostics, Bool.or_false, Bool.or_false]
  refine hdiagnostics.trans ?_
  rw [stages_eq_ok hs]
  rfl

/-- **The report and the warnings.**  A unit leaves unresolved, in order, what its warnings name, and resolves the rest
of its references; so the unresolved references of a report are as many as the warnings. -/
theorem unresolved_eq_missing (h : c.validate compiler.catalog = .ok v) :
    ∃ s, compiler.stages c = .ok s ∧
      s.resolution.report.units =
        s.units.map (fun u => ⟨u.id, u.references.filter (· ∉ u.missing), u.missing⟩) ∧
      (∀ u ∈ s.units, u.missingWarnings.map (·.affected) = u.missing.map (fun id => [u.id.text, id.text]) ∧
        u.references.Nodup ∧ (u.references.filter (· ∉ u.missing) ++ u.missing).Perm u.references) ∧
      s.resolution.report.total =
        s.resolution.report.resolved + (s.units.flatMap (·.missingWarnings)).length ∧
      (s.resolution.report.resolved = s.resolution.report.total ↔ s.units.flatMap (·.missingWarnings) = []) := by
  have hs := stages_of_validate h
  generalize Stages.ofValidation compiler.rule compiler.catalog v = s at hs
  have htotal := total_report_of_stages hs
  refine ⟨s, hs, units_report_of_stages hs, fun u hu => ?_, htotal, ?_⟩
  · have hlooked := looked_of_stages hs hu
    refine ⟨CompilationUnit.affected_missingWarnings hlooked, CompilationUnit.nodup_references hlooked, ?_⟩
    have hpart := List.filter_append_perm (· ∉ u.missing) u.references
    rwa [CompilationUnit.references_filter_mem_missing hlooked] at hpart
  · rw [htotal, ← List.length_eq_zero_iff]
    omega

open CompilationUnit (ringCatalog)

theorem validate_ring :
    ringPlacement.validate (ofConfig ringCatalog .standard).catalog = .ok (.ofComposition ringCatalog ringPlacement) :=
  rfl

theorem unresolved_eq_missing_ring :
    ringPlacement.validate ringCatalog = .ok (.ofComposition ringCatalog ringPlacement) ∧
      ∃ s, (ofConfig ringCatalog .standard).stages ringPlacement = .ok s ∧
        s.units.map (·.missing) = [[⟨"icon"⟩], []] ∧
        s.resolution.report.units = [⟨⟨"card"⟩, [⟨"link"⟩], [⟨"icon"⟩]⟩, ⟨⟨"link"⟩, [⟨"card"⟩], []⟩] ∧
        s.resolution.report.total = s.resolution.report.resolved + 1 := by
  obtain ⟨s, hs, hreport, -, htotal, -⟩ := unresolved_eq_missing validate_ring
  obtain rfl : ringStages = s := Except.ok.inj (stages_ring.symm.trans hs)
  have hentries : ringStages.units.map (fun u => UnitResolution.mk u.id (u.references.filter (· ∉ u.missing)) u.missing) =
      [⟨⟨"card"⟩, [⟨"link"⟩], [⟨"icon"⟩]⟩, ⟨⟨"link"⟩, [⟨"card"⟩], []⟩] := by decide +kernel
  have hwarnings : (ringStages.units.flatMap (·.missingWarnings)).length = 1 := by decide +kernel
  exact ⟨validate_ring, ringStages, hs, by decide +kernel, hreport.trans hentries, hwarnings ▸ htotal⟩

end Compiler

end CapsuleCompiler
