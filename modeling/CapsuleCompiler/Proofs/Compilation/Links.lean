import CapsuleCompiler.Proofs.Compilation.Stages
import CapsuleCompiler.Proofs.Generation.Files
import CapsuleCompiler.Proofs.Generation.Prelude

/-!
# Proofs.Compilation.Links — imports of a generated application lead to modules that are there

Two kinds of lines of an application name a module: the headers of modules import siblings, and the page imports
the placed capsules.  Siblings are capsules of the environment, placed capsules are units, and both are the capsules
of the modules, each of which has a file.  Reference cycles and missing capsules make no difference to this.
-/

namespace CapsuleCompiler

/-- The files have, under the path that imports of a capsule name, the module that was made for it. -/
def HoldsModule (files : Dict String) (r : Resolution) (id : CapsuleId) : Prop :=
  ∃ m, r.module? id = some m ∧ files.get? (Generator.modulePath id) = some m.text

namespace Compiler

variable {catalog : Catalog} {config : CompilerConfig} {c : Composition} {timing : Timing} {a : Artifact}

theorem run_links_closed (h : (ofConfig catalog config).run c .application timing = .ok a) :
    ∃ s page, (ofConfig catalog config).stages c = .ok s ∧ a.files.get? Generator.pagePath = some page ∧
      (∀ m ∈ s.resolution.modules, s.resolution.module? m.capsule = some m ∧
        a.files.get? (Generator.modulePath m.capsule) = some m.text) ∧
      (∀ m ∈ s.resolution.modules, ∀ bindings id, HeaderLine.sibling bindings id ∈ m.header →
        HoldsModule a.files s.resolution id) ∧
      ∀ i : CapsuleImport, i.text.toList ∈ Generator.linesBeforeExport page →
        HoldsModule a.files s.resolution i.capsule := by
  obtain ⟨s, out, hs, hout, rfl⟩ := run_eq_ok.1 h
  have hunits := nodup_units_of_stages hs
  have hnd : (s.resolution.modules.map (·.capsule)).Nodup := capsules_of_stages hs ▸ hunits
  obtain ⟨plan, page, hplan, hpage, hpagefile, hfiles⟩ := Generator.get?_application hnd hout
  have hholds : ∀ id ∈ s.units.map (·.id), HoldsModule out.files s.resolution id := by
    intro id hid
    rw [← capsules_of_stages hs] at hid
    obtain ⟨m, hm⟩ := Resolution.module?_isSome_iff.2 hid
    obtain ⟨hmem, rfl⟩ := Resolution.mem_of_module? hm
    exact ⟨m, hm, (hfiles m hmem).2⟩
  refine ⟨s, page, hs, hpagefile, fun m hm => ⟨Resolution.module?_capsule hnd hm, (hfiles m hm).2⟩, ?_, ?_⟩
  · intro m hm bindings id hline
    rw [resolution_of_stages hs, Resolution.modules_ofUnits hunits] at hm
    obtain ⟨u, _, rfl⟩ := List.mem_map.1 hm
    have hknown := StubEnvironment.contains_iff.1 (Module.contains_of_sibling hline)
    rw [StubEnvironment.ids_ofUnits hunits] at hknown
    exact hholds id hknown
  · intro i hline
    have hlines : ∀ l ∈ plan.preludeLines ["import './globals.css'"], Text.InLine l.toList := by
      intro l hl
      rcases Plan.mem_preludeLines hl with hother | ⟨j, hj, rfl⟩
      · exact (by decide : ∀ l ∈ Plan.otherLines, Text.InLine l.toList) l hother
      · obtain ⟨-, hsymbol, hcapsule⟩ := Plan.imports_eq_ok hplan hj
        exact CapsuleImport.inLine_text hsymbol hcapsule
    obtain ⟨l, hl, heq⟩ := Generator.mem_linesBeforeExport hlines hpage hline
    have heq := String.toList_inj.1 heq
    rcases Plan.mem_preludeLines hl with hother | ⟨j, hj, rfl⟩
    · exact absurd (heq ▸ hother) i.text_notMem_otherLines
    · obtain ⟨hplaced, hsymbol, hcapsule⟩ := Plan.imports_eq_ok hplan hj
      rw [CapsuleImport.capsule_eq_of_text_eq heq.symm hsymbol hcapsule]
      exact hholds _ (mem_units_of_placed hs hplaced)

open CompilationUnit (ringCatalog)

/-- One of the two capsules that reference each other, placed. -/
def ringPlacement : Composition := ⟨"Ring", none, [⟨⟨"first"⟩, ⟨"card"⟩, .empty⟩], []⟩

def ringStages : Stages :=
  .ofValidation (ofConfig ringCatalog .standard).rule ringCatalog (.ofComposition ringCatalog ringPlacement)

theorem stages_ring : (ofConfig ringCatalog .standard).stages ringPlacement = .ok ringStages := rfl

theorem run_ring_isOk : ∃ a, (ofConfig ringCatalog .standard).run ringPlacement .application ⟨0, ""⟩ = .ok a := by
  have hids := capsules_of_stages stages_ring
  have hnd : (ringStages.resolution.modules.map (·.capsule)).Nodup := hids ▸ nodup_units_of_stages stages_ring
  have hcanonical : ∀ m ∈ ringStages.resolution.modules, m.capsule.isCanonical := by
    intro m hm
    have hknown := contains_of_mem_units stages_ring (hids ▸ List.mem_map_of_mem hm)
    obtain ⟨d, hd⟩ := CompilationUnit.contains_iff.1 hknown
    rw [← Catalog.id_of_lookup hd]
    exact (by decide +kernel : ∀ d ∈ ringCatalog.definitions, d.id.isCanonical) d (List.mem_of_find?_eq_some hd)
  have hplan : (Plan.ofValidation "Ring" (.ofComposition ringCatalog ringPlacement)).isOk := by decide +kernel
  obtain ⟨out, hout⟩ := (Generator.application_isOk_iff (b := ⟨ringPlacement, ringStages.validation, ringStages.units,
    ringStages.resolution, ringStages.graph.order?⟩) .standard hnd).2 ⟨isOk_iff.1 hplan, hcanonical⟩
  exact ⟨_, run_eq_ok.2 ⟨ringStages, out, stages_ring, hout, rfl⟩⟩

theorem run_links_closed_ring : ∃ a s page,
    (ofConfig ringCatalog .standard).run ringPlacement .application ⟨0, ""⟩ = .ok a ∧
      (ofConfig ringCatalog .standard).stages ringPlacement = .ok s ∧
      a.files.get? Generator.pagePath = some page ∧
      (∀ m ∈ s.resolution.modules, ∀ bindings id, HeaderLine.sibling bindings id ∈ m.header →
        HoldsModule a.files s.resolution id) ∧
      ∀ i : CapsuleImport, i.text.toList ∈ Generator.linesBeforeExport page →
        HoldsModule a.files s.resolution i.capsule := by
  obtain ⟨a, ha⟩ := run_ring_isOk
  obtain ⟨s, page, hs, hpage, -, hheaders, himports⟩ := run_links_closed ha
  exact ⟨a, s, page, ha, hs, hpage, hheaders, himports⟩

end Compiler

end CapsuleCompiler
