import CapsuleCompiler.Proofs.Compilation.Links
import CapsuleCompiler.Proofs.File.Downward
import CapsuleCompiler.Proofs.Generation.Scope

/-!
# Proofs.Generation.Paths — the paths of an artifact

A main file has the symbol of the composition or a fixed path, and an application adds its project files and one file
for each unit.  The ids in these paths are canonical, whether their capsules are placed or only referenced, and symbols
are words, so no path has a slash but those that are written between its steps, and none of its steps is a dot or two.
-/

namespace CapsuleCompiler

namespace Generator

variable {g : Generator} {b : Blueprint} {shape : Shape} {out : GeneratedFiles} {name : String}
  {ids : List CapsuleId}

/-- The paths of the files of a shape, the main file first. -/
def paths (name : String) (ids : List CapsuleId) : Shape → List String
  | .component => ["components/" ++ Naming.compositionSymbol name ++ ".tsx"]
  | .page => ["app/page.tsx"]
  | .application => ["app/page.tsx", "app/globals.css", "package.json", "tsconfig.json", "README.md"] ++
      ids.map fun id => "components/capsules/" ++ id.text ++ ".tsx"

theorem paths_application : paths name ids .application = (pagePath :: projectPaths) ++ ids.map modulePath := rfl

/-- No two files of a shape have one path. -/
theorem nodup_paths (h : ids.Nodup) (shape : Shape) : (paths name ids shape).Nodup := by
  cases shape with
  | component | page => exact List.nodup_singleton _
  | application =>
    rw [paths_application, List.nodup_append]
    refine ⟨by decide, h.map fun _ _ => modulePath_injective, ?_⟩
    rintro path hproject _ hmodule rfl
    obtain ⟨id, -, rfl⟩ := List.mem_map.1 hmodule
    exact modulePath_notMem id hproject

/-! ### The files that are made -/

theorem keys_of_generateFiles (hnd : (b.resolution.modules.map (·.capsule)).Nodup)
    (h : g.generateFiles b shape = .ok out) :
    out.files.keys.Perm (paths b.composition.name (b.resolution.modules.map (·.capsule)) shape) := by
  cases shape with
  | component | page =>
    obtain ⟨plan, hplan, h⟩ := bind_eq_ok.1 h
    obtain ⟨text, -, h⟩ := bind_eq_ok.1 h
    cases h
    refine Dict.keys_ofList_perm (nodup_paths hnd _) fun key => ?_
    simp [paths, primaryPath, pagePath, (Plan.ofValidation_eq_ok hplan).2.2.2]
  | application =>
    obtain ⟨plan, page, project, -, -, hproject, -, hfiles⟩ := files_application h
    rw [hfiles]
    refine Dict.keys_ofList_perm (nodup_paths hnd _) fun key => ?_
    have hmodules : key ∈ b.orderedModules.map (fun m => modulePath m.capsule) ↔
        key ∈ (b.resolution.modules.map (·.capsule)).map modulePath := by
      simp only [List.mem_map, Blueprint.mem_orderedModules hnd, exists_exists_and_eq_and]
    rw [List.map_cons, List.map_append, List.map_map, hproject, paths_application, List.mem_cons, List.mem_append,
      List.mem_append, List.mem_cons, or_assoc, ← hmodules, or_comm (a := key ∈ projectPaths)]
    exact Iff.rfl

theorem primaryFile_mem_keys (h : g.generateFiles b shape = .ok out) : out.primaryFile ∈ out.files.keys := by
  obtain ⟨plan, text, -, -, hfile⟩ := primary_of_generateFiles h
  rw [Dict.mem_keys_iff, hfile]
  rfl

/-! ### Steps of the paths -/

theorem slash_notMem_compositionSymbol (name : String) : '/' ∉ (Naming.compositionSymbol name).toList := by
  obtain ⟨c, rest, hname, hupper, hrest⟩ := Naming.isPascal_compositionSymbol name
  rw [hname, List.mem_cons, not_or]
  constructor
  · rintro rfl
    exact absurd hupper (by decide)
  · intro hmem
    exact absurd (hrest _ hmem) (by decide)

theorem slash_notMem_of_isCanonical {id : CapsuleId} (h : id.isCanonical) : '/' ∉ id.text.toList := by
  intro hmem
  rw [CapsuleId.isCanonical, Bool.and_eq_true, Bool.and_eq_true, List.all_eq_true] at h
  exact absurd (h.1.2 _ hmem) (by decide)

theorem modulePath_eq_intercalate (id : CapsuleId) :
    modulePath id = "/".intercalate (["components", "capsules"] ++ [id.text ++ ".tsx"]) := by
  have hfolders : "components/capsules/" = "components" ++ "/" ++ "capsules" ++ "/" := rfl
  unfold modulePath
  rw [hfolders]
  simp only [List.cons_append, List.nil_append, String.intercalate_cons_cons, String.intercalate_singleton,
    String.append_assoc]

theorem downward_of_mem_paths (hids : shape = .application → ∀ id ∈ ids, id.isCanonical) {path : String}
    (h : path ∈ paths name ids shape) : Path.Downward path := by
  have hpage : Path.Downward "app/page.tsx" := ⟨["app", "page.tsx"], by decide, by decide, rfl⟩
  cases shape with
  | component =>
    have hfolders : ∀ folder ∈ ["components"], Path.IsName folder := by decide
    have hmain := Path.downward_sourceFile hfolders (slash_notMem_compositionSymbol name)
    rw [List.mem_singleton.1 h]
    simpa [String.append_assoc] using hmain
  | page => rwa [List.mem_singleton.1 h]
  | application =>
    rw [paths_application] at h
    rcases List.mem_append.1 h with hproject | hmodule
    · simp only [projectPaths, pagePath, List.mem_cons, List.not_mem_nil, or_false] at hproject
      rcases hproject with rfl | rfl | rfl | rfl | rfl
      · exact hpage
      · exact ⟨["app", "globals.css"], by decide, by decide, rfl⟩
      · exact ⟨["package.json"], by decide, by decide, rfl⟩
      · exact ⟨["tsconfig.json"], by decide, by decide, rfl⟩
      · exact ⟨["README.md"], by decide, by decide, rfl⟩
    · obtain ⟨id, hid, rfl⟩ := List.mem_map.1 hmodule
      rw [modulePath_eq_intercalate]
      exact Path.downward_sourceFile (by decide) (slash_notMem_of_isCanonical (hids rfl id hid))

end Generator

namespace Compiler

variable {compiler : Compiler} {c : Composition} {shape : Shape} {timing : Timing} {a : Artifact}

/-- Every unit of an application has a canonical id and, under its path, the text of its module. -/
theorem file_of_mem_units {s : Stages} {out : GeneratedFiles} (hs : compiler.stages c = .ok s)
    (h : compiler.generator.generateFiles ⟨c, s.validation, s.units, s.resolution, s.graph.order?⟩ .application =
      .ok out) {u : CompilationUnit} (hu : u ∈ s.units) :
    u.id.isCanonical ∧ out.files.get? (Generator.modulePath u.id) =
      some (Module.ofStub (.ofUnits compiler.rule s.units) (.ofUnit compiler.rule u)).text := by
  have hnd := capsules_of_stages hs ▸ nodup_units_of_stages hs
  obtain ⟨plan, page, -, -, -, hfiles⟩ := Generator.get?_application hnd h
  have hmem : Module.ofStub (.ofUnits compiler.rule s.units) (.ofUnit compiler.rule u) ∈ s.resolution.modules := by
    rw [modules_of_stages hs]
    exact List.mem_map_of_mem hu
  have hfile := hfiles _ hmem
  rwa [Module.capsule_ofStub] at hfile

/-- **Paths of an artifact.**  They are those of the shape, one for each file; the primary file is one of them, each
leads downwards step by step, and so writing the files below a folder refuses none of them. -/
theorem run_paths_exact (h : compiler.run c shape timing = .ok a) :
    ∃ s, compiler.stages c = .ok s ∧
      a.files.keys.Perm (Generator.paths c.name (s.units.map (·.id)) shape) ∧
      (Generator.paths c.name (s.units.map (·.id)) shape).Nodup ∧
      (shape = .application → a.files.size = 5 + s.units.length) ∧
      a.metadata.primaryFile ∈ a.files.keys ∧
      (∀ path ∈ a.files.keys, Path.Downward path) ∧
      Export.escaping? a.files = none ∧
      ∀ {σ : Type} (access : FileAccess (StateM σ)) (folder : String),
        Export.Accepts (Export.writeFiles access folder a.files) := by
  obtain ⟨s, out, hs, hout, rfl⟩ := run_eq_ok.1 h
  have hids := capsules_of_stages hs
  have hunits := nodup_units_of_stages hs
  have hkeys := Generator.keys_of_generateFiles (hids ▸ hunits) hout
  simp only [hids] at hkeys
  have hcanonical : shape = .application → ∀ id ∈ s.units.map (·.id), id.isCanonical := by
    rintro rfl id hid
    obtain ⟨u, hu, rfl⟩ := List.mem_map.1 hid
    exact (file_of_mem_units hs hout hu).1
  have hdown : ∀ path ∈ out.files.keys, Path.Downward path := fun path hpath =>
    Generator.downward_of_mem_paths hcanonical (hkeys.mem_iff.1 hpath)
  have hcontained : ∀ path ∈ out.files.keys, Path.isContained path := fun path hpath => (hdown path hpath).isContained
  refine ⟨s, hs, hkeys, Generator.nodup_paths hunits shape, ?_, Generator.primaryFile_mem_keys hout, hdown,
    Export.escaping?_eq_none_iff.2 hcontained, ?_⟩
  · rintro rfl
    have hlength := hkeys.length_eq
    rw [Dict.keys, List.length_map] at hlength
    simp only [Generator.paths, List.length_append, List.length_map, List.length_cons, List.length_nil] at hlength
    exact hlength
  · intro σ access folder
    exact Export.accepts_writeFiles access folder hcontained

open CompilationUnit (ringCatalog)

theorem run_paths_exact_ring : ∃ a, (ofConfig ringCatalog .standard).run ringPlacement .application ⟨0, ""⟩ = .ok a ∧
    a.files.keys.Perm ["app/page.tsx", "app/globals.css", "package.json", "tsconfig.json", "README.md",
      "components/capsules/card.tsx", "components/capsules/link.tsx"] ∧
    a.files.size = 7 ∧ a.metadata.primaryFile ∈ a.files.keys ∧ ∀ path ∈ a.files.keys, Path.Downward path := by
  obtain ⟨a, ha⟩ := run_ring_isOk
  obtain ⟨s, hs, hkeys, -, hsize, hprimary, hdown, -⟩ := run_paths_exact ha
  obtain rfl : ringStages = s := Except.ok.inj (stages_ring.symm.trans hs)
  have hunits : ringStages.units.map (·.id) = [⟨"card"⟩, ⟨"link"⟩] := by decide +kernel
  have hcount : ringStages.units.length = 2 := by simpa using congrArg List.length hunits
  rw [hunits] at hkeys
  have hsize := hsize rfl
  rw [hcount] at hsize
  exact ⟨a, ha, hkeys, hsize, hprimary, hdown⟩

end Compiler

end CapsuleCompiler
