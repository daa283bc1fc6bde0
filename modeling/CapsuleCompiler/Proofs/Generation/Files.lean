import CapsuleCompiler.Generator
import CapsuleCompiler.Proofs.Fallible
import CapsuleCompiler.Proofs.Generation.Prelude
import CapsuleCompiler.Proofs.Text.Names
import CapsuleCompiler.Proofs.Unit.Modules

/-!
# Proofs.Generation.Files — the files of an application

An application has the page, one file for each module, and four project files; no two of these share a path, so
each is found under its own (`get?_application`).  The order in which the guide lists the modules neither drops one nor
brings one in.
-/

namespace CapsuleCompiler

/-! ### Order of the guide -/

theorem Blueprint.mem_orderedModules {b : Blueprint} (hnd : (b.resolution.modules.map (·.capsule)).Nodup)
    {m : Module} : m ∈ b.orderedModules ↔ m ∈ b.resolution.modules := by
  rw [orderedModules]
  split
  · exact Iff.rfl
  · next order _ =>
    rw [List.mem_append, List.mem_filterMap, List.mem_filter]
    constructor
    · rintro (⟨id, _, hfound⟩ | ⟨hm, _⟩)
      · exact (Resolution.mem_of_module? hfound).1
      · exact hm
    · intro hm
      by_cases hlisted : m.capsule ∈ order
      · exact .inl ⟨_, hlisted, Resolution.module?_capsule hnd hm⟩
      · exact .inr ⟨hm, by simpa using hlisted⟩

namespace Generator

variable {g : Generator} {b : Blueprint} {out : GeneratedFiles}

/-! ### Module files -/

theorem moduleFiles_eq_ok {ms : List Module} {files : List (Project.ModuleEntry × String)}
    (h : moduleFiles ms = .ok files) :
    files = ms.map (fun m => (⟨modulePath m.capsule, m.symbol⟩, m.text)) ∧ ∀ m ∈ ms, m.capsule.isCanonical := by
  induction ms generalizing files with
  | nil => cases h; simp
  | cons m ms ih =>
    obtain ⟨file, hfile, h⟩ := bind_eq_ok.1 h
    obtain ⟨rest, hrest, h⟩ := bind_eq_ok.1 h
    obtain ⟨⟨⟩, hcanonical, hfile⟩ := bind_eq_ok.1 hfile
    cases hfile
    cases h
    obtain ⟨rfl, hall⟩ := ih hrest
    refine ⟨rfl, fun n hn => ?_⟩
    rcases List.mem_cons.1 hn with rfl | hn
    · exact Plan.requireCanonical_eq_ok.1 hcanonical
    · exact hall n hn

/-! ### Paths -/

def projectPaths : List String := ["app/globals.css", "package.json", "tsconfig.json", "README.md"]

theorem projectFiles_eq_ok {plan : Plan} {files : List (String × String)} (h : g.projectFiles b plan = .ok files) :
    ∃ project, files = b.orderedModules.map (fun m => (modulePath m.capsule, m.text)) ++ project ∧
      project.map (·.1) = projectPaths ∧ ∀ m ∈ b.orderedModules, m.capsule.isCanonical := by
  obtain ⟨modules, hmodules, h⟩ := bind_eq_ok.1 h
  obtain ⟨guide, hguide, h⟩ := bind_eq_ok.1 h
  obtain ⟨rfl, hcanonical⟩ := moduleFiles_eq_ok hmodules
  rw [← Except.ok.inj h, List.map_map]
  exact ⟨[_, _, _, _], rfl, rfl, hcanonical⟩

/-- The files of an application with their paths, the page first. -/
theorem files_application (h : g.generateFiles b .application = .ok out) :
    ∃ plan page project, Plan.ofValidation b.composition.name b.validation = .ok plan ∧
      fill g.page plan ["import './globals.css'"] 8 false = .ok page ∧
      project.map (·.1) = projectPaths ∧ (∀ m ∈ b.orderedModules, m.capsule.isCanonical) ∧
      out.files = .ofList ((pagePath, page) ::
        (b.orderedModules.map (fun m => (modulePath m.capsule, m.text)) ++ project)) := by
  obtain ⟨plan, hplan, h⟩ := bind_eq_ok.1 h
  obtain ⟨page, hpage, h⟩ := bind_eq_ok.1 h
  obtain ⟨files, hfiles, h⟩ := bind_eq_ok.1 h
  obtain ⟨project, rfl, hproject, hcanonical⟩ := projectFiles_eq_ok hfiles
  cases h
  refine ⟨plan, page, project, hplan, hpage, hproject, hcanonical, ?_⟩
  rw [primaryPath]

theorem toList_modulePath (id : CapsuleId) :
    (modulePath id).toList = "components/capsules/".toList ++ id.text.toList ++ ".tsx".toList := by
  unfold modulePath
  rw [String.toList_append, String.toList_append]

theorem modulePath_injective {a b : CapsuleId} (h : modulePath a = modulePath b) : a = b := by
  have h := congrArg String.toList h
  rw [toList_modulePath, toList_modulePath] at h
  exact CapsuleId.eq_of_toList (List.append_cancel_left (List.append_cancel_right h))

/-- No other file of an application has the path of a module. -/
theorem modulePath_notMem (id : CapsuleId) : modulePath id ∉ pagePath :: projectPaths := by
  intro hmem
  have hhead : ∀ path ∈ pagePath :: projectPaths, path.toList.head? ≠ some 'c' := by decide
  refine hhead _ hmem ?_
  rw [toList_modulePath]
  rfl

/-! ### What is found under a path -/

/-- An application has its page and the text of every module, each under its path. -/
theorem get?_application (hnd : (b.resolution.modules.map (·.capsule)).Nodup)
    (h : g.generateFiles b .application = .ok out) :
    ∃ plan page, Plan.ofValidation b.composition.name b.validation = .ok plan ∧
      fill g.page plan ["import './globals.css'"] 8 false = .ok page ∧ out.files.get? pagePath = some page ∧
      ∀ m ∈ b.resolution.modules, m.capsule.isCanonical ∧
        out.files.get? (modulePath m.capsule) = some m.text := by
  obtain ⟨plan, page, project, hplan, hpage, hproject, hcanonical, hfiles⟩ := files_application h
  have hpath : ∀ e ∈ project, e.1 ∈ projectPaths := fun e he => hproject ▸ List.mem_map_of_mem he
  refine ⟨plan, page, hplan, hpage, ?_, fun m hm => ?_⟩
  · rw [hfiles]
    refine Dict.get?_ofList_of_mem List.mem_cons_self fun e he heq => ?_
    rcases List.mem_cons.1 he with rfl | he
    · rfl
    · rcases List.mem_append.1 he with he | he
      · obtain ⟨m, _, rfl⟩ := List.mem_map.1 he
        exact absurd (heq ▸ List.mem_cons_self) (modulePath_notMem m.capsule)
      · exact absurd (heq ▸ hpath e he) (by decide)
  · have hm' := (Blueprint.mem_orderedModules hnd).2 hm
    refine ⟨hcanonical m hm', ?_⟩
    rw [hfiles]
    refine Dict.get?_ofList_of_mem
      (List.mem_cons_of_mem _ (List.mem_append_left _ (List.mem_map.2 ⟨m, hm', rfl⟩))) fun e he heq => ?_
    rcases List.mem_cons.1 he with rfl | he
    · exact absurd (heq ▸ List.mem_cons_self) (modulePath_notMem m.capsule)
    · rcases List.mem_append.1 he with he | he
      · obtain ⟨n, hn, rfl⟩ := List.mem_map.1 he
        have hn := (Blueprint.mem_orderedModules hnd).1 hn
        rw [List.inj_on_of_nodup_map hnd hn hm (modulePath_injective heq)]
      · exact absurd (List.mem_cons_of_mem _ (heq ▸ hpath e he)) (modulePath_notMem m.capsule)

/-! ### When there are files -/

/-- The values of the keys of a guide. -/
def guideFillings (title : String) (description : Option String) (build : BuildInstructions)
    (modules : List Project.ModuleEntry) : Dict String := .ofList [
  ("title", title),
  ("description", description.getD "A Next.js application assembled from capsules."),
  ("compiler", compilerId),
  ("install", Project.commandLines build.install),
  ("build", Project.commandLines build.build),
  ("run", Project.commandLines build.run),
  ("modules", Project.moduleLines modules)]

/-- The guide ends with the list of the modules, under its own heading. -/
theorem readme_eq (title : String) (description : Option String) (build : BuildInstructions)
    (modules : List Project.ModuleEntry) : ∃ before, Project.readme title description build modules =
      .ok (before ++ "## Capsule modules\n\n" ++ Project.moduleLines modules ++ "\n") := by
  let values := guideFillings title description build modules
  have hbound : Template.readmeParts.all (Template.Part.bound values) := by
    simp [values, guideFillings, Template.readmeParts, Template.Part.bound, Dict.contains, Dict.get?_ofList,
      List.lookup_cons]
  have hparts : Template.readmeParts = Template.readmeParts.dropLast.dropLast.dropLast ++
      [.text "## Capsule modules\n\n", .slot "modules", .text "\n"] := rfl
  have hlast : [.text "## Capsule modules\n\n", .slot "modules", .text "\n"].map (Template.Part.filled values) =
      ["## Capsule modules\n\n", Project.moduleLines modules, "\n"] := by
    simp [values, guideFillings, Template.Part.filled, Dict.get?_ofList]
  refine ⟨String.join (Template.readmeParts.dropLast.dropLast.dropLast.map (Template.Part.filled values)),
    (Template.render_parts Template.source_readme (by decide) hbound).trans (congrArg Except.ok ?_)⟩
  conv_lhs => rw [hparts, List.map_append, String.join_append, hlast]
  simp [String.append_assoc]

theorem readme_isOk (title : String) (description : Option String) (build : BuildInstructions)
    (modules : List Project.ModuleEntry) : ∃ guide, Project.readme title description build modules = .ok guide := by
  obtain ⟨before, h⟩ := readme_eq title description build modules
  exact ⟨_, h⟩

theorem moduleFiles_isOk {ms : List Module} (h : ∀ m ∈ ms, m.capsule.isCanonical) :
    ∃ files, moduleFiles ms = .ok files := by
  induction ms with
  | nil => exact ⟨[], rfl⟩
  | cons m ms ih =>
    obtain ⟨files, hfiles⟩ := ih fun n hn => h n (List.mem_cons_of_mem _ hn)
    have hm := Plan.requireCanonical_eq_ok.2 (h m List.mem_cons_self)
    exact ⟨_, bind_eq_ok.2 ⟨_, bind_eq_ok.2 ⟨_, hm, rfl⟩, bind_eq_ok.2 ⟨files, hfiles, rfl⟩⟩⟩

/-- With the built-in templates an application needs a plan and canonical capsules, and nothing else. -/
theorem application_isOk_iff (versions : PackageVersions)
    (hnd : (b.resolution.modules.map (·.capsule)).Nodup) :
    (∃ out, (standard versions).generateFiles b .application = .ok out) ↔
      (∃ plan, Plan.ofValidation b.composition.name b.validation = .ok plan) ∧
        ∀ m ∈ b.resolution.modules, m.capsule.isCanonical := by
  constructor
  · rintro ⟨out, h⟩
    obtain ⟨plan, page, hplan, -, -, hfiles⟩ := get?_application hnd h
    exact ⟨⟨plan, hplan⟩, fun m hm => (hfiles m hm).1⟩
  · rintro ⟨⟨plan, hplan⟩, hcanonical⟩
    obtain ⟨page, -, hpage, -⟩ := fill_page plan ["import './globals.css'"] 8 false
    obtain ⟨modules, hmodules⟩ := moduleFiles_isOk fun m hm => hcanonical m ((Blueprint.mem_orderedModules hnd).1 hm)
    obtain ⟨guide, hguide⟩ := readme_isOk plan.title b.composition.description .standard (modules.map (·.1))
    have hproject : ∃ files, (standard versions).projectFiles b plan = .ok files :=
      ⟨_, bind_eq_ok.2 ⟨modules, hmodules, bind_eq_ok.2 ⟨guide, hguide, rfl⟩⟩⟩
    obtain ⟨files, hfiles⟩ := hproject
    exact ⟨_, bind_eq_ok.2 ⟨plan, hplan, bind_eq_ok.2 ⟨page, hpage, bind_eq_ok.2 ⟨files, hfiles, rfl⟩⟩⟩⟩

end Generator

end CapsuleCompiler
