import CapsuleCompiler.Proofs.Generation.Paths
import CapsuleCompiler.Proofs.Generation.Success
import CapsuleCompiler.Proofs.Unit.Stripping

/-!
# Proofs.Generation.Symbols — the symbols that an application declares

Every unit of an application has a canonical id and a file, which declares the symbol of the capsule where the source
has nothing of its own, and the guide lists the symbols of all units.  A plan asks that the symbols of placed capsules
be identifiers.  Of capsules that are only referenced nothing is asked beyond the canonical id, so the symbol of such a
capsule is an identifier exactly when its id begins with a letter.
-/

namespace CapsuleCompiler

/-! ### Files of units -/

theorem Module.symbol_ofStub (env : StubEnvironment) (s : Stub) : (ofStub env s).symbol = s.symbol := rfl

theorem Module.splitDirective_eq (cs : List Char) :
    splitDirective cs = (none, cs) ∨ ∃ d rest, splitDirective cs = (some d, rest) := by
  rw [splitDirective]
  split_ifs
  · exact .inr ⟨_, _, rfl⟩
  · exact .inl rfl

/-- A source without own lines becomes a component that shows nothing, behind the header of its references. -/
theorem Module.exists_text_emptyComponent {rule : ReferenceRule} (env : StubEnvironment) {u : CompilationUnit}
    (h : Stub.ownText rule u.definition.source = []) :
    ∃ header, (ofStub env (.ofUnit rule u)).text = header ++ Stub.emptyComponent u.id.symbol ++ "\n" := by
  have hbody : (Stub.ofUnit rule u).body.toList = (Stub.emptyComponent u.id.symbol).toList := by
    rw [Stub.ofUnit, Stub.toList_bodyOf, if_pos h]
  have hsplit : splitDirective (Stub.ofUnit rule u).body.toList = (none, (Stub.emptyComponent u.id.symbol).toList) := by
    rw [hbody]
    refine (splitDirective_eq _).resolve_right ?_
    rintro ⟨d, rest, hsome⟩
    exact Stub.splitDirective_emptyComponent (Stub.isAlphanum_symbol u.id) d rest hsome
  have hmodule : (ofStub env (.ofUnit rule u)).body = Stub.emptyComponent u.id.symbol := by
    rw [ofStub, hsplit]
    exact String.ofList_toList
  exact ⟨_, by rw [text, hmodule]⟩

namespace Generator

variable {g : Generator} {b : Blueprint} {out : GeneratedFiles}

/-- The entry of a module in the guide tells its unit only. -/
theorem entry_ofUnit (rule : ReferenceRule) (env : StubEnvironment) (u : CompilationUnit) :
    (⟨modulePath (Module.ofStub env (.ofUnit rule u)).capsule, (Module.ofStub env (.ofUnit rule u)).symbol⟩ :
      Project.ModuleEntry) = ⟨modulePath u.id, u.id.symbol⟩ := by
  have hcapsule : (Module.ofStub env (.ofUnit rule u)).capsule = u.id := Module.capsule_ofStub ..
  have hsymbol : (Module.ofStub env (.ofUnit rule u)).symbol = u.id.symbol := Module.symbol_ofStub ..
  rw [hcapsule, hsymbol]

/-- The guide of an application ends with a section that lists the path and the symbol of every module. -/
theorem guide_section_of_application (h : g.generateFiles b .application = .ok out) : ∃ before,
    out.files.get? "README.md" = some (before ++ "## Capsule modules\n\n" ++ Project.moduleLines
      (b.orderedModules.map fun m => ⟨modulePath m.capsule, m.symbol⟩) ++ "\n") := by
  obtain ⟨plan, -, h⟩ := bind_eq_ok.1 h
  obtain ⟨page, -, h⟩ := bind_eq_ok.1 h
  obtain ⟨files, hfiles, h⟩ := bind_eq_ok.1 h
  obtain ⟨modules, hmodules, hfiles⟩ := bind_eq_ok.1 hfiles
  obtain ⟨guide, hguide, hfiles⟩ := bind_eq_ok.1 hfiles
  obtain ⟨rfl, -⟩ := moduleFiles_eq_ok hmodules
  obtain ⟨before, hreadme⟩ := readme_eq plan.title b.composition.description .standard
    ((b.orderedModules.map fun m => ((⟨modulePath m.capsule, m.symbol⟩ : Project.ModuleEntry), m.text)).map (·.1))
  rw [hreadme] at hguide
  cases hguide
  cases hfiles
  cases h
  refine ⟨before, (Dict.get?_ofList _ _).trans ?_⟩
  rw [List.reverse_cons, List.reverse_append, List.map_map]
  rfl

theorem guide_of_application (h : g.generateFiles b .application = .ok out) : ∃ before,
    out.files.get? "README.md" = some (before ++ Project.moduleLines
      (b.orderedModules.map fun m => ⟨modulePath m.capsule, m.symbol⟩) ++ "\n") := by
  obtain ⟨before, hguide⟩ := guide_section_of_application h
  exact ⟨_, hguide⟩

end Generator

/-! ### Which symbols are identifiers -/

namespace Compiler

variable {compiler : Compiler} {c : Composition} {timing : Timing} {a : Artifact}

/-- **Symbols of an application.**  The guide has the symbols of all units, and a unit without own lines declares its
symbol.  All ids are canonical; the symbols of placed capsules are identifiers, and any symbol is one exactly when its
id begins with a letter. -/
theorem run_declares_symbols (h : compiler.run c .application timing = .ok a) :
    ∃ s before entries, compiler.stages c = .ok s ∧
      a.files.get? "README.md" = some (before ++ Project.moduleLines entries ++ "\n") ∧
      (∀ e, e ∈ entries ↔ ∃ u ∈ s.units, e = ⟨Generator.modulePath u.id, u.id.symbol⟩) ∧
      (∀ u ∈ s.units, Stub.ownText compiler.rule u.definition.source = [] → ∃ header,
        a.files.get? (Generator.modulePath u.id) = some (header ++ Stub.emptyComponent u.id.symbol ++ "\n")) ∧
      (∀ id ∈ s.validation.placed.map (·.definition.id), Naming.isIdentifier id.symbol) ∧
      ∀ u ∈ s.units, u.id.isCanonical ∧
        (Naming.isIdentifier u.id.symbol ↔ ∃ first, u.id.text.toList.head? = some first ∧ first.isLower) := by
  obtain ⟨s, out, hs, hout, rfl⟩ := run_eq_ok.1 h
  have hnd := capsules_of_stages hs ▸ nodup_units_of_stages hs
  obtain ⟨plan, page, hplan, -⟩ := Generator.get?_application hnd hout
  obtain ⟨before, hguide⟩ := Generator.guide_of_application hout
  refine ⟨s, before, _, hs, hguide, fun e => ?_, fun u hu hown => ?_, fun id hid => ?_, fun u hu => ?_⟩
  · have hlisted (m : Module) : m ∈ Blueprint.orderedModules ⟨c, s.validation, s.units, s.resolution, s.graph.order?⟩ ↔
        ∃ u ∈ s.units, Module.ofStub (.ofUnits compiler.rule s.units) (.ofUnit compiler.rule u) = m := by
      rw [Blueprint.mem_orderedModules hnd, modules_of_stages hs, List.mem_map]
    simp only [List.mem_map, hlisted, exists_exists_and_eq_and, Generator.entry_ofUnit]
    exact exists_congr fun u => and_congr_right fun _ => eq_comm
  · obtain ⟨header, htext⟩ := Module.exists_text_emptyComponent (.ofUnits compiler.rule s.units) hown
    exact ⟨header, (file_of_mem_units hs hout hu).2.trans (congrArg some htext)⟩
  · obtain ⟨symbol, hsymbol⟩ := Plan.symbolOf_of_placed hplan hid
    obtain ⟨-, rfl, hident⟩ := Plan.symbolOf_eq_ok hsymbol
    exact hident
  · have hcanonical := (file_of_mem_units hs hout hu).1
    exact ⟨hcanonical, CapsuleId.isIdentifier_symbol_iff hcanonical⟩

open CompilationUnit (ringCatalog)

theorem run_declares_symbols_ring : ∃ a s,
    (ofConfig ringCatalog .standard).run ringPlacement .application ⟨0, ""⟩ = .ok a ∧
      (ofConfig ringCatalog .standard).stages ringPlacement = .ok s ∧
      s.units.map (·.id.symbol) = ["Card", "Link"] ∧ (∀ u ∈ s.units, Naming.isIdentifier u.id.symbol) ∧
      ∃ header, a.files.get? "components/capsules/link.tsx" = some (header ++ Stub.emptyComponent "Link" ++ "\n") := by
  obtain ⟨a, ha⟩ := run_ring_isOk
  obtain ⟨s, before, entries, hs, -, -, hempty, -, hsymbols⟩ := run_declares_symbols ha
  obtain rfl : ringStages = s := Except.ok.inj (stages_ring.symm.trans hs)
  have hids : ringStages.units.map (·.id) = [⟨"card"⟩, ⟨"link"⟩] := by decide +kernel
  have hown : ∀ u ∈ ringStages.units,
      Stub.ownText (ofConfig ringCatalog .standard).rule u.definition.source = [] := by decide +kernel
  refine ⟨a, ringStages, ha, stages_ring, by decide +kernel, fun u hu => (hsymbols u hu).2.2 ?_, ?_⟩
  · have hid : u.id ∈ [⟨"card"⟩, ⟨"link"⟩] := hids ▸ List.mem_map_of_mem hu
    simp only [List.mem_cons, List.not_mem_nil, or_false] at hid
    rcases hid with hid | hid
    · exact ⟨'c', by rw [hid]; rfl, by decide⟩
    · exact ⟨'l', by rw [hid]; rfl, by decide⟩
  · have hlink : ⟨"link"⟩ ∈ ringStages.units.map (·.id) := by simp [hids]
    obtain ⟨u, hu, hid⟩ := List.mem_map.1 hlink
    obtain ⟨header, hfile⟩ := hempty u hu (hown u hu)
    have hpath : Generator.modulePath ⟨"link"⟩ = "components/capsules/link.tsx" := by decide +kernel
    have hsymbol : CapsuleId.symbol ⟨"link"⟩ = "Link" := by decide +kernel
    rw [hid, hpath, hsymbol] at hfile
    exact ⟨header, hfile⟩

/-! ### A symbol that is none -/

/-- A capsule whose source only references another, which has no source and whose id begins with a digit. -/
def columnCatalog : Catalog := .ofList [
  ⟨⟨"card"⟩, "Card", "", "import Column from './components/2col'\n", .none, none, .empty⟩,
  ⟨⟨"2col"⟩, "Column", "", "", .none, none, .empty⟩]

def columnPlacement : Composition := ⟨"Columns", none, [⟨⟨"first"⟩, ⟨"card"⟩, .empty⟩], []⟩

def columnStages : Stages :=
  .ofValidation (ofConfig columnCatalog .standard).rule columnCatalog (.ofComposition columnCatalog columnPlacement)

/-- An application is generated whose module declares a component with a symbol that begins with a digit. -/
theorem digit_symbol_declared : ∃ a,
    (ofConfig columnCatalog .standard).run columnPlacement .application ⟨0, ""⟩ = .ok a ∧
      (ofConfig columnCatalog .standard).stages columnPlacement = .ok columnStages ∧
      columnStages.units.map (·.id) = [⟨"card"⟩, ⟨"2col"⟩] ∧
      a.files.get? "components/capsules/2col.tsx" =
        some "export default function 2col() \x7b\n  return null\n\x7d\n" ∧
      CapsuleId.symbol ⟨"2col"⟩ = "2col" ∧ ¬Naming.isIdentifier "2col" := by
  have hs : (ofConfig columnCatalog .standard).stages columnPlacement = .ok columnStages := rfl
  have hids : columnStages.units.map (·.id) = [⟨"card"⟩, ⟨"2col"⟩] := by decide +kernel
  have hplan : (Plan.ofValidation "Columns" columnStages.validation).isOk := by decide +kernel
  have hnamed : .unnamed ∉ columnStages.units.map (·.id) := by
    rw [hids]
    decide +kernel
  have hrun : ∃ a, (ofConfig columnCatalog .standard).run columnPlacement .application ⟨0, ""⟩ = .ok a :=
    isOk_iff.1 (run_isOk_iff.2 ⟨columnStages, hs, isOk_iff.1 hplan, fun _ => hnamed⟩)
  obtain ⟨a, ha⟩ := hrun
  have hfile : (columnStages.resolution.module? ⟨"2col"⟩).map (·.text) =
      some "export default function 2col() \x7b\n  return null\n\x7d\n" := by decide +kernel
  obtain ⟨m, hm, htext⟩ := Option.map_eq_some_iff.1 hfile
  obtain ⟨hmem, hcapsule⟩ := Resolution.mem_of_module? hm
  obtain ⟨s, out, hs', hout, rfl⟩ := run_eq_ok.1 ha
  obtain rfl : columnStages = s := Except.ok.inj (hs.symm.trans hs')
  have hnd := capsules_of_stages hs ▸ nodup_units_of_stages hs
  obtain ⟨plan, page, -, -, -, hfiles⟩ := Generator.get?_application hnd hout
  have hpath : Generator.modulePath ⟨"2col"⟩ = "components/capsules/2col.tsx" := by decide +kernel
  have hfound := (hfiles m hmem).2
  rw [hcapsule, hpath, htext] at hfound
  exact ⟨_, ha, hs, hids, hfound, by decide +kernel, by decide +kernel⟩

end Compiler

end CapsuleCompiler
