import CapsuleCompiler.Proofs.Compilation.Stages
import CapsuleCompiler.Proofs.Generation.Files
import CapsuleCompiler.Proofs.Generation.State

/-!
# Proofs.Generation.Scope — the names that a main file binds

With the built-in templates a main file is its prelude, the line of its exported function, the declarations of the
state variables, and the markup (`primaryText_standard`).  Capsules and the function have names in Pascal case, state
variables and the hook names in camel case, so a name of the one kind never meets one of the other.  Variables are told
apart from each other; that the symbols of capsules differ from each other and from the function, that no variable is
called like the hook, and none like a setter, is left to chance.  A main file binds no name twice exactly when these
four hold (`names_nodup_iff`).
-/

namespace CapsuleCompiler

open Naming (IsCamel IsPascal)

/-! ### The names of a plan -/

namespace Plan

/-- The name of the exported function. -/
def functionName (plan : Plan) : Shape → String
  | .component => plan.symbol
  | .page | .application => plan.symbol ++ "Page"

/-- What the import of the hook binds, which is there if there are variables. -/
def hookNames (plan : Plan) : List String := if plan.state.isEmpty then [] else ["useState"]

/-- The names that the imports, the exported function and the state variables of a main file bind. -/
def boundNames (plan : Plan) (shape : Shape) : List String :=
  plan.hookNames ++ plan.imports.map (·.symbol) ++ [plan.functionName shape] ++ plan.state.map (·.value) ++
    plan.state.map (·.setter)

variable {plan : Plan} {name : String} {v : Validation}

theorem isPascal_import (h : ofValidation name v = .ok plan) {symbol : String}
    (hsymbol : symbol ∈ plan.imports.map (·.symbol)) : IsPascal symbol := by
  obtain ⟨i, hi, rfl⟩ := List.mem_map.1 hsymbol
  obtain ⟨-, heq, hident⟩ := symbolOf_eq_ok (importsOf_eq_ok (ofValidation_eq_ok h).1 hi).2
  rw [heq] at hident ⊢
  exact Naming.isPascal_pascal hident

theorem isPascal_functionName (h : ofValidation name v = .ok plan) (shape : Shape) :
    IsPascal (plan.functionName shape) := by
  have hsymbol : IsPascal plan.symbol := (ofValidation_eq_ok h).2.2.2 ▸ Naming.isPascal_compositionSymbol name
  cases shape with
  | component => exact hsymbol
  | page => exact hsymbol.append (List.all_eq_true.1 (by decide))
  | application => exact hsymbol.append (List.all_eq_true.1 (by decide))

theorem named_state (h : ofValidation name v = .ok plan) : StateVariable.Named plan.state :=
  StateVariable.named_of_ensureAll (ofValidation_eq_ok h).2.1

theorem isCamel_useState : IsCamel "useState" := 
  ⟨'u', "seState".toList, rfl, by decide, List.all_eq_true.1 (by decide)⟩

theorem useState_notMem_setters (h : StateVariable.Named plan.state) : "useState" ∉ plan.state.map (·.setter) := by
  intro hmem
  obtain ⟨w, hw, heq⟩ := List.mem_map.1 hmem
  rw [h.setter w hw] at heq
  have hlist := congrArg String.toList heq
  rw [String.toList_append] at hlist
  exact absurd (List.cons_eq_cons.1 hlist).1 (by decide)

theorem mem_hookNames {name : String} (hname : name ∈ plan.hookNames) : name = "useState" := by
  rw [hookNames] at hname
  split at hname
  · cases hname
  · exact List.mem_singleton.1 hname

theorem useState_mem_hookNames {value : String} (hvalue : value ∈ plan.state.map (·.value)) :
    "useState" ∈ plan.hookNames := by
  rw [hookNames, if_neg]
  · exact List.mem_singleton_self _
  · intro hempty
    rw [List.isEmpty_iff.1 hempty] at hvalue
    cases hvalue

theorem nodup_hookNames (plan : Plan) : plan.hookNames.Nodup := by
  rw [hookNames]
  split
  · exact List.nodup_nil
  · exact List.nodup_singleton _

/-- The four ways in which a name can be bound twice. -/
theorem nodup_boundNames_iff (h : ofValidation name v = .ok plan) (shape : Shape) :
    (plan.boundNames shape).Nodup ↔
      (plan.imports.map (·.symbol)).Nodup ∧ plan.functionName shape ∉ plan.imports.map (·.symbol) ∧
        "useState" ∉ plan.state.map (·.value) ∧
        ∀ value ∈ plan.state.map (·.value), value ∉ plan.state.map (·.setter) := by
  have hnamed := named_state h
  have hsymbols : ∀ symbol ∈ plan.imports.map (·.symbol), IsPascal symbol := fun _ => isPascal_import h
  have hfunction := isPascal_functionName h shape
  have hvalues : ∀ value ∈ plan.state.map (·.value), IsCamel value := by simpa using hnamed.camel
  have hsetters : ∀ setter ∈ plan.state.map (·.setter), IsCamel setter := by
    simpa using fun _ => hnamed.isCamel_setter
  rw [boundNames, List.nodup_append, List.nodup_append, List.nodup_append, List.nodup_append]
  constructor
  · rintro ⟨⟨⟨⟨-, himports, -⟩, -, hexported⟩, -, hvalue⟩, -, hsetter⟩
    refine ⟨himports, fun hmem => ?_, fun hmem => ?_, fun value hmem hset => ?_⟩
    · exact hexported _ (List.mem_append_right _ hmem) _ (List.mem_singleton_self _) rfl
    · exact hvalue _ (by simp [useState_mem_hookNames hmem]) _ hmem rfl
    · exact hsetter _ (List.mem_append_right _ hmem) _ hset rfl
  · rintro ⟨himports, hexported, hhook, hcross⟩
    have hcapital : ∀ a ∈ plan.imports.map (·.symbol) ++ [plan.functionName shape], IsPascal a := by
      intro a ha
      rcases List.mem_append.1 ha with ha | ha
      · exact hsymbols a ha
      · rwa [List.mem_singleton.1 ha]
    refine ⟨⟨⟨⟨nodup_hookNames plan, himports, fun a ha b hb => ?_⟩, List.nodup_singleton _, ?_⟩,
      hnamed.nodup, fun a ha b hb => ?_⟩, hnamed.nodup_setters, fun a ha b hb => ?_⟩
    · rw [mem_hookNames ha]
      exact isCamel_useState.ne (hsymbols b hb)
    · intro a ha b hb
      rw [List.mem_singleton.1 hb]
      rcases List.mem_append.1 ha with ha | ha
      · rw [mem_hookNames ha]
        exact isCamel_useState.ne hfunction
      · exact fun heq => hexported (heq ▸ ha)
    · rw [List.append_assoc] at ha
      rcases List.mem_append.1 ha with ha | ha
      · rw [mem_hookNames ha]
        exact fun heq => hhook (heq ▸ hb)
      · exact ((hvalues b hb).ne (hcapital a ha)).symm
    · rw [List.append_assoc, List.append_assoc] at ha
      rcases List.mem_append.1 ha with ha | ha
      · rw [mem_hookNames ha]
        exact fun heq => useState_notMem_setters hnamed (heq ▸ hb)
      · rw [← List.append_assoc] at ha
        rcases List.mem_append.1 ha with ha | ha
        · exact ((hsetters b hb).ne (hcapital a ha)).symm
        · exact fun heq => hcross a ha (heq ▸ hb)

end Plan

/-! ### The main file -/

namespace Generator

/-- The imports of a main file behind those of the capsules. -/
def furtherImports : Shape → List String
  | .component | .page => []
  | .application => ["import './globals.css'"]

theorem primaryText_standard (versions : PackageVersions) (plan : Plan) (shape : Shape) : ∃ rest,
    (standard versions).primaryText plan shape = .ok (plan.prelude (furtherImports shape) ++
      "export default function " ++ plan.functionName shape ++ "() \x7b\n" ++ plan.stateBlock ++ rest) := by
  have hpage (further : List String) : ∃ rest, fill .page plan further 8 false = .ok (plan.prelude further ++
      "export default function " ++ (plan.symbol ++ "Page") ++ "() \x7b\n" ++ plan.stateBlock ++ rest) := by
    have hsplit : "Page() \x7b\n" = "Page" ++ "() \x7b\n" := rfl
    obtain ⟨rest, h⟩ := fill_pageParts plan further 8 false
    rw [hsplit] at h
    exact ⟨rest, by simpa only [String.append_assoc] using h⟩
  cases shape with
  | component => exact fill_componentParts ..
  | page => exact hpage []
  | application => exact hpage ["import './globals.css'"]

/-- The primary file is the main file of the plan. -/
theorem primary_of_generateFiles {g : Generator} {b : Blueprint} {shape : Shape} {out : GeneratedFiles}
    (h : g.generateFiles b shape = .ok out) :
    ∃ plan text, Plan.ofValidation b.composition.name b.validation = .ok plan ∧
      g.primaryText plan shape = .ok text ∧ out.files.get? out.primaryFile = some text := by
  obtain ⟨plan, hplan, h⟩ := bind_eq_ok.1 h
  obtain ⟨text, htext, h⟩ := bind_eq_ok.1 h
  have hothers : ∃ others, out.files = .ofList ((primaryPath plan shape, text) :: others) ∧
      out.primaryFile = primaryPath plan shape ∧ ∀ e ∈ others, e.1 ≠ primaryPath plan shape := by
    cases shape with
    | component | page =>
      cases h
      exact ⟨[], rfl, rfl, by simp⟩
    | application =>
      obtain ⟨others, hothers, h⟩ := bind_eq_ok.1 h
      obtain ⟨project, rfl, hproject, -⟩ := projectFiles_eq_ok hothers
      cases h
      refine ⟨_, rfl, rfl, fun e he heq => ?_⟩
      rcases List.mem_append.1 he with he | he
      · obtain ⟨m, -, rfl⟩ := List.mem_map.1 he
        have hpath : modulePath m.capsule = pagePath := heq
        exact modulePath_notMem m.capsule (hpath ▸ List.mem_cons_self)
      · have hpath : pagePath ∈ projectPaths := hproject ▸ List.mem_map.2 ⟨e, he, heq⟩
        exact absurd hpath (by decide)
  obtain ⟨others, hfiles, hprimary, hapart⟩ := hothers
  refine ⟨plan, text, hplan, htext, ?_⟩
  rw [hfiles, hprimary]
  refine Dict.get?_ofList_of_mem List.mem_cons_self fun e he heq => ?_
  rcases List.mem_cons.1 he with rfl | he
  · rfl
  · exact absurd heq (hapart e he)

/-- With the built-in templates a main file alone needs a plan and nothing else. -/
theorem mainFile_isOk (versions : PackageVersions) {b : Blueprint} {shape : Shape} (hshape : shape ≠ .application)
    (h : ∃ plan, Plan.ofValidation b.composition.name b.validation = .ok plan) :
    ∃ out, (standard versions).generateFiles b shape = .ok out := by
  obtain ⟨plan, hplan⟩ := h
  obtain ⟨rest, htext⟩ := primaryText_standard versions plan shape
  cases shape with
  | component | page => exact ⟨_, bind_eq_ok.2 ⟨plan, hplan, bind_eq_ok.2 ⟨_, htext, rfl⟩⟩⟩
  | application => exact absurd rfl hshape

end Generator

/-! ### Names bound twice -/

namespace Compiler

variable {catalog : Catalog} {rule : ReferenceRule} {versions : PackageVersions} {c : Composition} {shape : Shape}
  {timing : Timing} {a : Artifact}

/-- **Names of a main file.**  They are those of its plan, and none is bound twice exactly when the symbols of the
imports differ from each other and from the function, and the values of variables from the hook and the setters. -/
theorem names_nodup_iff (h : (Compiler.mk catalog rule (.standard versions)).run c shape timing = .ok a) :
    ∃ plan rest, Plan.ofValidation c.name (.ofComposition catalog c) = .ok plan ∧
      a.primary? = some (plan.prelude (Generator.furtherImports shape) ++ "export default function " ++
        plan.functionName shape ++ "() \x7b\n" ++ plan.stateBlock ++ rest) ∧
      ((plan.boundNames shape).Nodup ↔
        (plan.imports.map (·.symbol)).Nodup ∧ plan.functionName shape ∉ plan.imports.map (·.symbol) ∧
          "useState" ∉ plan.state.map (·.value) ∧
          ∀ value ∈ plan.state.map (·.value), value ∉ plan.state.map (·.setter)) := by
  obtain ⟨s, out, hs, hout, rfl⟩ := run_eq_ok.1 h
  obtain ⟨plan, text, hplan, htext, hfile⟩ := Generator.primary_of_generateFiles hout
  obtain ⟨rest, hrest⟩ := Generator.primaryText_standard versions plan shape
  have hvalidation : s.validation = .ofComposition catalog c := by
    rw [stages_eq_ok hs]
    rfl
  rw [hvalidation] at hplan
  cases htext.symm.trans hrest
  exact ⟨plan, rest, hplan, hfile, Plan.nodup_boundNames_iff hplan shape⟩

def searchBar : CapsuleDefinition :=
  ⟨⟨"search-bar"⟩, "Search", "", "", ⟨[], [⟨"query", .string, false, none⟩]⟩, none, .empty⟩

def itemList : CapsuleDefinition :=
  ⟨⟨"item-list"⟩, "List", "", "", ⟨[⟨"filter", .string, false, none⟩, ⟨"note", .string, false, none⟩], []⟩, none,
    .empty⟩

def storeCatalog : Catalog := .ofList [searchBar, itemList]

/-- A search whose query filters a list. -/
def storePlacement : Composition :=
  ⟨"Store", none, [⟨⟨"search"⟩, ⟨"search-bar"⟩, .empty⟩, ⟨⟨"list"⟩, ⟨"item-list"⟩, .empty⟩],
    [⟨⟨⟨"search"⟩, "query"⟩, ⟨⟨"list"⟩, "filter"⟩⟩]⟩

theorem run_mainFile_isOk (hvalid : c.validate catalog = .ok (.ofComposition catalog c))
    (hplan : (Plan.ofValidation c.name (.ofComposition catalog c)).isOk) (hshape : shape ≠ .application) :
    ∃ a, (Compiler.mk catalog rule (.standard versions)).run c shape timing = .ok a := by
  let s : Stages := .ofValidation rule catalog (.ofComposition catalog c)
  have hs : (Compiler.mk catalog rule (.standard versions)).stages c = .ok s := stages_of_validate hvalid
  have hout : ∃ out, (Generator.standard versions).generateFiles
      ⟨c, s.validation, s.units, s.resolution, s.graph.order?⟩ shape = .ok out :=
    Generator.mainFile_isOk versions hshape (isOk_iff.1 hplan)
  obtain ⟨out, hout⟩ := hout
  exact ⟨_, run_eq_ok.2 ⟨s, out, hs, hout, rfl⟩⟩

theorem names_nodup_iff_store : ∃ a plan,
    (ofConfig storeCatalog .standard).run storePlacement .page ⟨0, ""⟩ = .ok a ∧
      Plan.ofValidation "Store" (.ofComposition storeCatalog storePlacement) = .ok plan ∧
      plan.boundNames .page = ["useState", "SearchBar", "ItemList", "StorePage", "searchQuery", "setSearchQuery"] ∧
      (plan.boundNames .page).Nodup := by
  have hrun : ∃ a, (ofConfig storeCatalog .standard).run storePlacement .page ⟨0, ""⟩ = .ok a :=
    run_mainFile_isOk rfl (by decide +kernel) (by decide)
  obtain ⟨a, ha⟩ := hrun
  obtain ⟨plan, rest, hplan, -, hiff⟩ := names_nodup_iff ha
  have hnames : (Plan.ofValidation "Store" (.ofComposition storeCatalog storePlacement)).toOption.map (fun p =>
      (p.boundNames .page, p.imports.map (·.symbol), p.functionName .page, p.state.map (·.value),
        p.state.map (·.setter))) =
      some (["useState", "SearchBar", "ItemList", "StorePage", "searchQuery", "setSearchQuery"],
        ["SearchBar", "ItemList"], "StorePage", ["searchQuery"], ["setSearchQuery"]) := by decide +kernel
  obtain ⟨plan', hplan', hnames⟩ := exists_ok_of_toOption_map hnames
  obtain rfl : plan = plan' := Except.ok.inj (hplan.symm.trans hplan')
  simp only [Prod.mk.injEq] at hnames
  obtain ⟨hbound, himports, hfunction, hvalues, hsetters⟩ := hnames
  refine ⟨a, plan, ha, hplan', hbound, hiff.2 ?_⟩
  rw [himports, hfunction, hvalues, hsetters]
  decide

/-- Two instances, the second of which is named like the setter of the first. -/
def setterPlacement : Composition :=
  ⟨"Store", none, [⟨⟨"search"⟩, ⟨"search-bar"⟩, .empty⟩, ⟨⟨"set-search"⟩, ⟨"search-bar"⟩, .empty⟩,
      ⟨⟨"list"⟩, ⟨"item-list"⟩, .empty⟩],
    [⟨⟨⟨"search"⟩, "query"⟩, ⟨⟨"list"⟩, "filter"⟩⟩, ⟨⟨⟨"set-search"⟩, "query"⟩, ⟨⟨"list"⟩, "note"⟩⟩]⟩

theorem setter_bound_twice : ∃ a plan,
    (ofConfig storeCatalog .standard).run setterPlacement .component ⟨0, ""⟩ = .ok a ∧
      Plan.ofValidation "Store" (.ofComposition storeCatalog setterPlacement) = .ok plan ∧
      plan.stateBlock = "  const [searchQuery, setSearchQuery] = useState(null)\n" ++
        "  const [setSearchQuery, setSetSearchQuery] = useState(null)\n\n" ∧
      ¬(plan.boundNames .component).Nodup := by
  have hrun : ∃ a, (ofConfig storeCatalog .standard).run setterPlacement .component ⟨0, ""⟩ = .ok a :=
    run_mainFile_isOk rfl (by decide +kernel) (by decide)
  obtain ⟨a, ha⟩ := hrun
  have hnames : (Plan.ofValidation "Store" (.ofComposition storeCatalog setterPlacement)).toOption.map (fun p =>
      (p.stateBlock, decide (p.boundNames .component).Nodup)) =
      some ("  const [searchQuery, setSearchQuery] = useState(null)\n" ++
        "  const [setSearchQuery, setSetSearchQuery] = useState(null)\n\n", false) := by decide +kernel
  obtain ⟨plan, hplan, hnames⟩ := exists_ok_of_toOption_map hnames
  simp only [Prod.mk.injEq, decide_eq_false_iff_not] at hnames
  exact ⟨a, plan, ha, hplan, hnames⟩

end Compiler

end CapsuleCompiler
