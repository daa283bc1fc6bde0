import CapsuleCompiler.Proofs.Generation.Scope
import CapsuleCompiler.Proofs.Generation.Wiring
import CapsuleCompiler.Proofs.Unit.Extraction

/-!
# Proofs.Generation.Success — a compilation succeeds in every shape or in none, but for a capsule without a name

With the built-in templates a main file needs a plan and nothing else, so component and page fail together and with
the same error.  An application needs canonical ids too: placed capsules have them by the plan, and referenced ones
because references are to names in kebab form.  The one name in kebab form that is not canonical is the empty one.
-/

namespace CapsuleCompiler

open Relation (TransGen)

/-! ### Ids of units -/

theorem CompilationUnit.References.canonical_or_unnamed {rule : ReferenceRule} {catalog : Catalog} {a b : CapsuleId}
    (h : References rule catalog a b) : b.isCanonical ∨ b = .unnamed := by
  obtain ⟨d, -, hb⟩ := h
  rw [Extraction.ids_ofSource, List.mem_eraseDups] at hb
  obtain ⟨r, -, rfl⟩ := List.mem_map.1 hb
  exact CapsuleId.isCanonical_ofSegment r.segment

theorem Plan.symbolOf_of_placed {plan : Plan} {name : String} {v : Validation} (h : ofValidation name v = .ok plan)
    {id : CapsuleId} (hid : id ∈ v.placed.map (·.definition.id)) : ∃ symbol, symbolOf id = .ok symbol := by
  obtain ⟨p, hp, rfl⟩ := List.mem_map.1 hid
  obtain ⟨e, -, he⟩ := exists_element h hp
  obtain ⟨inputs, -, he⟩ := bind_eq_ok.1 he
  obtain ⟨outputs, -, he⟩ := bind_eq_ok.1 he
  obtain ⟨symbol, hsymbol, -⟩ := bind_eq_ok.1 he
  exact ⟨symbol, hsymbol⟩

theorem Compiler.canonical_or_unnamed_of_stages {compiler : Compiler} {c : Composition} {s : Stages} {plan : Plan}
    (hs : compiler.stages c = .ok s) (hplan : Plan.ofValidation c.name s.validation = .ok plan) {id : CapsuleId}
    (hid : id ∈ s.units.map (·.id)) : id.isCanonical ∨ id = .unnamed := by
  rw [units_of_stages hs, CompilationUnit.mem_collect_iff _ fun _ => lookup_of_stages hs, List.map_map] at hid
  rcases hid with hplaced | ⟨-, root, -, hwalk⟩
  · obtain ⟨symbol, hsymbol⟩ := Plan.symbolOf_of_placed hplan hplaced
    exact .inl (Plan.symbolOf_eq_ok hsymbol).1
  · cases hwalk with
    | single hab => exact hab.canonical_or_unnamed
    | tail _ hab => exact hab.canonical_or_unnamed

/-! ### How generation fails -/

namespace Generator

variable {b : Blueprint} {fault : GenerationFault}

theorem moduleFile_canonical {m : Module} (h : m.capsule.isCanonical) :
    moduleFile m = .ok (⟨modulePath m.capsule, m.symbol⟩, m.text) :=
  bind_eq_ok.2 ⟨(), Plan.requireCanonical_eq_ok.2 h, rfl⟩

theorem moduleFile_unnamed {m : Module} (h : m.capsule = .unnamed) :
    moduleFile m = .error (.idNotCanonical .unnamed) := by
  have hnot : ¬CapsuleId.unnamed.isCanonical := by decide +kernel
  rw [moduleFile, h, Plan.requireCanonical, if_neg hnot]
  rfl

/-- Among canonical capsules the one without a name is the only one that has no file. -/
theorem moduleFiles_eq_error {ms : List Module} (h : ∀ m ∈ ms, m.capsule.isCanonical ∨ m.capsule = .unnamed) :
    moduleFiles ms = .error fault ↔ .unnamed ∈ ms.map (·.capsule) ∧ fault = .idNotCanonical .unnamed := by
  induction ms with
  | nil => simp [moduleFiles]
  | cons m ms ih =>
    obtain ⟨hm, hms⟩ := List.forall_mem_cons.1 h
    rw [List.map_cons, List.mem_cons]
    rcases hm with hm | hm
    · have hne : .unnamed ≠ m.capsule := by
        intro heq
        rw [← heq] at hm
        exact absurd hm (by decide +kernel)
      have hrest : moduleFiles (m :: ms) = .error fault ↔ moduleFiles ms = .error fault := by
        rw [moduleFiles, moduleFile_canonical hm]
        exact bind_pure_eq_error
      rw [hrest, ih hms, or_iff_right hne]
    · have hfirst : moduleFiles (m :: ms) = .error (.idNotCanonical .unnamed) := by
        rw [moduleFiles, moduleFile_unnamed hm]
        rfl
      rw [hfirst, Except.error.injEq, hm, eq_comm]
      exact (and_iff_right (.inl rfl)).symm

/-- With the built-in templates an application that has a plan fails where its modules do. -/
theorem projectFiles_eq_error (g : Generator) (plan : Plan) :
    g.projectFiles b plan = .error fault ↔ moduleFiles b.orderedModules = .error fault := by
  refine bind_eq_error.trans ⟨?_, .inl⟩
  rintro (h | ⟨modules, -, h⟩)
  · exact h
  · obtain ⟨guide, hguide⟩ := readme_isOk plan.title b.composition.description .standard (modules.map (·.1))
    rw [hguide] at h
    cases h

/-- With the built-in templates generation fails where there is no plan, and an application also where a capsule has
no name. -/
theorem generateFiles_eq_error (versions : PackageVersions) (b : Blueprint) (shape : Shape) (fault : GenerationFault)
    (hnd : (b.resolution.modules.map (·.capsule)).Nodup)
    (h : ∀ plan, Plan.ofValidation b.composition.name b.validation = .ok plan →
      ∀ m ∈ b.resolution.modules, m.capsule.isCanonical ∨ m.capsule = .unnamed) :
    (standard versions).generateFiles b shape = .error fault ↔
      Plan.ofValidation b.composition.name b.validation = .error fault ∨
        (∃ plan, Plan.ofValidation b.composition.name b.validation = .ok plan) ∧ shape = .application ∧
          .unnamed ∈ b.resolution.modules.map (·.capsule) ∧ fault = .idNotCanonical .unnamed := by
  refine bind_eq_error.trans (or_congr_right ?_)
  rw [← exists_and_right]
  refine exists_congr fun plan => and_congr_right fun hplan => ?_
  obtain ⟨rest, htext⟩ := primaryText_standard versions plan shape
  rw [htext]
  cases shape with
  | component | page =>
    simp only [reduceCtorEq, false_and, iff_false]
    rintro ⟨⟩
  | application =>
    have hmodules : ∀ m ∈ b.orderedModules, m.capsule.isCanonical ∨ m.capsule = .unnamed := fun m hm =>
      h plan hplan m ((Blueprint.mem_orderedModules hnd).1 hm)
    have hsame : .unnamed ∈ b.orderedModules.map (·.capsule) ↔ .unnamed ∈ b.resolution.modules.map (·.capsule) := by
      simp only [List.mem_map, Blueprint.mem_orderedModules hnd]
    rw [← hsame, ← moduleFiles_eq_error hmodules, ← projectFiles_eq_error (standard versions) plan]
    simp only [true_and]
    exact bind_pure_eq_error

end Generator

/-! ### All shapes -/

namespace Compiler

variable {catalog : Catalog} {config : CompilerConfig} {c : Composition} {shape : Shape} {timing : Timing}

/-- How a compilation fails: in the stages, without a plan, or as an application with a capsule without a name. -/
theorem run_eq_error {e : CompileError} : (ofConfig catalog config).run c shape timing = .error e ↔
    (ofConfig catalog config).stages c = .error e ∨ ∃ s, (ofConfig catalog config).stages c = .ok s ∧
      ((∃ fault, Plan.ofValidation c.name s.validation = .error fault ∧ .generation fault = e) ∨
        (∃ plan, Plan.ofValidation c.name s.validation = .ok plan) ∧ shape = .application ∧
          .unnamed ∈ s.units.map (·.id) ∧ .generation (.idNotCanonical .unnamed) = e) := by
  refine bind_eq_error.trans (or_congr_right (exists_congr fun s => and_congr_right fun hs => ?_))
  have hids := capsules_of_stages hs
  have hfails (fault : GenerationFault) := Generator.generateFiles_eq_error config.package
    ⟨c, s.validation, s.units, s.resolution, s.graph.order?⟩ shape fault (hids ▸ nodup_units_of_stages hs)
    fun plan hplan m hm => canonical_or_unnamed_of_stages hs hplan (hids ▸ List.mem_map_of_mem hm)
  refine bind_pure_eq_error.trans (mapError_eq_error.trans ?_)
  rw [← hids]
  constructor
  · rintro ⟨fault, hfault, rfl⟩
    rcases (hfails fault).1 hfault with hnone | ⟨hplan, hshape, hunnamed, rfl⟩
    · exact .inl ⟨fault, hnone, rfl⟩
    · exact .inr ⟨hplan, hshape, hunnamed, rfl⟩
  · rintro (⟨fault, hnone, rfl⟩ | ⟨hplan, hshape, hunnamed, rfl⟩)
    · exact ⟨fault, (hfails fault).2 (.inl hnone), rfl⟩
    · exact ⟨_, (hfails _).2 (.inr ⟨hplan, hshape, hunnamed, rfl⟩), rfl⟩

theorem run_isOk_iff : ((ofConfig catalog config).run c shape timing).isOk ↔
    ∃ s, (ofConfig catalog config).stages c = .ok s ∧ (∃ plan, Plan.ofValidation c.name s.validation = .ok plan) ∧
      (shape = .application → .unnamed ∉ s.units.map (·.id)) := by
  rw [isOk_iff_forall_ne_error]
  constructor
  · intro h
    cases hs : (ofConfig catalog config).stages c with
    | error e => exact absurd (run_eq_error.2 (.inl hs)) (h e)
    | ok s =>
      cases hplan : Plan.ofValidation c.name s.validation with
      | error fault => exact absurd (run_eq_error.2 (.inr ⟨s, hs, .inl ⟨fault, hplan, rfl⟩⟩)) (h _)
      | ok plan =>
        refine ⟨s, rfl, ⟨plan, hplan⟩, fun hshape hunnamed => ?_⟩
        exact h _ (run_eq_error.2 (.inr ⟨s, hs, .inr ⟨⟨plan, hplan⟩, hshape, hunnamed, rfl⟩⟩))
  · rintro ⟨s, hs, ⟨plan, hplan⟩, hnamed⟩ e he
    rcases run_eq_error.1 he with hstages | ⟨s', hs', hfails⟩
    · cases hs.symm.trans hstages
    · cases hs.symm.trans hs'
      rcases hfails with ⟨fault, hnone, -⟩ | ⟨-, hshape, hunnamed, -⟩
      · cases hplan.symm.trans hnone
      · exact hnamed hshape hunnamed

theorem run_main_eq_error {e : CompileError} (hshape : shape ≠ .application) :
    (ofConfig catalog config).run c shape timing = .error e ↔
      (ofConfig catalog config).stages c = .error e ∨ ∃ s, (ofConfig catalog config).stages c = .ok s ∧
        ∃ fault, Plan.ofValidation c.name s.validation = .error fault ∧ .generation fault = e := by
  simp only [run_eq_error, hshape, false_and, and_false, or_false]

theorem run_main_isOk_iff (hshape : shape ≠ .application) : ((ofConfig catalog config).run c shape timing).isOk ↔
    ∃ s, (ofConfig catalog config).stages c = .ok s ∧ ∃ plan, Plan.ofValidation c.name s.validation = .ok plan := by
  simp only [run_isOk_iff, hshape, false_implies, and_true]

theorem unnamed_mem_iff {units : List CompilationUnit} : .unnamed ∈ units.map (·.id) ↔ ∃ u ∈ units, u.id.text = "" := by
  rw [List.mem_map]
  refine exists_congr fun u => and_congr_right fun _ => ?_
  exact ⟨congrArg CapsuleId.text, congrArg CapsuleId.mk⟩

/-- **Success in all shapes.**  With the built-in templates component and page fail alike.  An application succeeds
where they do if no unit is without a name, and such a unit is then the error; where they fail it fails like them.
Without a plan every shape fails with what keeps the plan from being made. -/
theorem success_across_shapes (catalog : Catalog) (config : CompilerConfig) (c : Composition)
    (timing timing' : Timing) :
    (((ofConfig catalog config).run c .component timing).isOk ↔ ((ofConfig catalog config).run c .page timing').isOk) ∧
      (((ofConfig catalog config).run c .application timing).isOk ↔
        ((ofConfig catalog config).run c .page timing').isOk ∧
          ∀ s, (ofConfig catalog config).stages c = .ok s → ∀ u ∈ s.units, u.id.text ≠ "") ∧
      (∀ e, (ofConfig catalog config).run c .component timing = .error e ↔
        (ofConfig catalog config).run c .page timing' = .error e) ∧
      (∀ e, (ofConfig catalog config).run c .application timing = .error e ↔
        (ofConfig catalog config).run c .page timing' = .error e ∨
          ((ofConfig catalog config).run c .page timing').isOk ∧
            (∃ s, (ofConfig catalog config).stages c = .ok s ∧ ∃ u ∈ s.units, u.id.text = "") ∧
            e = .generation (.idNotCanonical ⟨""⟩)) ∧
      ∀ s fault, (ofConfig catalog config).stages c = .ok s → Plan.ofValidation c.name s.validation = .error fault →
        ∀ shape, (ofConfig catalog config).run c shape timing = .error (.generation fault) := by
  have hcomponent : Shape.component ≠ .application := by decide
  have hpage : Shape.page ≠ .application := by decide
  refine ⟨?_, ?_, fun e => ?_, fun e => ?_, fun s fault hs hnone shape => ?_⟩
  · rw [run_main_isOk_iff hcomponent, run_main_isOk_iff hpage]
  · rw [run_isOk_iff, run_main_isOk_iff hpage]
    constructor
    · rintro ⟨s, hs, hplan, hnamed⟩
      refine ⟨⟨s, hs, hplan⟩, fun s' hs' u hu hempty => ?_⟩
      cases hs.symm.trans hs'
      exact hnamed rfl (unnamed_mem_iff.2 ⟨u, hu, hempty⟩)
    · rintro ⟨⟨s, hs, hplan⟩, hnamed⟩
      refine ⟨s, hs, hplan, fun _ hunnamed => ?_⟩
      obtain ⟨u, hu, hempty⟩ := unnamed_mem_iff.1 hunnamed
      exact hnamed s hs u hu hempty
  · rw [run_main_eq_error hcomponent, run_main_eq_error hpage]
  · rw [run_eq_error, run_main_eq_error hpage, run_main_isOk_iff hpage]
    constructor
    · rintro (hstages | ⟨s, hs, hnone | ⟨hplan, -, hunnamed, rfl⟩⟩)
      · exact .inl (.inl hstages)
      · exact .inl (.inr ⟨s, hs, hnone⟩)
      · exact .inr ⟨⟨s, hs, hplan⟩, ⟨s, hs, unnamed_mem_iff.1 hunnamed⟩, rfl⟩
    · rintro ((hstages | ⟨s, hs, hnone⟩) | ⟨⟨s, hs, hplan⟩, ⟨s', hs', hempty⟩, rfl⟩)
      · exact .inl hstages
      · exact .inr ⟨s, hs, .inl hnone⟩
      · cases hs.symm.trans hs'
        exact .inr ⟨s, hs, .inr ⟨hplan, rfl, unnamed_mem_iff.2 hempty, rfl⟩⟩
  · exact run_eq_error.2 (.inr ⟨s, hs, .inl ⟨fault, hnone, rfl⟩⟩)

end Compiler

end CapsuleCompiler
