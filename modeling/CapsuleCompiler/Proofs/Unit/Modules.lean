import CapsuleCompiler.Module
import CapsuleCompiler.Proofs.Fallible

/-!
# Proofs.Unit.Modules — the environment of stubs, and the modules made from it

Units of distinct capsules make an environment with one stub for each, in their order (`stubs_ofUnits`), so the
environment knows the capsules of the units and no other.  Every module comes from the stub of its capsule, and a
line of its header imports a sibling only where the environment knows it.
-/

namespace CapsuleCompiler

variable {rule : ReferenceRule} {units : List CompilationUnit} {env : StubEnvironment} {id : CapsuleId}

namespace StubEnvironment

theorem replace_eq_append {s : Stub} {stubs : List Stub} (h : s.capsule ∉ stubs.map (·.capsule)) :
    replace s stubs = stubs ++ [s] := by
  induction stubs with
  | nil => rfl
  | cons t stubs ih =>
    rw [List.map_cons, List.mem_cons, not_or] at h
    rw [replace, if_neg (Ne.symm h.1), ih h.2, List.cons_append]

theorem stubs_foldl_insert (h : (env.ids ++ units.map (·.id)).Nodup) :
    (units.foldl (fun env u => env.insert (.ofUnit rule u)) env).stubs =
      env.stubs ++ units.map (Stub.ofUnit rule) := by
  induction units generalizing env with
  | nil => simp
  | cons u units ih =>
    have hu : (Stub.ofUnit rule u).capsule ∉ env.stubs.map (·.capsule) := fun hmem =>
      (List.nodup_append.1 h).2.2 _ hmem u.id (by simp) rfl
    have hids : (env.insert (.ofUnit rule u)).ids ++ units.map (·.id) = env.ids ++ (u :: units).map (·.id) := by
      rw [ids, insert, replace_eq_append hu]
      simp [ids, Stub.ofUnit]
    rw [List.foldl_cons, ih (hids ▸ h), insert, replace_eq_append hu]
    simp

/-- Units of distinct capsules have one stub each. -/
theorem stubs_ofUnits (h : (units.map (·.id)).Nodup) :
    (ofUnits rule units).stubs = units.map (Stub.ofUnit rule) := by
  rw [ofUnits, stubs_foldl_insert (by simpa [ids, empty] using h)]
  rfl

theorem contains_iff : env.contains id ↔ id ∈ env.ids := by
  simp [contains, ids]

theorem ids_ofUnits (h : (units.map (·.id)).Nodup) : (ofUnits rule units).ids = units.map (·.id) := by
  rw [ids, stubs_ofUnits h, List.map_map]
  rfl

end StubEnvironment

/-! ### Headers -/

namespace Module

theorem capsule_ofStub (env : StubEnvironment) (s : Stub) : (ofStub env s).capsule = s.capsule := rfl

theorem header_ofStub (env : StubEnvironment) (s : Stub) :
    (ofStub env s).header = s.dependencies.flatMap (linesFor env) := rfl

/-- A header imports siblings that the environment knows, and no other. -/
theorem contains_of_sibling {s : Stub} {b : Import.Bindings}
    (h : HeaderLine.sibling b id ∈ (ofStub env s).header) : env.contains id := by
  rw [header_ofStub] at h
  obtain ⟨d, _, hline⟩ := List.mem_flatMap.1 h
  rw [linesFor] at hline
  split at hline
  · next hknown =>
    rcases List.mem_cons.1 hline with heq | halias
    · cases heq
      exact hknown
    · rw [aliasLines] at halias
      split at halias
      · cases halias
      · obtain ⟨_, _, hne⟩ := List.mem_map.1 halias
        cases hne
  · obtain ⟨_, _, hne⟩ := List.mem_map.1 hline
    cases hne

end Module

/-! ### Modules of units -/

namespace Resolution

theorem modules_ofUnits (h : (units.map (·.id)).Nodup) :
    (ofUnits rule units).modules =
      units.map fun u => Module.ofStub (.ofUnits rule units) (.ofUnit rule u) := by
  simp only [ofUnits, StubEnvironment.stubs_ofUnits h, List.map_map, Function.comp_def]

theorem capsules_ofUnits (h : (units.map (·.id)).Nodup) :
    (ofUnits rule units).modules.map (·.capsule) = units.map (·.id) := by
  rw [modules_ofUnits h, List.map_map]
  exact List.map_congr_left fun u _ => Module.capsule_ofStub ..

theorem module?_isSome_iff {r : Resolution} : (∃ m, r.module? id = some m) ↔ id ∈ r.modules.map (·.capsule) := by
  rw [module?, ← Option.isSome_iff_exists, List.find?_isSome, List.mem_map]
  simp only [beq_iff_eq]

theorem mem_of_module? {r : Resolution} {m : Module} (h : r.module? id = some m) :
    m ∈ r.modules ∧ m.capsule = id :=
  ⟨List.mem_of_find?_eq_some h, by simpa using List.find?_some h⟩

/-- Where capsules are distinct a module is the one that is found for its capsule. -/
theorem module?_capsule {r : Resolution} (hnd : (r.modules.map (·.capsule)).Nodup) {m : Module}
    (hm : m ∈ r.modules) : r.module? m.capsule = some m :=
  (find?_key_eq_some_iff hnd).2 ⟨hm, rfl⟩

end Resolution

end CapsuleCompiler
