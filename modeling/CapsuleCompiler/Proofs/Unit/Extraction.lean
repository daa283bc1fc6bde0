import CapsuleCompiler.Proofs.Import.Bindings
import CapsuleCompiler.Proofs.Text.Kebab
import CapsuleCompiler.Proofs.Unit.References

/-!
# Proofs.Unit.Extraction — the lines that a reference is gathered from

Extraction goes through the lines of a source once.  Its references are of the capsules that the lines name, in the
order in which they are named first, and a reference takes together the bindings of all lines that name its capsule
(`Gathers`).  So a name that a line binds is among the names of the reference, and the bindings of a reference can be
written as a line again.
-/

namespace CapsuleCompiler

variable {rule : ReferenceRule} {catalog : Catalog}

/-! ### Capsules that lines name -/

/-- The capsule that a line names is written within a line and within quotes. -/
theorem Reference.plain_capsule (r : Reference) : Plain r.capsule.text.toList := by
  have hchars := CapsuleId.isCanonicalChar_of_isKebab (Naming.isKebab_kebab r.segment)
  exact plain_of_forall hchars (by decide)

namespace Extraction

/-- The references that the lines of a source make, in order. -/
def lineReferences (rule : ReferenceRule) (source : String) : List Reference :=
  (Text.lines source.toList).filterMap rule.parseLine?

theorem map_snd_referenceLines (rule : ReferenceRule) (number : Nat) (lines : List (List Char)) :
    (referenceLines rule number lines).map (·.2) = lines.filterMap rule.parseLine? := by
  induction lines generalizing number with
  | nil => rfl
  | cons line lines ih =>
    rw [referenceLines, List.filterMap_cons]
    cases rule.parseLine? line with
    | none => exact ih _
    | some r => exact congrArg (r :: ·) (ih _)

theorem proper_of_mem_lineReferences {source : String} {r : Reference} (h : r ∈ lineReferences rule source) :
    r.bindings.Proper := by
  obtain ⟨line, -, hr⟩ := List.mem_filterMap.1 h
  obtain ⟨l, hl, hr⟩ := Option.bind_eq_some_iff.1 hr
  obtain ⟨segment, -, hr⟩ := Option.bind_eq_some_iff.1 hr
  cases hr
  exact Import.Line.proper_of_ofChars? hl

/-! ### What a reference is gathered from -/

/-- A reference has what the lines that name its capsule say: the path and the number of the first of them, and the
bindings of all of them, taken together in order. -/
def Gathers (found : List (Nat × Reference)) (d : Dependency) : Prop :=
  ∃ first more, found.filter (·.2.capsule = d.capsule) = first :: more ∧ d.modulePath = first.2.modulePath ∧
    d.line = first.1 ∧ d.bindings = more.foldl (fun b f => b.merge f.2.bindings) first.2.bindings

theorem mem_addReference {number : Nat} {r : Reference} {ds : List Dependency} {d : Dependency}
    (hnd : (ds.map (·.capsule)).Nodup) (h : d ∈ addReference number r ds) :
    d ∈ ds ∧ d.capsule ≠ r.capsule ∨
      (∃ e ∈ ds, e.capsule = r.capsule ∧ d = { e with bindings := e.bindings.merge r.bindings }) ∨
      r.capsule ∉ ds.map (·.capsule) ∧ d = ⟨r.capsule, r.modulePath, r.bindings, number⟩ := by
  induction ds with
  | nil => exact .inr (.inr ⟨List.not_mem_nil, List.mem_singleton.1 h⟩)
  | cons e ds ih =>
    rw [List.map_cons, List.nodup_cons] at hnd
    rw [addReference] at h
    by_cases he : e.capsule = r.capsule
    · rw [if_pos he] at h
      rcases List.mem_cons.1 h with rfl | h
      · exact .inr (.inl ⟨e, List.mem_cons_self, he, rfl⟩)
      · refine .inl ⟨List.mem_cons_of_mem _ h, fun heq => hnd.1 ?_⟩
        exact List.mem_map.2 ⟨d, h, heq.trans he.symm⟩
    · rw [if_neg he] at h
      rcases List.mem_cons.1 h with rfl | h
      · exact .inl ⟨List.mem_cons_self, he⟩
      · rcases ih hnd.2 h with ⟨hd, hne⟩ | ⟨f, hf, hcapsule, heq⟩ | ⟨hnew, heq⟩
        · exact .inl ⟨List.mem_cons_of_mem _ hd, hne⟩
        · exact .inr (.inl ⟨f, List.mem_cons_of_mem _ hf, hcapsule, heq⟩)
        · refine .inr (.inr ⟨fun hmem => ?_, heq⟩)
          exact (List.mem_cons.1 hmem).elim (fun heq => he heq.symm) hnew

theorem capsules_collect (found : List (Nat × Reference)) :
    (collect found).map (·.capsule) = (found.map (·.2.capsule)).eraseDups := by
  induction found using List.reverseRecOn with
  | nil => rfl
  | append_singleton found f ih =>
    rw [collect_concat, capsules_addReference, ih, List.map_append, List.eraseDups_append]
    by_cases hmem : f.2.capsule ∈ found.map (·.2.capsule)
    · have hnone : [f.2.capsule].removeAll (found.map (·.2.capsule)) = [] := by simpa [List.removeAll] using hmem
      rw [if_pos (List.mem_eraseDups.2 hmem), List.map_singleton, hnone]
      simp
    · have hkeep : [f.2.capsule].removeAll (found.map (·.2.capsule)) = [f.2.capsule] := by
        simpa [List.removeAll] using hmem
      rw [if_neg (mt List.mem_eraseDups.1 hmem), List.map_singleton, hkeep]
      rfl

theorem gathers_of_mem_collect {found : List (Nat × Reference)} {d : Dependency} (h : d ∈ collect found) :
    Gathers found d := by
  induction found using List.reverseRecOn generalizing d with
  | nil => cases h
  | append_singleton found f ih =>
    rw [collect_concat] at h
    have hfilter (id : CapsuleId) : (found ++ [f]).filter (·.2.capsule = id) =
        found.filter (·.2.capsule = id) ++ if f.2.capsule = id then [f] else [] := by
      rw [List.filter_append, List.filter_singleton]
      by_cases hf : f.2.capsule = id <;> simp [hf]
    unfold Gathers
    rw [hfilter]
    rcases mem_addReference (nodup_collect found) h with ⟨hd, hne⟩ | ⟨e, he, hcapsule, rfl⟩ | ⟨hnew, rfl⟩
    · rw [if_neg (Ne.symm hne), List.append_nil]
      exact ih hd
    · -- One more line names the capsule.
      obtain ⟨first, more, hfound, hpath, hline, hbindings⟩ := ih he
      dsimp only
      rw [if_pos hcapsule.symm, hfound]
      refine ⟨first, more ++ [f], rfl, hpath, hline, ?_⟩
      rw [List.foldl_append, ← hbindings]
      rfl
    · rw [capsules_collect, List.mem_eraseDups] at hnew
      have hnone : found.filter (·.2.capsule = f.2.capsule) = [] := by
        refine List.filter_eq_nil_iff.2 fun g hg => ?_
        simpa using fun heq : g.2.capsule = f.2.capsule => hnew (List.mem_map.2 ⟨g, hg, heq⟩)
      dsimp only
      rw [if_pos rfl, hnone]
      exact ⟨f, [], rfl, rfl, rfl, rfl⟩

/-! ### References of a source -/

section

variable {known : CapsuleId → Bool} {consumer : CapsuleId} {source : String} {d : Dependency}

theorem ids_ofSource (rule : ReferenceRule) (known : CapsuleId → Bool) (consumer : CapsuleId) (source : String) :
    (ofSource rule known consumer source).ids = ((lineReferences rule source).map Reference.capsule).eraseDups := by
  have hlines := map_snd_referenceLines rule 1 (Text.lines source.toList)
  rw [lineReferences, ← hlines, List.map_map]
  exact capsules_collect _

/-- The lines of a source that name the capsule of a reference, and how it takes their bindings together. -/
theorem bindings_of_mem_references (h : d ∈ (ofSource rule known consumer source).references) :
    ∃ first more, (lineReferences rule source).filter (·.capsule = d.capsule) = first :: more ∧
      d.bindings = more.foldl (fun b r => b.merge r.bindings) first.bindings := by
  obtain ⟨first, more, hfound, -, -, hbindings⟩ := gathers_of_mem_collect h
  refine ⟨first.2, more.map (·.2), ?_, by rw [hbindings, List.foldl_map]⟩
  rw [lineReferences, ← map_snd_referenceLines rule 1, List.filter_map]
  exact congrArg (List.map (·.2)) hfound

theorem mem_locals_foldl_merge {name : String} (more : List Reference) (b : Import.Bindings) :
    name ∈ (more.foldl (fun b r => b.merge r.bindings) b).locals ↔
      name ∈ b.locals ∨ ∃ r ∈ more, name ∈ r.bindings.locals := by
  induction more generalizing b with
  | nil => simp
  | cons r more ih => rw [List.foldl_cons, ih, Import.Bindings.mem_locals_merge, List.exists_mem_cons_iff, or_assoc]

/-- A reference binds what a line that names its capsule binds. -/
theorem mem_locals_iff {name : String} (h : d ∈ (ofSource rule known consumer source).references) :
    name ∈ d.bindings.locals ↔ ∃ r ∈ lineReferences rule source, r.capsule = d.capsule ∧ name ∈ r.bindings.locals := by
  obtain ⟨first, more, hfilter, hbindings⟩ := bindings_of_mem_references h
  have hmem (r : Reference) : r ∈ first :: more ↔ r ∈ lineReferences rule source ∧ r.capsule = d.capsule := by
    rw [← hfilter, List.mem_filter, decide_eq_true_eq]
  rw [hbindings, mem_locals_foldl_merge,
    ← List.exists_mem_cons_iff (p := fun r : Reference => name ∈ r.bindings.locals)]
  simp only [hmem, and_assoc]

theorem proper_of_mem_references (h : d ∈ (ofSource rule known consumer source).references) : d.bindings.Proper := by
  obtain ⟨first, more, hfilter, hbindings⟩ := bindings_of_mem_references h
  have hproper : ∀ r ∈ first :: more, r.bindings.Proper := fun r hr =>
    proper_of_mem_lineReferences (List.mem_of_mem_filter (hfilter ▸ hr))
  obtain ⟨hfirst, hmore⟩ := List.forall_mem_cons.1 hproper
  rw [hbindings]
  exact List.foldlRecOn _ _ hfirst fun b hb r hr => hb.merge (hmore r hr)

theorem exists_mem_references_of_line {r : Reference} (h : r ∈ lineReferences rule source) :
    ∃ d ∈ (ofSource rule known consumer source).references, d.capsule = r.capsule := by
  have hid : r.capsule ∈ (ofSource rule known consumer source).ids := by
    rw [ids_ofSource, List.mem_eraseDups]
    exact List.mem_map_of_mem h
  exact List.mem_map.1 hid

theorem exists_line_of_mem_references (h : d ∈ (ofSource rule known consumer source).references) :
    ∃ r ∈ lineReferences rule source, r.capsule = d.capsule := by
  have hid : d.capsule ∈ (ofSource rule known consumer source).ids := List.mem_map_of_mem h
  rw [ids_ofSource, List.mem_eraseDups] at hid
  exact List.mem_map.1 hid

theorem plain_of_mem_references (h : d ∈ (ofSource rule known consumer source).references) :
    Plain d.capsule.text.toList := by
  obtain ⟨r, -, hcapsule⟩ := exists_line_of_mem_references h
  exact hcapsule ▸ r.plain_capsule

end

end Extraction

/-! ### References of a unit -/

namespace CompilationUnit

/-- Every unit is made from a definition. -/
theorem exists_ofDefinition_of_mem_closure {fresh : List CapsuleDefinition} {queue : List CompilationUnit}
    {u : CompilationUnit} (h : u ∈ closure rule catalog fresh queue) :
    u ∈ queue ∨ ∃ placed d, u = ofDefinition rule catalog placed d := by
  fun_induction closure rule catalog fresh queue with
  | case1 fresh => exact .inl h
  | case2 fresh v queue step ih =>
    rcases List.mem_cons.1 h with rfl | h
    · exact .inl List.mem_cons_self
    · rcases ih h with h | h
      · rcases List.mem_append.1 h with h | h
        · exact .inl (List.mem_cons_of_mem _ h)
        · obtain ⟨d, -, rfl⟩ := List.mem_map.1 h
          exact .inr ⟨false, d, rfl⟩
      · exact .inr h

theorem exists_ofDefinition_of_mem_collect {ds : List CapsuleDefinition} {u : CompilationUnit}
    (h : u ∈ collect rule catalog ds) : ∃ placed d, u = ofDefinition rule catalog placed d := by
  rcases exists_ofDefinition_of_mem_closure h with h | h
  · obtain ⟨d, -, rfl⟩ := List.mem_map.1 h
    exact ⟨true, d, rfl⟩
  · exact h

end CompilationUnit

end CapsuleCompiler
