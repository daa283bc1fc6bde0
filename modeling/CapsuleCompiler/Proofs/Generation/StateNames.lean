import CapsuleCompiler.Proofs.Generation.State

/-!
# Proofs.Generation.StateNames — every output gets a variable, under a name of its own

With a word in front the name of an output is an identifier, whatever its instance and port are called, so a step never
fails (`ensure_eq_ok_append`).  The names tried for it are its base name and that name with 2, 3, … behind it; they
differ from each other, so the first that is free comes after at most as many tries as there are variables
(`exists_freshName`).  What a run yields is then told by the invariants of its steps (`ensureAll_distinct`).
-/

namespace CapsuleCompiler

/-! ### Identifiers -/

namespace Naming

theorem IsCamel.isIdentifier {name : String} (h : IsCamel name) : isIdentifier name := by
  obtain ⟨c, rest, hname, hlower, hrest⟩ := h
  have hstart : isIdentStart c := by simp [isIdentStart, Char.isAlpha, hlower]
  have hparts : rest.all isIdentPart := List.all_eq_true.2 fun d hd => by simp [isIdentPart, hrest d hd]
  rw [Naming.isIdentifier, hname]
  simp only [hstart, hparts, Bool.and_true]

theorem isCamel_camel_node (text : String) : IsCamel (camel ("node-" ++ text)) := by
  refine ⟨'n', 'o' :: 'd' :: 'e' :: pascalFrom true text.toList, ?_, by decide, ?_⟩
  · rw [camel, String.toList_ofList, String.toList_append]
    rfl
  · have hword : 'o'.isAlphanum ∧ 'd'.isAlphanum ∧ 'e'.isAlphanum := by decide
    simp only [List.forall_mem_cons]
    exact ⟨hword.1, hword.2.1, hword.2.2, fun c hc => isAlphanum_of_mem_pascalFrom hc⟩

end Naming

namespace StateVariable

variable {taken : List String} {base : String} {state : List StateVariable} {source : PortRef}

theorem isIdentifier_baseName (source : PortRef) : Naming.isIdentifier (baseName source) := by
  simp only [baseName]
  split
  · assumption
  · rw [String.append_assoc, String.append_assoc]
    exact (Naming.isCamel_camel_node _).isIdentifier

/-! ### The names that are tried -/

/-- The names for a variable in the order in which they are tried. -/
def candidate (base : String) : Nat → String
  | 0 => base
  | k + 1 => base ++ toString (k + 2)

theorem candidate_injective (base : String) : Function.Injective (candidate base) := by
  have hlonger (k : Nat) : base ≠ base ++ toString (k + 2) := fun heq => by
    have hempty : toString (k + 2) = "" := String.append_eq_left_iff.1 heq.symm
    rw [Nat.toString_eq_ofList_toDigits, ← String.toList_eq_nil_iff, String.toList_ofList] at hempty
    exact Nat.toDigits_ne_nil hempty
  intro j k h
  cases j with
  | zero =>
    cases k with
    | zero => rfl
    | succ k => exact absurd h (hlonger k)
  | succ j =>
    cases k with
    | zero => exact absurd h.symm (hlonger j)
    | succ k => rw [Nat.add_right_cancel (numbered_injective h)]

/-- The tries are those that a taken name makes necessary. -/
theorem exists_numbered (taken : List String) (base : String) (tries n : Nat) :
    ∃ k, numbered taken base tries n = base ++ toString (n + k) ∧ ∀ j < k, base ++ toString (n + j) ∈ taken := by
  induction tries generalizing n with
  | zero => exact ⟨0, rfl, by simp⟩
  | succ tries ih =>
    rw [numbered]
    split
    · next htaken =>
      obtain ⟨k, hname, hearlier⟩ := ih (n + 1)
      refine ⟨k + 1, by rw [hname, Nat.add_right_comm, Nat.add_assoc], fun j hj => ?_⟩
      cases j with
      | zero => exact List.contains_iff_mem.1 htaken
      | succ j =>
        rw [← Nat.add_assoc, Nat.add_right_comm]
        exact hearlier j (Nat.lt_of_succ_lt_succ hj)
    · exact ⟨0, rfl, by simp⟩

/-- As many names as were passed over are taken. -/
theorem le_length_of_forall_candidate {k : Nat} (h : ∀ j < k, candidate base j ∈ taken) : k ≤ taken.length := by
  have hnodup : ((List.range k).map (candidate base)).Nodup :=
    (List.nodup_map_iff (candidate_injective base)).2 List.nodup_range
  have hsubset : (List.range k).map (candidate base) ⊆ taken := by
    rintro name hname
    obtain ⟨j, hj, rfl⟩ := List.mem_map.1 hname
    exact h j (List.mem_range.1 hj)
  simpa using (List.subperm_of_subset hnodup hsubset).length_le

/-- A fresh name is the first candidate that is free. -/
theorem exists_freshName (taken : List String) (base : String) : ∃ k ≤ taken.length,
    freshName taken base = candidate base k ∧ ∀ j < k, candidate base j ∈ taken := by
  obtain ⟨k, hname, hearlier⟩ : ∃ k, freshName taken base = candidate base k ∧ ∀ j < k, candidate base j ∈ taken := by
    unfold freshName
    split
    · next htaken =>
      obtain ⟨k, hname, hearlier⟩ := exists_numbered taken base taken.length 2
      refine ⟨k + 1, by rw [hname, candidate, Nat.add_comm], fun j hj => ?_⟩
      cases j with
      | zero => exact List.contains_iff_mem.1 htaken
      | succ j =>
        rw [candidate, Nat.add_comm]
        exact hearlier j (Nat.lt_of_succ_lt_succ hj)
    · exact ⟨0, rfl, by simp⟩
  exact ⟨k, le_length_of_forall_candidate hearlier, hname, hearlier⟩

/-! ### Steps and runs -/

/-- The variable that an output without one gets. -/
def next (state : List StateVariable) (source : PortRef) : StateVariable :=
  let value := freshName (state.map (·.value)) (baseName source)
  ⟨source, value, "set" ++ Naming.pascal value⟩

/-- A step adds the variable of its output if there is none, and nothing else. -/
theorem ensure_eq_ok_append (state : List StateVariable) (source : PortRef) :
    ensure state source = .ok (state ++ if source ∈ state.map (·.source) then [] else [next state source]) := by
  unfold ensure
  by_cases hfound : source ∈ state.map (·.source)
  · rw [if_pos (isSome_find?_iff.2 hfound), if_pos hfound, List.append_nil]
  · rw [if_neg (mt isSome_find?_iff.1 hfound), if_neg hfound]
    dsimp only
    rw [if_pos (isIdentifier_baseName source)]
    rfl

theorem exists_ensureAll (state : List StateVariable) (sources : List PortRef) :
    ∃ state', ensureAll state sources = .ok state' := by
  induction sources generalizing state with
  | nil => exact ⟨state, rfl⟩
  | cons source sources ih =>
    obtain ⟨state', h⟩ := ih _
    exact ⟨state', bind_eq_ok.2 ⟨_, ensure_eq_ok_append state source, h⟩⟩

/-- **The state variables.**  Whatever outputs ask for a variable, each gets one and each only once; sources, values and
setters are distinct, and values and setters are identifiers.  One more output leaves the variables as they are; it gets
a variable behind them if it has none, under the first of its names that is free, which at most as many names as there
are variables come before. -/
theorem ensureAll_distinct (sources : List PortRef) : ∃ state, ensureAll [] sources = .ok state ∧
    (∀ r, r ∈ state.map (·.source) ↔ r ∈ sources) ∧
    (state.map (·.source)).Nodup ∧ (state.map (·.value)).Nodup ∧ (state.map (·.setter)).Nodup ∧
    (∀ v ∈ state, Naming.isIdentifier v.value ∧ Naming.isIdentifier v.setter) ∧
    ∀ source, (source ∈ sources → ensure state source = .ok state) ∧
      (source ∉ sources → ∃ v, ensure state source = .ok (state ++ [v]) ∧ v.source = source ∧
        ∃ k ≤ state.length, v.value = candidate (baseName source) k ∧ v.value ∉ state.map (·.value) ∧
          ∀ j < k, candidate (baseName source) j ∈ state.map (·.value)) := by
  obtain ⟨state, hrun⟩ := exists_ensureAll [] sources
  have hnamed := named_of_ensureAll hrun
  obtain ⟨hnodup, hsources⟩ := sources_ensureAll (by simp) hrun
  replace hsources : ∀ r, r ∈ state.map (·.source) ↔ r ∈ sources := by simpa using hsources
  refine ⟨state, hrun, hsources, hnodup, hnamed.nodup, hnamed.nodup_setters,
    fun v hv => ⟨(hnamed.camel v hv).isIdentifier, (hnamed.isCamel_setter hv).isIdentifier⟩,
    fun source => ⟨fun hmem => ?_, fun hnew => ?_⟩⟩
  · rw [ensure_eq_ok_append, if_pos ((hsources source).2 hmem), List.append_nil]
  · obtain ⟨k, hk, hname, hearlier⟩ := exists_freshName (state.map (·.value)) (baseName source)
    rw [List.length_map] at hk
    refine ⟨next state source, ?_, rfl, k, hk, hname, freshName_notMem _ _, hearlier⟩
    rw [ensure_eq_ok_append, if_neg (mt (hsources source).1 hnew)]

/-- A numbered name that is taken by the base name of another output is passed over. -/
example : (ensureAll [] [⟨⟨"a"⟩, "b"⟩, ⟨⟨"a"⟩, "b2"⟩, ⟨⟨"A"⟩, "b"⟩, ⟨⟨"a"⟩, "b"⟩]).toOption.map (·.map (·.value)) =
    some ["aB", "aB2", "aB3"] := by
  decide +kernel

end StateVariable

end CapsuleCompiler
