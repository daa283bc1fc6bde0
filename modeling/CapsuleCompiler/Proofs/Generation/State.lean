import CapsuleCompiler.Proofs.Fallible
import CapsuleCompiler.Proofs.Text.Words
import CapsuleCompiler.State

/-!
# Proofs.Generation.State — the names of state variables

A fresh name is not taken (`freshName_notMem`): each try that fails uses up one of the taken names, and there are as
many tries as these.  So the values of the variables of a plan are distinct names in camel case, and the setters, which
their values tell, are distinct too.  `Named` is what every step keeps.
-/

namespace CapsuleCompiler.StateVariable

open Naming (IsCamel IsPascal)

variable {taken : List String} {base : String} {state state' : List StateVariable}

/-! ### Fresh names -/

theorem numbered_injective {m n : Nat} (h : base ++ toString m = base ++ toString n) : m = n := by
  have h := congrArg String.toList h
  rw [String.toList_append, String.toList_append] at h
  have hdigits := congrArg (Nat.ofDigitChars 10 · 0) (List.append_cancel_left h)
  simpa [Nat.toString_eq_ofList_toDigits] using hdigits

/-- The tries suffice if they are as many as the numbered names that may be in the way. -/
theorem numbered_notMem {tries n : Nat} (blocked : List String) (hlength : blocked.length ≤ tries)
    (hblocked : ∀ k, n ≤ k → base ++ toString k ∈ taken → base ++ toString k ∈ blocked) :
    numbered taken base tries n ∉ taken := by
  induction tries generalizing n blocked with
  | zero =>
    intro hmem
    rw [List.length_eq_zero_iff.1 (Nat.le_zero.1 hlength)] at hblocked
    exact List.not_mem_nil (hblocked n le_rfl hmem)
  | succ tries ih =>
    rw [numbered]
    split
    · next htaken =>
      have hin := hblocked n le_rfl (List.contains_iff_mem.1 htaken)
      refine ih (blocked.erase (base ++ toString n)) ?_ fun k hk hmem => ?_
      · rw [List.length_erase_of_mem hin]
        omega
      · have hne : base ++ toString k ≠ base ++ toString n := fun heq => by
          have := numbered_injective heq
          omega
        exact (List.mem_erase_of_ne hne).2 (hblocked k (by omega) hmem)
    · next hfree => exact fun hmem => hfree (List.contains_iff_mem.2 hmem)

theorem freshName_notMem (taken : List String) (base : String) : freshName taken base ∉ taken := by
  rw [freshName]
  split
  · exact numbered_notMem taken le_rfl fun _ _ hmem => hmem
  · next hfree => exact fun hmem => hfree (List.contains_iff_mem.2 hmem)

theorem isCamel_numbered (h : IsCamel base) (tries n : Nat) : IsCamel (numbered taken base tries n) := by
  induction tries generalizing n with
  | zero => exact h.append fun _ => Naming.isAlphanum_of_mem_toString
  | succ tries ih =>
    rw [numbered]
    split
    · exact ih (n + 1)
    · exact h.append fun _ => Naming.isAlphanum_of_mem_toString

theorem isCamel_freshName (h : IsCamel base) : IsCamel (freshName taken base) := by
  rw [freshName]
  split
  · exact isCamel_numbered h _ _
  · exact h

theorem isCamel_baseName {source : PortRef} (h : Naming.isIdentifier (baseName source)) : IsCamel (baseName source) := by
  by_cases hfirst : Naming.isIdentifier (Naming.camel (source.owner.text ++ "-" ++ source.port))
  · have hbase : baseName source = Naming.camel (source.owner.text ++ "-" ++ source.port) := if_pos hfirst
    rw [hbase]
    exact Naming.isCamel_camel hfirst
  · have hbase : baseName source = Naming.camel ("node-" ++ source.owner.text ++ "-" ++ source.port) := if_neg hfirst
    rw [hbase] at h ⊢
    exact Naming.isCamel_camel h

/-! ### One variable for an output -/

/-- A step leaves the variables as they are, or adds one under a name of its own. -/
theorem ensure_eq_ok {source : PortRef} (h : ensure state source = .ok state') :
    state' = state ∨ ∃ value, state' = state ++ [⟨source, value, "set" ++ Naming.pascal value⟩] ∧
      IsCamel value ∧ value ∉ state.map (·.value) := by
  rw [ensure] at h
  split at h
  · exact .inl (Except.ok.inj h).symm
  · simp only at h
    split at h
    · next hident =>
      exact .inr ⟨_, (Except.ok.inj h).symm, isCamel_freshName (isCamel_baseName hident), freshName_notMem _ _⟩
    · cases h

/-- Distinct values in camel case, each of which tells its setter. -/
structure Named (state : List StateVariable) : Prop where
  camel : ∀ v ∈ state, IsCamel v.value
  setter : ∀ v ∈ state, v.setter = "set" ++ Naming.pascal v.value
  nodup : (state.map (·.value)).Nodup

theorem Named.ensure {source : PortRef} (hnamed : Named state) (h : ensure state source = .ok state') :
    Named state' := by
  rcases ensure_eq_ok h with rfl | ⟨value, rfl, hcamel, hnew⟩
  · exact hnamed
  · have hall {p : StateVariable → Prop} (hold : ∀ v ∈ state, p v)
        (hp : p ⟨source, value, "set" ++ Naming.pascal value⟩) :
        ∀ v ∈ state ++ [⟨source, value, "set" ++ Naming.pascal value⟩], p v := by
      intro v hv
      rcases List.mem_append.1 hv with hv | hv
      · exact hold v hv
      · rwa [List.mem_singleton.1 hv]
    refine ⟨hall hnamed.camel hcamel, hall hnamed.setter rfl, ?_⟩
    rw [List.map_append, List.nodup_append]
    refine ⟨hnamed.nodup, List.nodup_singleton _, fun a ha b hb => ?_⟩
    rw [List.mem_singleton.1 hb]
    rintro rfl
    exact hnew ha

theorem Named.ensureAll {sources : List PortRef} (hnamed : Named state) (h : ensureAll state sources = .ok state') :
    Named state' := by
  induction sources generalizing state with
  | nil => rwa [← Except.ok.inj h]
  | cons source sources ih =>
    obtain ⟨next, hnext, h⟩ := bind_eq_ok.1 h
    exact ih (hnamed.ensure hnext) h

theorem named_of_ensureAll {sources : List PortRef} (h : ensureAll [] sources = .ok state) : Named state :=
  Named.ensureAll ⟨by simp, by simp, by simp⟩ h

/-! ### The variable of an output -/

section Found

variable {source r q : PortRef} {v w : StateVariable}

theorem find?_eq_some (h : find? state source = some v) : v ∈ state ∧ v.source = source :=
  ⟨List.mem_of_find?_eq_some h, by simpa using List.find?_some h⟩

/-- Variables are only ever added, behind those that are there. -/
theorem find?_ensure_of_some (h : ensure state source = .ok state') (hr : find? state r = some v) :
    find? state' r = some v := by
  rcases ensure_eq_ok h with rfl | ⟨value, rfl, -, -⟩
  · exact hr
  · unfold find? at hr ⊢
    rw [List.find?_append, hr]
    rfl

theorem isSome_find?_ensure (h : ensure state source = .ok state') : (find? state' source).isSome := by
  unfold ensure at h
  by_cases hfound : (find? state source).isSome
  · rw [if_pos hfound] at h
    cases h
    exact hfound
  · rw [if_neg hfound] at h
    dsimp only at h
    split_ifs at h
    cases h
    simp [find?]

theorem find?_ensureAll_of_some {sources : List PortRef} (h : ensureAll state sources = .ok state')
    (hr : find? state r = some v) : find? state' r = some v := by
  induction sources generalizing state with
  | nil =>
    cases h
    exact hr
  | cons source sources ih =>
    obtain ⟨next, hnext, h⟩ := bind_eq_ok.1 h
    exact ih h (find?_ensure_of_some hnext hr)

theorem exists_find?_ensureAll {sources : List PortRef} (h : ensureAll state sources = .ok state')
    (hsource : source ∈ sources) : ∃ v, find? state' source = some v := by
  induction sources generalizing state with
  | nil => cases hsource
  | cons first sources ih =>
    obtain ⟨next, hnext, hrest⟩ := bind_eq_ok.1 h
    rcases List.mem_cons.1 hsource with rfl | hmem
    · obtain ⟨v, hv⟩ := Option.isSome_iff_exists.1 (isSome_find?_ensure hnext)
      exact ⟨v, find?_ensureAll_of_some hrest hv⟩
    · exact ih hrest hmem

theorem isSome_find?_iff : (find? state r).isSome ↔ r ∈ state.map (·.source) := by
  unfold find?
  simp

/-- A step gives an output a variable if it has none. -/
theorem sources_ensure (h : ensure state source = .ok state') : state'.map (·.source) =
    if source ∈ state.map (·.source) then state.map (·.source) else state.map (·.source) ++ [source] := by
  unfold ensure at h
  by_cases hfound : source ∈ state.map (·.source)
  · rw [if_pos (isSome_find?_iff.2 hfound)] at h
    rw [← Except.ok.inj h, if_pos hfound]
  · rw [if_neg (mt isSome_find?_iff.1 hfound)] at h
    dsimp only at h
    split_ifs at h
    rw [← Except.ok.inj h, if_neg hfound, List.map_append]
    rfl

/-- A run gives each output one variable. -/
theorem sources_ensureAll {sources : List PortRef} (hnd : (state.map (·.source)).Nodup)
    (h : ensureAll state sources = .ok state') : (state'.map (·.source)).Nodup ∧
      ∀ r, r ∈ state'.map (·.source) ↔ r ∈ state.map (·.source) ∨ r ∈ sources := by
  induction sources generalizing state with
  | nil =>
    cases h
    exact ⟨hnd, by simp⟩
  | cons source sources ih =>
    obtain ⟨next, hnext, h⟩ := bind_eq_ok.1 h
    have hsources := sources_ensure hnext
    by_cases hfound : source ∈ state.map (·.source)
    · rw [if_pos hfound] at hsources
      obtain ⟨hnd', hmem⟩ := ih (hsources ▸ hnd) h
      refine ⟨hnd', fun r => ?_⟩
      rw [hmem, hsources, List.mem_cons]
      constructor
      · exact fun hr => hr.imp_right .inr
      · rintro (hr | rfl | hr)
        · exact .inl hr
        · exact .inl hfound
        · exact .inr hr
    · rw [if_neg hfound] at hsources
      obtain ⟨hnd', hmem⟩ := ih (hsources ▸ List.nodup_append.2 ⟨hnd, List.nodup_singleton _, by simpa using hfound⟩) h
      refine ⟨hnd', fun r => ?_⟩
      rw [hmem, hsources, List.mem_append, List.mem_singleton, List.mem_cons, or_assoc]

/-- A variable is found under its source. -/
theorem find?_source (hnd : (state.map (·.source)).Nodup) (hv : v ∈ state) : find? state v.source = some v := by
  obtain ⟨w, hw⟩ := Option.isSome_iff_exists.1 (isSome_find?_iff.2 (List.mem_map_of_mem hv))
  obtain ⟨hmem, hsource⟩ := find?_eq_some hw
  rw [hw, List.inj_on_of_nodup_map hnd hmem hv hsource]

/-- Two outputs share a value only if they are one. -/
theorem Named.value_eq_iff (h : Named state) (hr : find? state r = some v) (hq : find? state q = some w) :
    v.value = w.value ↔ r = q := by
  obtain ⟨hv, rfl⟩ := find?_eq_some hr
  obtain ⟨hw, rfl⟩ := find?_eq_some hq
  constructor
  · intro heq
    rw [List.inj_on_of_nodup_map h.nodup hv hw heq]
  · intro heq
    rw [heq, hq] at hr
    cases hr
    rfl

end Found

/-! ### Setters -/

namespace Named

theorem value_eq_of_setter_eq (h : Named state) {v w : StateVariable} (hv : v ∈ state) (hw : w ∈ state)
    (heq : v.setter = w.setter) : v.value = w.value := by
  rw [h.setter v hv, h.setter w hw] at heq
  exact Naming.pascal_injOn_camel (h.camel v hv) (h.camel w hw) ((String.append_right_inj _).1 heq)

theorem nodup_setters (h : Named state) : (state.map (·.setter)).Nodup := by
  refine List.Nodup.map_on (fun v hv w hw heq => ?_) (List.Nodup.of_map _ h.nodup)
  exact List.inj_on_of_nodup_map h.nodup hv hw (h.value_eq_of_setter_eq hv hw heq)

theorem isCamel_setter (h : Named state) {v : StateVariable} (hv : v ∈ state) : IsCamel v.setter := by
  rw [h.setter v hv]
  obtain ⟨c, rest, hpascal, hupper, hrest⟩ := (h.camel v hv).isPascal
  refine ⟨'s', 'e' :: 't' :: c :: rest, ?_, by decide, ?_⟩
  · rw [String.toList_append, hpascal]
    rfl
  · have hc : c.isAlphanum := by simp [Char.isAlphanum, Char.isAlpha, hupper]
    have hset : 'e'.isAlphanum ∧ 't'.isAlphanum := by decide
    simpa [hc, hset] using hrest

end Named

end CapsuleCompiler.StateVariable
