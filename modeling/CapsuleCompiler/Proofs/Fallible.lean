import CapsuleCompiler.Dict
import Mathlib.Data.List.Find
import Mathlib.Data.List.Induction
import Mathlib.Data.List.Nodup
import Mathlib.Data.List.Sort

/-!
# Proofs.Fallible — steps that may fail, and look-ups that may find nothing

A chain of steps succeeds exactly when each of its steps does, so a result of the whole is taken apart into the
results of the steps.  A dictionary that is made from a list finds under a key the last entry of the list that has it,
and a dictionary is what is found in it.  In a list of elements with distinct keys each is found under its key, whatever
their order.
-/

namespace CapsuleCompiler

variable {α β ε ε' : Type}

/-! ### Steps -/

theorem bind_eq_ok {x : Except ε α} {f : α → Except ε β} {b : β} :
    x >>= f = .ok b ↔ ∃ a, x = .ok a ∧ f a = .ok b := by
  cases x with
  | error e => simp [bind, Except.bind]
  | ok a => simp [bind, Except.bind]

/-- A chain of steps fails where one of them fails after those before it succeeded. -/
theorem bind_eq_error {x : Except ε α} {f : α → Except ε β} {e : ε} :
    x >>= f = .error e ↔ x = .error e ∨ ∃ a, x = .ok a ∧ f a = .error e := by
  cases x with
  | error e' => simp [bind, Except.bind]
  | ok a => simp [bind, Except.bind]

theorem bind_pure_eq_error {x : Except ε α} {f : α → β} {e : ε} :
    (x >>= fun a => pure (f a)) = .error e ↔ x = .error e := by
  cases x with
  | error e' => simp [bind, Except.bind]
  | ok a => simp [bind, Except.bind, pure, Except.pure]

theorem mapError_eq_ok {x : Except ε α} {f : ε → ε'} {a : α} : x.mapError f = .ok a ↔ x = .ok a := by
  cases x <;> simp [Except.mapError]

theorem mapError_eq_error {x : Except ε α} {f : ε → ε'} {e : ε'} :
    x.mapError f = .error e ↔ ∃ fault, x = .error fault ∧ f fault = e := by
  cases x <;> simp [Except.mapError]

theorem isOk_iff {x : Except ε α} : x.isOk ↔ ∃ a, x = .ok a := by
  cases x <;> simp [Except.isOk, Except.toBool]

theorem isOk_iff_forall_ne_error {x : Except ε α} : x.isOk ↔ ∀ e, x ≠ .error e := by
  cases x <;> simp [Except.isOk, Except.toBool]

/-- What is computed about the result of a step that succeeds. -/
theorem exists_ok_of_toOption_map {x : Except ε α} {f : α → β} {y : β} (h : x.toOption.map f = some y) :
    ∃ a, x = .ok a ∧ f a = y := by
  cases x with
  | error e => cases h
  | ok a => exact ⟨a, rfl, Option.some.inj h⟩

/-! ### Look-ups -/

section Keys

variable {κ : Type} [BEq κ] [LawfulBEq κ] {key : α → κ} {xs ys : List α}

theorem find?_key_eq_some_iff (hnd : (xs.map key).Nodup) {k : κ} {x : α} :
    xs.find? (key · == k) = some x ↔ x ∈ xs ∧ key x = k := by
  constructor
  · intro h
    have hkey : (key x == k) = true := List.find?_some (p := fun x => key x == k) h
    exact ⟨List.mem_of_find?_eq_some h, eq_of_beq hkey⟩
  · rintro ⟨hx, hk⟩
    have hsome : (xs.find? (key · == k)).isSome := List.find?_isSome.2 ⟨x, hx, beq_iff_eq.2 hk⟩
    obtain ⟨y, hy⟩ := Option.isSome_iff_exists.1 hsome
    have hkey : (key y == k) = true := List.find?_some (p := fun x => key x == k) hy
    rw [hy, List.inj_on_of_nodup_map hnd (List.mem_of_find?_eq_some hy) hx ((eq_of_beq hkey).trans hk.symm)]

theorem find?_key_perm (h : xs.Perm ys) (hnd : (xs.map key).Nodup) (k : κ) :
    xs.find? (key · == k) = ys.find? (key · == k) := by
  refine List.find?_eq_find?_of_perm h fun x hx y hy => ?_
  exact List.inj_on_of_nodup_map hnd hx.1 hy.1 ((eq_of_beq hx.2).trans (eq_of_beq hy.2).symm)

end Keys

namespace Dict

theorem get?_ofList (es : List (String × α)) (key : String) : (ofList es).get? key = es.reverse.lookup key := by
  induction es using List.reverseRecOn with
  | nil => rfl
  | append_singleton es e ih =>
    have hlast : ofList (es ++ [e]) = (ofList es).insert e.1 e.2 := List.foldl_append ..
    rw [hlast, get?_insert, ih, List.reverse_append, List.reverse_singleton, List.singleton_append, List.lookup_cons]
    by_cases h : key = e.1
    · rw [if_pos h, beq_iff_eq.2 h]
    · rw [if_neg h, beq_eq_false_iff_ne.2 h]

/-- An entry is found if every entry with its key has its value. -/
theorem get?_ofList_of_mem {es : List (String × α)} {key : String} {value : α} (hmem : (key, value) ∈ es)
    (huniq : ∀ e ∈ es, e.1 = key → e.2 = value) : (ofList es).get? key = some value := by
  rw [get?_ofList]
  cases h : es.reverse.lookup key with
  | none =>
    simpa using List.lookup_eq_none_iff.1 h (key, value) (List.mem_reverse.2 hmem)
  | some found =>
    obtain ⟨before, after, heq, -⟩ := List.lookup_eq_some_iff.1 h
    have hfound : (key, found) ∈ es := List.mem_reverse.1 (heq ▸ by simp)
    exact congrArg some (huniq _ hfound rfl)

/-- Keys do not repeat, so every entry is the one that is found. -/
theorem mem_entries_iff (d : Dict α) (key : String) (value : α) : (key, value) ∈ d.entries ↔
    d.get? key = some value := by
  constructor
  · intro hmem
    obtain ⟨before, after, heq⟩ := List.append_of_mem hmem
    have hsorted := d.sorted
    rw [heq, List.pairwise_append] at hsorted
    refine List.lookup_eq_some_iff.2 ⟨before, after, heq, fun e he => ?_⟩
    have hlt : e.1 < key := hsorted.2.2 e he (key, value) List.mem_cons_self
    simpa using (String.ne_of_lt hlt).symm
  · intro hfound
    obtain ⟨before, after, heq, -⟩ := List.lookup_eq_some_iff.1 hfound
    exact heq ▸ by simp

/-- Dictionaries in which the same is found are the same. -/
theorem eq_of_get?_eq {d e : Dict α} (h : ∀ key, d.get? key = e.get? key) : d = e := by
  have : Std.Irrefl fun a b : String × α => a.1 < b.1 := ⟨fun a => String.lt_irrefl a.1⟩
  have : Std.Antisymm fun a b : String × α => a.1 < b.1 := ⟨fun a b hab hba => absurd hab (String.lt_asymm hba)⟩
  refine ext (d.sorted.eq_of_mem_iff e.sorted fun ⟨key, value⟩ => ?_)
  rw [mem_entries_iff, mem_entries_iff, h]

/-- A dictionary is made of its own entries. -/
theorem ofList_entries (d : Dict α) : ofList d.entries = d := by
  refine eq_of_get?_eq fun key => ?_
  cases hd : d.get? key with
  | some value =>
    have hmem := (mem_entries_iff d key value).2 hd
    refine get?_ofList_of_mem hmem fun e he hkey => ?_
    have hfound := (mem_entries_iff d e.1 e.2).1 he
    rw [hkey, hd] at hfound
    exact (Option.some.inj hfound).symm
  | none =>
    rw [get?_ofList, List.lookup_eq_none_iff]
    intro e he
    exact List.lookup_eq_none_iff.1 hd e (List.mem_reverse.1 he)

theorem mem_of_mem_entries_ofList {es : List (String × α)} {e : String × α} (h : e ∈ (ofList es).entries) : e ∈ es := by
  have hfound := (mem_entries_iff _ e.1 e.2).1 h
  rw [get?_ofList, List.lookup_eq_some_iff] at hfound
  obtain ⟨before, after, heq, -⟩ := hfound
  exact List.mem_reverse.1 (heq ▸ by simp)

theorem nodup_keys (d : Dict α) : d.keys.Nodup :=
  (List.pairwise_map.2 d.sorted).imp fun h => String.ne_of_lt h

theorem mem_keys_iff (d : Dict α) (key : String) : key ∈ d.keys ↔ (d.get? key).isSome := by
  rw [keys, get?, List.mem_map, List.lookup_isSome_iff]
  exact ⟨fun ⟨e, he, heq⟩ => ⟨e, he, beq_iff_eq.2 heq.symm⟩, fun ⟨e, he, heq⟩ => ⟨e, he, (beq_iff_eq.1 heq).symm⟩⟩

theorem mem_keys_ofList {es : List (String × α)} {key : String} : key ∈ (ofList es).keys ↔ key ∈ es.map (·.1) := by
  rw [mem_keys_iff, get?_ofList, List.lookup_isSome_iff, List.mem_map]
  simp only [List.mem_reverse, beq_iff_eq]
  exact exists_congr fun e => and_congr_right fun _ => eq_comm

/-- The keys of a dictionary that is made from a list, given without repetitions. -/
theorem keys_ofList_perm {es : List (String × α)} {keys : List String} (hnd : keys.Nodup)
    (h : ∀ key, key ∈ es.map (·.1) ↔ key ∈ keys) : (ofList es).keys.Perm keys :=
  (List.perm_ext_iff_of_nodup (nodup_keys _) hnd).2 fun key => mem_keys_ofList.trans (h key)

end Dict

end CapsuleCompiler
