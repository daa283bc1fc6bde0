import CapsuleCompiler.Ident
import CapsuleCompiler.Proofs.Text.Lines
import Mathlib.Tactic.Tauto

/-!
# Proofs.Text.Names — names that stay within a line and its quotes

Identifiers and canonical capsule ids are written into lines of generated code, some of them between quotes.  Their
characters neither end the line nor close the quotes.
-/

namespace CapsuleCompiler

theorem CapsuleId.eq_of_toList {a b : CapsuleId} (h : a.text.toList = b.text.toList) : a = b := by
  cases a
  cases b
  exact congrArg _ (String.toList_inj.1 h)

/-- A text that neither ends a line nor closes a quote. -/
structure Plain (cs : List Char) : Prop where
  inLine : Text.InLine cs
  unquoted : '\'' ∉ cs

theorem plain_of_forall {p : Char → Bool} {cs : List Char} (h : ∀ c ∈ cs, p c)
    (hends : ¬p '\n' ∧ ¬p '\r' ∧ ¬p '\'') : Plain cs :=
  ⟨⟨fun hmem => hends.1 (h _ hmem), fun hmem => hends.2.1 (h _ hmem)⟩, fun hmem => hends.2.2 (h _ hmem)⟩

theorem Naming.isIdentPart_of_isIdentStart {c : Char} (h : isIdentStart c) : isIdentPart c := by
  simp only [isIdentStart, isIdentPart, Char.isAlphanum, Bool.or_eq_true] at h ⊢
  tauto

theorem Naming.isIdentPart_of_mem {text : String} (h : isIdentifier text) {c : Char} (hc : c ∈ text.toList) :
    isIdentPart c := by
  rw [isIdentifier] at h
  split at h
  · cases h
  · next heq =>
    rw [Bool.and_eq_true, List.all_eq_true] at h
    rw [heq] at hc
    rcases List.mem_cons.1 hc with rfl | hc
    · exact isIdentPart_of_isIdentStart h.1
    · exact h.2 c hc

theorem Naming.plain_of_isIdentifier {text : String} (h : isIdentifier text) : Plain text.toList :=
  plain_of_forall (fun _ => isIdentPart_of_mem h) (by decide)

theorem Naming.quote_notMem_of_isIdentifier {text : String} (h : isIdentifier text) : '"' ∉ text.toList :=
  fun hmem => absurd (isIdentPart_of_mem h hmem) (by decide)

theorem CapsuleId.plain_of_isCanonical {id : CapsuleId} (h : id.isCanonical) : Plain id.text.toList := by
  rw [isCanonical, Bool.and_eq_true, Bool.and_eq_true, List.all_eq_true] at h
  exact plain_of_forall h.1.2 (by decide)

end CapsuleCompiler
