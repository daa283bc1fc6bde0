import CapsuleCompiler.Compilation
import CapsuleCompiler.Proofs.Fallible
import CapsuleCompiler.Proofs.Json.Printer
import Mathlib.Tactic.TFAE

/-!
# Proofs.Compilation.Fingerprint — the text behind a fingerprint

The document of a composition leaves nothing of it out (`toJson_injective`), and the compact form tells documents
apart.  So the text that is hashed belongs to one composition and one shape (`eq_of_fingerprintText_eq`), and so do its
bytes: they are the same exactly where the compositions agree in all that they say (`fingerprintText_tfae`).
-/

namespace CapsuleCompiler

/-! ### Documents -/

theorem InstanceId.text_injective : Function.Injective InstanceId.text := fun ⟨_⟩ ⟨_⟩ h => congrArg _ h

theorem CapsuleId.text_injective : Function.Injective CapsuleId.text := fun ⟨_⟩ ⟨_⟩ h => congrArg _ h

theorem PortRef.toJson_injective : Function.Injective PortRef.toJson := by
  rintro ⟨⟨_⟩, _⟩ ⟨⟨_⟩, _⟩ h
  simpa [PortRef.toJson] using h

theorem Binding.toJson_injective : Function.Injective Binding.toJson := by
  rintro (x | a) (y | b) h <;> simp [Binding.toJson] at h
  · rw [h]
  · rw [PortRef.toJson_injective h]

/-- Dictionaries with the same entries are the same. -/
theorem Json.ofDict_injective {α : Type} {f : α → Json} (hf : Function.Injective f) :
    Function.Injective (Json.ofDict f) := by
  intro d e h
  have hentry : Function.Injective fun entry : String × α => (entry.1, f entry.2) := by
    rintro ⟨k, x⟩ ⟨l, y⟩ h
    cases congrArg Prod.fst h
    exact congrArg (Prod.mk k) (hf (congrArg Prod.snd h))
  exact Dict.ext (hentry.list_map (Json.object.inj h))

theorem Node.toJson_injective : Function.Injective Node.toJson := by
  rintro ⟨⟨_⟩, ⟨_⟩, _⟩ ⟨⟨_⟩, ⟨_⟩, _⟩ h
  simp only [Node.toJson, Json.object.injEq, List.cons.injEq, Prod.mk.injEq, Json.string.injEq, true_and,
    and_true] at h
  obtain ⟨rfl, rfl, h⟩ := h
  rw [Json.ofDict_injective Binding.toJson_injective h]

theorem Connection.toJson_injective : Function.Injective Connection.toJson := by
  rintro ⟨_, _⟩ ⟨_, _⟩ h
  simp only [Connection.toJson, Json.object.injEq, List.cons.injEq, Prod.mk.injEq, true_and, and_true] at h
  rw [PortRef.toJson_injective h.1, PortRef.toJson_injective h.2]

/-- A description that is absent is not one that is empty. -/
theorem Composition.toJson_injective : Function.Injective Composition.toJson := by
  rintro ⟨_, description, _, _⟩ ⟨_, description', _, _⟩ h
  cases description <;> cases description' <;>
    simp [Composition.toJson, optionalMember, Node.toJson_injective.list_map.eq_iff,
      Connection.toJson_injective.list_map.eq_iff] at h ⊢
  · exact h
  · exact h

theorem Shape.name_injective : Function.Injective Shape.name := by
  intro s t h
  cases s <;> cases t <;> first | rfl | exact absurd h (by decide)

/-! ### The text -/

/-- **The text that is hashed belongs to one composition and one shape.** -/
theorem eq_of_fingerprintText_eq {c d : Composition} {s t : Shape} (h : fingerprintText c s = fingerprintText d t) :
    c = d ∧ s = t := by
  have heq := Json.text_injective h
  simp only [Json.object.injEq, List.cons.injEq, Prod.mk.injEq, Json.string.injEq, true_and, and_true] at heq
  exact ⟨Composition.toJson_injective heq.1, Shape.name_injective heq.2⟩

/-! ### What it takes for two compositions to agree -/

structure Node.Agrees (n m : Node) : Prop where
  id : n.id = m.id
  capsule : n.capsule = m.capsule
  bindings : ∀ port, n.bindings.get? port = m.bindings.get? port

/-- The same nodes and the same connections in the same order; the order in which bindings were given counts for
nothing. -/
structure Composition.Agrees (c d : Composition) : Prop where
  name : c.name = d.name
  description : c.description = d.description
  nodes : List.Forall₂ Node.Agrees c.nodes d.nodes
  connections : c.connections = d.connections

theorem Node.agrees_iff {n m : Node} : n.Agrees m ↔ n = m := by
  constructor
  · rintro ⟨hid, hcapsule, hbindings⟩
    cases n
    cases hid
    cases hcapsule
    cases Dict.eq_of_get?_eq hbindings
    rfl
  · rintro rfl
    exact ⟨rfl, rfl, fun _ => rfl⟩

theorem Composition.agrees_iff {c d : Composition} : c.Agrees d ↔ c = d := by
  have hnodes : List.Forall₂ Node.Agrees c.nodes d.nodes ↔ c.nodes = d.nodes := by
    have hagrees : Node.Agrees = Eq := by
      ext n m
      exact Node.agrees_iff
    rw [hagrees, List.forall₂_eq_eq_eq]
  constructor
  · rintro ⟨hname, hdescription, hforall, hconnections⟩
    cases c
    cases hname
    cases hdescription
    cases hconnections
    cases hnodes.1 hforall
    rfl
  · rintro rfl
    exact ⟨rfl, rfl, hnodes.2 rfl, rfl⟩

/-- **The bytes that are hashed tell apart what is to be told apart, and nothing else.** -/
theorem fingerprintText_tfae (c d : Composition) (s t : Shape) :
    [(fingerprintText c s).toUTF8 = (fingerprintText d t).toUTF8, c = d ∧ s = t, c.Agrees d ∧ s = t].TFAE := by
  have hbytes : (fingerprintText c s).toUTF8 = (fingerprintText d t).toUTF8 ↔ c = d ∧ s = t := by
    constructor
    · intro h
      exact eq_of_fingerprintText_eq (String.toByteArray_inj.1 h)
    · rintro ⟨rfl, rfl⟩
      rfl
  have hagrees : c.Agrees d ∧ s = t ↔ c = d ∧ s = t := and_congr_left fun _ => Composition.agrees_iff
  tfae_have 1 ↔ 2 := hbytes
  tfae_have 3 ↔ 2 := hagrees
  tfae_finish

end CapsuleCompiler
