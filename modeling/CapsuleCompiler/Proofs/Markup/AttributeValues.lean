import CapsuleCompiler.Proofs.Json.Reader
import CapsuleCompiler.Proofs.Markup.CharacterReferences

/-!
# Proofs.Markup.AttributeValues — what the attribute of a literal denotes

Quoted text denotes itself with its character references decoded, and braces denote the JSON value in them (`denote?`).
The attribute of a literal is read as the literal if it stands in braces; if it is quoted, its quotes are the only ones,
but it is read as the literal only if no character reference stands in it (`denote?_ofJson_iff`): an ampersand does not
keep a text from being quoted.
-/

namespace CapsuleCompiler.Markup

open Json (Ended Readable)

variable {names : List Char → Option Char} {depth : Nat} {x : Json} {s : String}

/-- The value that the text of an attribute denotes. -/
def denote? (names : List Char → Option Char) : List Char → Option Json
  | '"' :: cs =>
    match upTo? '"' cs with
    | some (quoted, []) => some (.string (.ofList (decode names quoted)))
    | _ => none
  | '\x7b' :: cs =>
    match Json.Reader.value cs.length cs with
    | .ok (x, rest) => if Json.skipSpace rest = ['\x7d'] then some x else none
    | .error _ => none
  | _ => none

theorem denote?_quoted (h : '"' ∉ s.toList) :
    denote? names (Attribute.quoted s).text.toList = some (.string (.ofList (decode names s.toList))) := by
  have htext : (Attribute.quoted s).text.toList = '"' :: (s.toList ++ '"' :: []) := by
    simp [Attribute.text]
  rw [htext, denote?, upTo?_eq_some_iff.2 ⟨rfl, h⟩]

theorem denote?_literal (h : Readable depth x) : denote? names (Attribute.literal x).text.toList = some x := by
  have htext : (Attribute.literal x).text.toList = '\x7b' :: (Json.chars x ++ ['\x7d']) := by
    simp [Attribute.text, Attribute.inBraces, Json.text]
  have hended : Ended ['\x7d'] := by simp [Ended]
  have hdepth : (Json.chars x).length ≤ (Json.chars x ++ ['\x7d']).length := by simp
  have hread := Json.Reader.readsBack_value (h.length_chars.mono hdepth) _ hended
  rw [htext, denote?, hread]
  rfl

theorem quote_notMem_of_ofJson (h : Attribute.ofJson x = .quoted s) : x = .string s ∧ '"' ∉ s.toList := by
  unfold Attribute.ofJson at h
  split at h
  · next t =>
    split at h
    · cases h
    · next hquotable =>
      cases h
      refine ⟨rfl, fun hmem => hquotable ?_⟩
      exact List.any_eq_true.2 ⟨'"', hmem, rfl⟩
  · cases h

theorem ofJson_eq_literal (h : ∀ s, Attribute.ofJson x ≠ .quoted s) : Attribute.ofJson x = .literal x := by
  unfold Attribute.ofJson at h ⊢
  split
  · next t =>
    split
    · rfl
    · next hquotable => exact absurd (if_neg hquotable) (h t)
  · rfl

/-- **What the attribute of a literal denotes.**  A quoted attribute has no quote but its own two, and denotes the text
between them with the references in it decoded.  So the literal is denoted unless it is a text that is quoted and has a
character reference. -/
theorem denote?_ofJson_iff (names : List Char → Option Char) (h : Readable depth x) :
    (∀ s, Attribute.ofJson x = .quoted s → x = .string s ∧ '"' ∉ s.toList ∧
      denote? names (Attribute.ofJson x).text.toList = some (.string (.ofList (decode names s.toList)))) ∧
    (denote? names (Attribute.ofJson x).text.toList = some x ↔
      ∀ s, Attribute.ofJson x = .quoted s → ¬HasReference names s.toList) := by
  have hquoted (s) (hs : Attribute.ofJson x = .quoted s) : x = .string s ∧ '"' ∉ s.toList ∧
      denote? names (Attribute.ofJson x).text.toList = some (.string (.ofList (decode names s.toList))) := by
    obtain ⟨hx, hquote⟩ := quote_notMem_of_ofJson hs
    exact ⟨hx, hquote, hs ▸ denote?_quoted hquote⟩
  refine ⟨hquoted, fun hdenote s hs => ?_, fun hnone => ?_⟩
  · obtain ⟨hx, -, hdecoded⟩ := hquoted s hs
    rw [hdenote, hx] at hdecoded
    have hsame : s = .ofList (decode names s.toList) := by
      injection hdecoded with heq
      injection heq
    refine decode_eq_self_iff.1 ?_
    conv_rhs => rw [hsame]
    rw [String.toList_ofList]
  · by_cases hliteral : ∀ s, Attribute.ofJson x ≠ .quoted s
    · rw [ofJson_eq_literal hliteral]
      exact denote?_literal h
    · obtain ⟨s, hs⟩ := not_forall_not.1 hliteral
      obtain ⟨hx, -, hdecoded⟩ := hquoted s hs
      rw [hdecoded, decode_eq_self_iff.2 (hnone s hs), String.ofList_toList, hx]

/-- A text with an ampersand and a semicolon that are no reference is denoted. -/
theorem denote?_ampersand :
    Readable 0 (.string "R&D; more") ∧
    denote? basicNames (Attribute.ofJson (.string "R&D; more")).text.toList = some (.string "R&D; more") := by
  have hreadable : Readable 0 (.string "R&D; more") := .string _
  have hnone : ¬HasReference basicNames "R&D; more".toList := decode_eq_self_iff.1 (by decide +kernel)
  refine ⟨hreadable, (denote?_ofJson_iff basicNames hreadable).2.2 fun s hs => ?_⟩
  obtain rfl := Json.string.inj (quote_notMem_of_ofJson hs).1
  exact hnone

/-- A text that is itself a reference is quoted, and the attribute denotes another text. -/
theorem denote?_reference_decoded :
    Readable 0 (.string "&amp;") ∧
    (Attribute.ofJson (.string "&amp;")).text = "\"&amp;\"" ∧
    denote? basicNames (Attribute.ofJson (.string "&amp;")).text.toList = some (.string "&") ∧
    denote? basicNames (Attribute.ofJson (.string "&amp;")).text.toList ≠ some (.string "&amp;") := by
  have hquoted : Attribute.ofJson (.string "&amp;") = .quoted "&amp;" := rfl
  have hdecode : decode basicNames "&amp;".toList = "&".toList := by decide +kernel
  have hdenote : denote? basicNames (Attribute.ofJson (.string "&amp;")).text.toList = some (.string "&") := by
    rw [hquoted, denote?_quoted (by decide), hdecode]
    rfl
  refine ⟨.string _, rfl, hdenote, fun h => ?_⟩
  have hsame : "&" = "&amp;" := Json.string.inj (Option.some.inj (hdenote.symm.trans h))
  exact absurd hsame (by decide)

end CapsuleCompiler.Markup
