import CapsuleCompiler.Ident
import CapsuleCompiler.Proofs.Text.Words

/-!
# Proofs.Text.Kebab — names in kebab form

A name in kebab form is words of small letters and digits with single hyphens between them, and these names are the
ones that the kebab form leaves as they are (`kebab_eq_self_iff`).  So what a path segment yields is canonical, or empty
if the segment has neither letter nor digit (`isCanonical_ofSegment_iff`), and the symbol of a canonical id is an
identifier exactly when the id begins with a letter.
-/

namespace CapsuleCompiler

namespace Naming

/-- A small letter or a digit. -/
def isSmall (c : Char) : Bool := c.isLower || c.isDigit

/-- What may stand behind a character of a word: the rest of the word, and more words, each behind one hyphen. -/
inductive GoesOn : List Char → Prop
  | done : GoesOn []
  | letter {c : Char} {cs : List Char} (hc : isSmall c) (h : GoesOn cs) : GoesOn (c :: cs)
  | word {c : Char} {cs : List Char} (hc : isSmall c) (h : GoesOn cs) : GoesOn ('-' :: c :: cs)

/-- Words of small letters and digits with single hyphens between them. -/
inductive IsKebab : List Char → Prop
  | empty : IsKebab []
  | words {c : Char} {cs : List Char} (hc : isSmall c) (h : GoesOn cs) : IsKebab (c :: cs)

variable {c : Char} {cs : List Char}

theorem isAlphanum_of_isSmall (h : isSmall c) : c.isAlphanum := by
  rw [isSmall, Bool.or_eq_true] at h
  rw [Char.isAlphanum, Char.isAlpha, Bool.or_eq_true, Bool.or_eq_true]
  exact h.imp .inr id

theorem not_isUpper_of_isSmall (h : isSmall c) : ¬c.isUpper := by
  rw [isSmall, Bool.or_eq_true] at h
  rcases h with h | h
  · exact Char.not_isUpper_of_isLower h
  · simp only [Char.isDigit, Char.isUpper, Bool.and_eq_true, decide_eq_true_eq, UInt32.le_iff_toNat_le] at h ⊢
    have hnine : '9'.val.toNat < 'A'.val.toNat := by decide
    omega

theorem isSmall_toLower (h : c.isAlphanum) : isSmall c.toLower := by
  rw [isSmall, Bool.or_eq_true, Char.isLower_toLower_eq_isAlpha]
  rw [Char.isAlphanum, Bool.or_eq_true] at h
  rcases h with halpha | hdigit
  · exact .inl halpha
  · have hsmall : isSmall c := by rw [isSmall, hdigit, Bool.or_true]
    rw [Char.toLower_eq_of_not_isUpper (not_isUpper_of_isSmall hsmall)]
    exact .inr hdigit

theorem toLower_eq_self (h : isSmall c) : c.toLower = c :=
  Char.toLower_eq_of_not_isUpper (not_isUpper_of_isSmall h)

/-! ### What the kebab form yields -/

/-- From every place the reading goes on in kebab form. -/
theorem kebabFrom_yields (cs : List Char) :
    (∀ prev, GoesOn (kebabFrom (.within prev) cs)) ∧ GoesOn (kebabFrom .between cs) ∧
      IsKebab (kebabFrom .start cs) := by
  induction cs with
  | nil => exact ⟨fun _ => .done, .done, .empty⟩
  | cons c cs ih =>
    obtain ⟨hwithin, hbetween, hstart⟩ := ih
    by_cases hc : c.isAlphanum
    · have hsmall := isSmall_toLower hc
      simp only [kebabFrom, if_pos hc]
      refine ⟨fun prev => ?_, .word hsmall (hwithin c), .words hsmall (hwithin c)⟩
      split
      · exact .word hsmall (hwithin c)
      · exact .letter hsmall (hwithin c)
    · simp only [kebabFrom, if_neg hc]
      exact ⟨fun _ => hbetween, hbetween, hstart⟩

theorem isKebab_kebab (text : String) : IsKebab (kebab text).toList := by
  rw [kebab, String.toList_ofList]
  exact (kebabFrom_yields text.toList).2.2

/-- Nothing is left exactly of a text without letters and digits. -/
theorem kebabFrom_start_eq_nil_iff : kebabFrom .start cs = [] ↔ ∀ c ∈ cs, ¬c.isAlphanum := by
  induction cs with
  | nil => simp [kebabFrom]
  | cons c cs ih =>
    rw [List.forall_mem_cons, kebabFrom]
    by_cases hc : c.isAlphanum
    · rw [if_pos hc]
      exact ⟨fun h => absurd h (List.cons_ne_nil _ _), fun h => absurd hc h.1⟩
    · rw [if_neg hc]
      exact ih.trans ⟨fun h => ⟨hc, h⟩, And.right⟩

theorem kebab_eq_empty_iff {text : String} : kebab text = "" ↔ ∀ c ∈ text.toList, ¬c.isAlphanum := by
  rw [← kebabFrom_start_eq_nil_iff, ← String.toList_eq_nil_iff, kebab, String.toList_ofList]

/-! ### What the kebab form leaves as it is -/

theorem GoesOn.kebabFrom_eq_self (h : GoesOn cs) (prev : Char) : kebabFrom (.within prev) cs = cs := by
  induction h generalizing prev with
  | done => rfl
  | @letter c cs hc _ ih =>
    have hnone : opensWord prev c cs.head? = false := by simp [opensWord, not_isUpper_of_isSmall hc]
    simp only [kebabFrom, if_pos (isAlphanum_of_isSmall hc), hnone, toLower_eq_self hc, ih]
    rfl
  | @word c cs hc _ ih =>
    have hhyphen : ¬('-' : Char).isAlphanum := by decide
    simp only [kebabFrom, if_neg hhyphen, if_pos (isAlphanum_of_isSmall hc), toLower_eq_self hc, ih]

theorem IsKebab.kebabFrom_eq_self (h : IsKebab cs) : kebabFrom .start cs = cs := by
  cases h with
  | empty => rfl
  | words hc h => simp only [kebabFrom, if_pos (isAlphanum_of_isSmall hc), toLower_eq_self hc, h.kebabFrom_eq_self]

/-- The names in kebab form are the fixed points of the kebab form. -/
theorem kebab_eq_self_iff {text : String} : kebab text = text ↔ IsKebab text.toList := by
  constructor
  · intro h
    exact h ▸ isKebab_kebab text
  · intro h
    rw [kebab, h.kebabFrom_eq_self, String.ofList_toList]

theorem kebab_kebab (text : String) : kebab (kebab text) = kebab text := kebab_eq_self_iff.2 (isKebab_kebab text)

end Naming

/-! ### Canonical ids -/

namespace CapsuleId

open Naming (GoesOn IsKebab isSmall)

theorem isCanonicalChar_of_isSmall {c : Char} (h : isSmall c) : isCanonicalChar c := by
  rw [isCanonicalChar, Bool.or_eq_true]
  exact .inl h

theorem isCanonicalChar_of_goesOn {cs : List Char} (h : GoesOn cs) : ∀ c ∈ cs, isCanonicalChar c := by
  induction h with
  | done => simp
  | letter hc _ ih => exact List.forall_mem_cons.2 ⟨isCanonicalChar_of_isSmall hc, ih⟩
  | word hc _ ih =>
    exact List.forall_mem_cons.2 ⟨by decide, List.forall_mem_cons.2 ⟨isCanonicalChar_of_isSmall hc, ih⟩⟩

theorem isCanonicalChar_of_isKebab {cs : List Char} (h : IsKebab cs) : ∀ c ∈ cs, isCanonicalChar c := by
  cases h with
  | empty => simp
  | words hc h => exact List.forall_mem_cons.2 ⟨isCanonicalChar_of_isSmall hc, isCanonicalChar_of_goesOn h⟩

variable {id : CapsuleId}

/-- That an id is in kebab form says all about its characters. -/
theorem isCanonical_iff : id.isCanonical ↔ id.text ≠ "" ∧ IsKebab id.text.toList := by
  simp only [isCanonical, Bool.and_eq_true, Bool.not_eq_true', String.isEmpty_eq_false_iff, List.all_eq_true,
    beq_iff_eq, Naming.kebab_eq_self_iff]
  exact ⟨fun h => ⟨h.1.1, h.2⟩, fun h => ⟨⟨h.1, isCanonicalChar_of_isKebab h.2⟩, h.2⟩⟩

/-- The capsule that no file can be named after, although references can name it. -/
def unnamed : CapsuleId := ⟨""⟩

example : ofSegment "---" = .unnamed := by decide +kernel

/-- A path segment names a canonical capsule or the one without a name. -/
theorem isCanonical_ofSegment (segment : String) : (ofSegment segment).isCanonical ∨ ofSegment segment = .unnamed := by
  by_cases h : Naming.kebab segment = ""
  · exact .inr (congrArg CapsuleId.mk h)
  · exact .inl (isCanonical_iff.2 ⟨h, Naming.isKebab_kebab segment⟩)

/-- It is canonical exactly if the segment has a letter or a digit. -/
theorem isCanonical_ofSegment_iff {segment : String} :
    (ofSegment segment).isCanonical ↔ segment.toList.any Char.isAlphanum := by
  have hkebab : IsKebab (ofSegment segment).text.toList := Naming.isKebab_kebab segment
  have hempty : (ofSegment segment).text = "" ↔ ∀ c ∈ segment.toList, ¬c.isAlphanum := Naming.kebab_eq_empty_iff
  rw [isCanonical_iff, and_iff_left hkebab, List.any_eq_true, Ne, hempty]
  simp

theorem exists_head_of_isCanonical (h : id.isCanonical) :
    ∃ c rest, id.text.toList = c :: rest ∧ isSmall c ∧ GoesOn rest := by
  obtain ⟨hne, hkebab⟩ := isCanonical_iff.1 h
  cases hid : id.text.toList with
  | nil => exact absurd (String.toList_eq_nil_iff.1 hid) hne
  | cons c rest =>
    rw [hid] at hkebab
    cases hkebab with
    | words hc hrest => exact ⟨c, rest, rfl, hc, hrest⟩

/-! ### Symbols of canonical ids -/

theorem isIdentPart_of_mem_pascalFrom {start : Bool} {cs : List Char} {c : Char} (h : c ∈ Naming.pascalFrom start cs) :
    Naming.isIdentPart c := by
  rw [Naming.isIdentPart, Naming.isAlphanum_of_mem_pascalFrom h, Bool.true_or, Bool.true_or]

/-- A symbol has the first character of its id with the size raised, and a digit has none. -/
theorem isIdentifier_symbol_iff (h : id.isCanonical) :
    Naming.isIdentifier id.symbol ↔ ∃ c, id.text.toList.head? = some c ∧ c.isLower := by
  obtain ⟨c, rest, hid, hc, -⟩ := exists_head_of_isCanonical h
  have hsymbol : id.symbol.toList = c.toUpper :: Naming.pascalFrom false rest := by
    rw [symbol, Naming.pascal, String.toList_ofList, hid, Naming.pascalFrom, if_pos (Naming.isAlphanum_of_isSmall hc)]
    rfl
  have hparts : (Naming.pascalFrom false rest).all Naming.isIdentPart :=
    List.all_eq_true.2 fun _ => isIdentPart_of_mem_pascalFrom
  rw [Naming.isIdentifier, hsymbol, hid]
  simp only [hparts, Bool.and_true, List.head?_cons, Option.some.injEq, exists_eq_left']
  constructor
  · intro hstart
    by_contra hlower
    rw [Char.toUpper_eq_of_not_isLower hlower] at hstart
    have halpha := Naming.isAlpha_of_isIdentStart hstart (Naming.isAlphanum_of_isSmall hc)
    rw [Char.isAlpha, Bool.or_eq_true] at halpha
    exact halpha.elim (Naming.not_isUpper_of_isSmall hc) hlower
  · intro hlower
    have halpha : c.toUpper.isAlpha := by
      rw [Char.isAlpha, Char.isUpper_toUpper_eq_isAlpha, Char.isAlpha, hlower, Bool.or_true, Bool.true_or]
    rw [Naming.isIdentStart, halpha, Bool.true_or, Bool.true_or]

end CapsuleId

end CapsuleCompiler
