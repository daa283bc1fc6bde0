import CapsuleCompiler.Proofs.Text.Kebab
import Mathlib.Computability.Language

/-!
# Proofs.Text.CanonicalForm — the language of the canonical ids

The canonical ids are the language `[a-z0-9]+(-[a-z0-9]+)*`, here put together from its letters by concatenation and
repetition alone (`canonicalForm`).  A text in kebab form is read off it from the left: what may stand behind a letter
of a word is the rest of the word, then more words (`goesOn_iff`).  So the kebab form of a text is empty or in this
language, and it leaves exactly the empty text and the language as they are (`kebab_mem_canonicalForm`).
-/

namespace CapsuleCompiler.Naming

open scoped Computability

/-! ### The language -/

/-- `[a-z0-9]` -/
def smallChar : Language Char := {cs | ∃ c, cs = [c] ∧ ('a' ≤ c ∧ c ≤ 'z' ∨ '0' ≤ c ∧ c ≤ '9')}

def hyphen : Language Char := {['-']}

/-- `[a-z0-9]+` -/
def smallWord : Language Char := smallChar * smallChar∗

/-- `[a-z0-9]+(-[a-z0-9]+)*` -/
def canonicalForm : Language Char := smallWord * (hyphen * smallWord)∗

variable {c : Char} {cs a b : List Char}

theorem isSmall_iff : isSmall c ↔ 'a' ≤ c ∧ c ≤ 'z' ∨ '0' ≤ c ∧ c ≤ '9' := by
  simp only [isSmall, Char.isLower, Char.isDigit, Bool.or_eq_true, Bool.and_eq_true, decide_eq_true_eq, ge_iff_le]
  rfl

theorem mem_smallChar : cs ∈ smallChar ↔ ∃ c, cs = [c] ∧ isSmall c :=
  exists_congr fun _ => and_congr_right fun _ => isSmall_iff.symm

theorem mem_kstar_smallChar : cs ∈ smallChar∗ ↔ ∀ c ∈ cs, isSmall c := by
  rw [Language.mem_kstar]
  constructor
  · rintro ⟨letters, rfl, h⟩ c hc
    obtain ⟨letter, hletter, hmem⟩ := List.mem_flatten.1 hc
    obtain ⟨d, rfl, hd⟩ := mem_smallChar.1 (h letter hletter)
    rwa [List.mem_singleton.1 hmem]
  · intro h
    refine ⟨cs.map fun c => [c], by simp [← List.flatMap_def], List.forall_mem_map.2 fun c hc => ?_⟩
    exact mem_smallChar.2 ⟨c, rfl, h c hc⟩

theorem mem_smallWord : cs ∈ smallWord ↔ ∃ c rest, cs = c :: rest ∧ isSmall c ∧ rest ∈ smallChar∗ := by
  rw [smallWord, Language.mem_mul]
  constructor
  · rintro ⟨letter, hletter, rest, hrest, rfl⟩
    obtain ⟨c, rfl, hc⟩ := mem_smallChar.1 hletter
    exact ⟨c, rest, rfl, hc, hrest⟩
  · rintro ⟨c, rest, rfl, hc, hrest⟩
    exact ⟨[c], mem_smallChar.2 ⟨c, rfl, hc⟩, rest, hrest, rfl⟩

/-! ### Kebab form -/

theorem GoesOn.append (ha : a ∈ smallChar∗) (hb : GoesOn b) : GoesOn (a ++ b) := by
  rw [mem_kstar_smallChar] at ha
  induction a with
  | nil => exact hb
  | cons c cs ih =>
    rw [List.forall_mem_cons] at ha
    exact .letter ha.1 (ih ha.2)

theorem goesOn_of_mem_kstar (h : cs ∈ (hyphen * smallWord)∗) : GoesOn cs := by
  obtain ⟨words, rfl, hwords⟩ := Language.mem_kstar.1 h
  clear h
  induction words with
  | nil => exact .done
  | cons word words ih =>
    rw [List.forall_mem_cons] at hwords
    obtain ⟨front, rfl, w, hw, rfl⟩ := Language.mem_mul.1 hwords.1
    obtain ⟨c, rest, rfl, hc, hrest⟩ := mem_smallWord.1 hw
    exact .word hc ((ih hwords.2).append hrest)

/-- The rest of a word, then more words, each behind one hyphen. -/
theorem goesOn_iff : GoesOn cs ↔ cs ∈ smallChar∗ * (hyphen * smallWord)∗ := by
  constructor
  · intro h
    induction h with
    | done => exact ⟨[], Language.nil_mem_kstar _, [], Language.nil_mem_kstar _, rfl⟩
    | @letter c cs hc _ ih =>
      obtain ⟨word, hword, more, hmore, rfl⟩ := Language.mem_mul.1 ih
      rw [mem_kstar_smallChar] at hword
      exact ⟨c :: word, mem_kstar_smallChar.2 (List.forall_mem_cons.2 ⟨hc, hword⟩), more, hmore, rfl⟩
    | @word c cs hc _ ih =>
      obtain ⟨word, hword, more, hmore, rfl⟩ := Language.mem_mul.1 ih
      obtain ⟨words, rfl, hwords⟩ := Language.mem_kstar.1 hmore
      have hnext : '-' :: c :: word ∈ hyphen * smallWord :=
        ⟨['-'], rfl, c :: word, mem_smallWord.2 ⟨c, word, rfl, hc, hword⟩, rfl⟩
      refine ⟨[], Language.nil_mem_kstar _, _, Language.mem_kstar.2 ⟨('-' :: c :: word) :: words, rfl, ?_⟩, rfl⟩
      exact List.forall_mem_cons.2 ⟨hnext, hwords⟩
  · intro h
    obtain ⟨word, hword, more, hmore, rfl⟩ := Language.mem_mul.1 h
    exact (goesOn_of_mem_kstar hmore).append hword

theorem mem_canonicalForm_iff : cs ∈ canonicalForm ↔ cs ≠ [] ∧ IsKebab cs := by
  have hsplit : cs ∈ canonicalForm ↔ ∃ c rest, cs = c :: rest ∧ isSmall c ∧ GoesOn rest := by
    simp only [canonicalForm, smallWord, mul_assoc]
    constructor
    · rintro ⟨letter, hletter, rest, hrest, rfl⟩
      obtain ⟨c, rfl, hc⟩ := mem_smallChar.1 hletter
      exact ⟨c, rest, rfl, hc, goesOn_iff.2 hrest⟩
    · rintro ⟨c, rest, rfl, hc, hrest⟩
      exact ⟨[c], mem_smallChar.2 ⟨c, rfl, hc⟩, rest, goesOn_iff.1 hrest, rfl⟩
  rw [hsplit]
  constructor
  · rintro ⟨c, rest, rfl, hc, hrest⟩
    exact ⟨List.cons_ne_nil _ _, .words hc hrest⟩
  · rintro ⟨hne, hkebab⟩
    cases hkebab with
    | empty => exact absurd rfl hne
    | @words c rest hc hrest => exact ⟨c, rest, rfl, hc, hrest⟩

/-- **The kebab form.**  It is empty, exactly for a text without letters and digits, or a canonical id; the canonical
ids are those of the form `[a-z0-9]+(-[a-z0-9]+)*`; these and the empty text are what it leaves as it is, and it does
so to whatever it yields. -/
theorem kebab_mem_canonicalForm (text : String) (id : CapsuleId) :
    (kebab text = "" ∨ (kebab text).toList ∈ canonicalForm) ∧
    (kebab text = "" ↔ ∀ c ∈ text.toList, ¬c.isAlphanum) ∧
    (id.isCanonical ↔ id.text.toList ∈ canonicalForm) ∧
    (kebab text = text ↔ text = "" ∨ text.toList ∈ canonicalForm) ∧
    kebab (kebab text) = kebab text := by
  have hform (t : String) : t.toList ∈ canonicalForm ↔ t ≠ "" ∧ IsKebab t.toList := by
    rw [mem_canonicalForm_iff, Ne, Ne, String.toList_eq_nil_iff]
  refine ⟨?_, kebab_eq_empty_iff, ?_, ?_, kebab_kebab text⟩
  · by_cases h : kebab text = ""
    · exact .inl h
    · exact .inr ((hform _).2 ⟨h, isKebab_kebab text⟩)
  · rw [CapsuleId.isCanonical_iff, hform]
  · rw [kebab_eq_self_iff, hform]
    by_cases h : text = ""
    · subst h
      exact iff_of_true .empty (.inl rfl)
    · simp [h]

example : kebab "-2nd__Überblick " = "2nd-berblick" := by decide +kernel

end CapsuleCompiler.Naming
