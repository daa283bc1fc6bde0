import CapsuleCompiler.Proofs.Text.Kebab
import CapsuleCompiler.Proofs.Text.Lines

/-!
# Proofs.Text.Recovery — ids that can be told from their symbols

A symbol has a capital where a word of its id begins with a letter, and no hyphens.  The kebab form puts a hyphen in
front of a capital behind a small letter or a digit, and behind another capital only if a small letter follows.  So a
hyphen of an id is found again exactly if a letter follows it and, behind a word of one letter, a second letter
(`kebab_pascal_eq_self_iff`).
-/

namespace CapsuleCompiler

open Text (splitOn)

namespace Naming

variable {c p : Char} {u cs first : List Char} {more : List (List Char)}

/-! ### Characters -/

theorem isLower_eq_isAlpha (h : isSmall c) : c.isLower = c.isAlpha := by
  have hupper : c.isUpper = false := Bool.eq_false_iff.2 (not_isUpper_of_isSmall h)
  rw [Char.isAlpha, hupper, Bool.false_or]

theorem toLower_toUpper (h : isSmall c) : c.toUpper.toLower = c := by
  rw [Char.toLower_toUpper_eq_toLower, toLower_eq_self h]

theorem isSmall_iff_not_isUpper (h : c.isAlphanum) : isSmall c ↔ ¬c.isUpper := by
  refine ⟨not_isUpper_of_isSmall, fun hupper => ?_⟩
  simpa [Char.isAlphanum, Char.isAlpha, isSmall, hupper] using h

theorem ne_hyphen_of_isSmall (h : isSmall c) : c ≠ '-' := by
  rintro rfl
  exact absurd h (by decide)

theorem opensWord_iff (hp : p.isAlphanum) (next : Option Char) :
    opensWord p c next ↔ c.isUpper ∧ (¬p.isUpper ∨ next.any Char.isLower) := by
  rw [opensWord, Bool.and_eq_true, Bool.or_eq_true, Bool.and_eq_true, ← isSmall, isSmall_iff_not_isUpper hp]
  refine and_congr_right fun _ => ?_
  tauto

/-! ### Words -/

/-- A word of one letter. -/
def isLetter : List Char → Bool
  | [c] => c.isAlpha
  | _ => false

/-- The word `v` begins with a letter and, behind a single letter, goes on with a letter.  Then the kebab form of a symbol
finds the hyphen between `u` and `v` again. -/
def Separates (u v : List Char) : Prop :=
  v.head?.any Char.isAlpha ∧ (¬isLetter u ∨ v[1]?.any Char.isAlpha)

instance (u v : List Char) : Decidable (Separates u v) := inferInstanceAs (Decidable (_ ∧ _))

theorem exists_of_splitOn_cons (hc : isSmall c) (h : splitOn '-' (c :: cs) = first :: more) :
    ∃ word, first = c :: word ∧ splitOn '-' cs = word :: more := by
  obtain ⟨word, words, heq⟩ := List.exists_cons_of_ne_nil (Text.splitOn_ne_nil '-' cs)
  rw [splitOn, if_neg (ne_hyphen_of_isSmall hc), heq] at h
  obtain ⟨rfl, rfl⟩ := List.cons_eq_cons.1 h
  exact ⟨word, rfl, heq⟩

theorem exists_of_splitOn_hyphen (hc : isSmall c) (h : splitOn '-' ('-' :: c :: cs) = first :: more) :
    first = [] ∧ ∃ word words, more = (c :: word) :: words ∧ splitOn '-' cs = word :: words := by
  rw [splitOn, if_pos rfl] at h
  obtain ⟨rfl, rfl⟩ := List.cons_eq_cons.1 h
  obtain ⟨next, words, heq⟩ := List.exists_cons_of_ne_nil (Text.splitOn_ne_nil '-' (c :: cs))
  obtain ⟨word, rfl, hrest⟩ := exists_of_splitOn_cons hc heq
  exact ⟨rfl, word, words, heq, hrest⟩

/-- The symbol goes on with a small letter where the word does with a letter. -/
theorem isLower_head_pascalFrom_false (h : GoesOn cs) (hwords : splitOn '-' cs = first :: more) :
    (pascalFrom false cs).head?.any Char.isLower = first.head?.any Char.isAlpha := by
  cases h with
  | done =>
    cases hwords
    rfl
  | @letter c cs hc _ =>
    obtain ⟨word, rfl, hrest⟩ := exists_of_splitOn_cons hc hwords
    simp [pascalFrom, isAlphanum_of_isSmall hc, isLower_eq_isAlpha hc]
  | @word c cs hc _ =>
    obtain ⟨rfl, word, words, rfl, hrest⟩ := exists_of_splitOn_hyphen hc hwords
    have hhyphen : ¬('-' : Char).isAlphanum := by decide
    simp [pascalFrom, hhyphen, isAlphanum_of_isSmall hc]

/-! ### The reading of a symbol -/

/-- What has been read of a word, and the character of the symbol that stands for the end of it. -/
structure Behind (u : List Char) (p : Char) : Prop where
  nonempty : u ≠ []
  alphanum : p.isAlphanum
  isUpper_iff : p.isUpper ↔ isLetter u

theorem Behind.head (hc : isSmall c) : Behind [c] c.toUpper where
  nonempty := List.cons_ne_nil _ _
  alphanum := isAlphanum_toUpper (isAlphanum_of_isSmall hc)
  isUpper_iff := by rw [Char.isUpper_toUpper_eq_isAlpha, isLetter]

theorem Behind.next (h : Behind u p) (hc : isSmall c) : Behind (u ++ [c]) c where
  nonempty := by simp
  alphanum := isAlphanum_of_isSmall hc
  isUpper_iff := by
    obtain ⟨d, ds, rfl⟩ := List.exists_cons_of_ne_nil h.nonempty
    have hlonger : isLetter (d :: ds ++ [c]) = false := by cases ds <;> rfl
    rw [hlonger]
    simp [not_isUpper_of_isSmall hc]

/-- The capital of a word opens it exactly if the word is separated from the one before. -/
theorem Behind.opensWord_iff_separates (h : Behind u p) (hcs : GoesOn cs) (hwords : splitOn '-' cs = first :: more) :
    opensWord p c.toUpper (pascalFrom false cs).head? ↔ Separates u (c :: first) := by
  rw [opensWord_iff h.alphanum, Char.isUpper_toUpper_eq_isAlpha, h.isUpper_iff,
    isLower_head_pascalFrom_false hcs hwords, List.head?_eq_getElem?]
  rfl

/-- From inside a word, the rest comes back exactly if each word to come is separated from the one before.  The invariant
is what stands behind (`Behind`): it decides whether the next hyphen is found. -/
theorem GoesOn.kebabFrom_pascalFrom_iff (h : GoesOn cs) (hbehind : Behind u p)
    (hwords : splitOn '-' cs = first :: more) :
    kebabFrom (.within p) (pascalFrom false cs) = cs ↔ ((u ++ first) :: more).IsChain Separates := by
  induction h generalizing u p first more with
  | done =>
    cases hwords
    exact iff_of_true rfl (List.isChain_singleton _)
  | @letter c cs hc h ih =>
    obtain ⟨word, rfl, hrest⟩ := exists_of_splitOn_cons hc hwords
    have hnone : opensWord p c (pascalFrom false cs).head? = false := by
      simp [opensWord, not_isUpper_of_isSmall hc]
    have hread : kebabFrom (.within p) (pascalFrom false (c :: cs)) =
        c :: kebabFrom (.within c) (pascalFrom false cs) := by
      simp [pascalFrom, kebabFrom, isAlphanum_of_isSmall hc, hnone, toLower_eq_self hc]
    rw [hread, List.cons.injEq, eq_self, true_and, ih (hbehind.next hc) hrest, List.append_assoc]
    rfl
  | @word c cs hc h ih =>
    obtain ⟨rfl, word, words, rfl, hrest⟩ := exists_of_splitOn_hyphen hc hwords
    have hhyphen : ¬('-' : Char).isAlphanum := by decide
    have hpascal : pascalFrom false ('-' :: c :: cs) = c.toUpper :: pascalFrom false cs := by
      simp [pascalFrom, hhyphen, isAlphanum_of_isSmall hc]
    have hopens := hbehind.opensWord_iff_separates (c := c) h hrest
    rw [hpascal, kebabFrom, if_pos (isAlphanum_toUpper (isAlphanum_of_isSmall hc)), List.append_nil,
      List.isChain_cons_cons, ← hopens]
    by_cases hopen : opensWord p c.toUpper (pascalFrom false cs).head?
    · rw [if_pos hopen, and_iff_right hopen, toLower_toUpper hc, List.cons.injEq, List.cons.injEq, eq_self, eq_self,
        true_and, true_and, ih (.head hc) hrest]
      rfl
    · rw [if_neg hopen, toLower_toUpper hc]
      refine iff_of_false (fun heq => ?_) fun hchain => hopen hchain.1
      exact ne_hyphen_of_isSmall hc (List.cons_eq_cons.1 heq).1

end Naming

/-! ### Ids -/

namespace CapsuleId

/-- The words of an id in kebab form. -/
def words (id : CapsuleId) : List (List Char) := splitOn '-' id.text.toList

/-- **Ids and symbols.**  A canonical id is the kebab form of its symbol exactly if every word but the first begins with
a letter and, where the word before it is a single letter, goes on with a letter. -/
theorem kebab_pascal_eq_self_iff {id : CapsuleId} (h : id.isCanonical) :
    Naming.kebab (Naming.pascal id.text) = id.text ↔ id.words.IsChain Naming.Separates := by
  obtain ⟨c, rest, hid, hc, hrest⟩ := exists_head_of_isCanonical h
  have halnum := Naming.isAlphanum_of_isSmall hc
  have hpascal : Naming.pascalFrom true (c :: rest) = c.toUpper :: Naming.pascalFrom false rest := by
    simp [Naming.pascalFrom, halnum]
  have hkebab : Naming.kebab (Naming.pascal id.text) = id.text ↔
      Naming.kebabFrom (.within c.toUpper) (Naming.pascalFrom false rest) = rest := by
    rw [← String.toList_inj, Naming.kebab, Naming.pascal, String.toList_ofList, String.toList_ofList, hid, hpascal,
      Naming.kebabFrom, if_pos (Naming.isAlphanum_toUpper halnum), Naming.toLower_toUpper hc, List.cons.injEq, eq_self,
      true_and]
  obtain ⟨first, more, hwords⟩ := List.exists_cons_of_ne_nil (Text.splitOn_ne_nil '-' (c :: rest))
  obtain ⟨word, rfl, hmore⟩ := Naming.exists_of_splitOn_cons hc hwords
  rw [hkebab, words, hid, hwords]
  exact hrest.kebabFrom_pascalFrom_iff (.head hc) hmore

theorem kebab_pascal_eq_self_iff_planB2 :
    isCanonical ⟨"plan-b2-x-ray"⟩ ∧ Naming.kebab (Naming.pascal "plan-b2-x-ray") = "plan-b2-x-ray" ∧
      isCanonical ⟨"plan-b-2x"⟩ ∧ Naming.kebab (Naming.pascal "plan-b-2x") ≠ "plan-b-2x" ∧
      isCanonical ⟨"x-y-axis"⟩ ∧ Naming.kebab (Naming.pascal "x-y-axis") ≠ "x-y-axis" := by
  have hkept : isCanonical ⟨"plan-b2-x-ray"⟩ := by decide +kernel
  have hdigit : isCanonical ⟨"plan-b-2x"⟩ := by decide +kernel
  have hletters : isCanonical ⟨"x-y-axis"⟩ := by decide +kernel
  refine ⟨hkept, (kebab_pascal_eq_self_iff hkept).2 (by decide +kernel), hdigit, fun heq => ?_, hletters, fun heq => ?_⟩
  · exact absurd ((kebab_pascal_eq_self_iff hdigit).1 heq) (by decide +kernel)
  · exact absurd ((kebab_pascal_eq_self_iff hletters).1 heq) (by decide +kernel)

end CapsuleId

end CapsuleCompiler
