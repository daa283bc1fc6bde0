import CapsuleCompiler.Naming
import Mathlib

/-!
# Proofs.Text.Words — names in Pascal case and names in camel case

A word in Pascal case begins with a capital and a word in camel case with a small letter; both go on with letters
and digits only.  No name is of both kinds.  The Pascal form of a camel-case name differs from it in the size of the
first letter alone, so it tells the name (`pascal_injOn_camel`).
-/

namespace CapsuleCompiler.Naming

/-! ### Characters -/

theorem isAlphanum_toUpper {c : Char} (h : c.isAlphanum) : c.toUpper.isAlphanum := by
  by_cases hl : c.isLower
  · have hupper : c.toUpper.isUpper := by
      rw [Char.isUpper_toUpper_eq_isAlpha, Char.isAlpha, hl, Bool.or_true]
    simp [Char.isAlphanum, Char.isAlpha, hupper]
  · rwa [Char.toUpper_eq_of_not_isLower hl]

theorem isAlpha_of_isIdentStart {c : Char} (h : isIdentStart c) (halnum : c.isAlphanum) : c.isAlpha := by
  simp only [isIdentStart, Bool.or_eq_true, beq_iff_eq] at h
  rcases h with (h | rfl) | rfl
  · exact h
  · exact absurd halnum (by decide)
  · exact absurd halnum (by decide)

theorem toUpper_injOn_lower {c d : Char} (hc : c.isLower) (hd : d.isLower) (h : c.toUpper = d.toUpper) : c = d := by
  have hlower := congrArg Char.toLower h
  rwa [Char.toLower_toUpper_eq_toLower, Char.toLower_toUpper_eq_toLower,
    Char.toLower_eq_of_not_isUpper (Char.not_isUpper_of_isLower hc),
    Char.toLower_eq_of_not_isUpper (Char.not_isUpper_of_isLower hd)] at hlower

/-! ### Words run together -/

theorem isAlphanum_of_mem_pascalFrom {start : Bool} {cs : List Char} {c : Char} (h : c ∈ pascalFrom start cs) :
    c.isAlphanum := by
  induction cs generalizing start with
  | nil => cases h
  | cons d cs ih =>
    rw [pascalFrom] at h
    split at h
    · next hd =>
      rcases List.mem_cons.1 h with rfl | h
      · split
        · exact isAlphanum_toUpper hd
        · exact hd
      · exact ih h
    · exact ih h

/-- A word that is under way runs on as it is. -/
theorem pascalFrom_false_eq_self {cs : List Char} (h : ∀ c ∈ cs, c.isAlphanum) : pascalFrom false cs = cs := by
  induction cs with
  | nil => rfl
  | cons c cs ih =>
    rw [pascalFrom, if_pos (h c List.mem_cons_self), ih fun d hd => h d (List.mem_cons_of_mem _ hd)]
    rfl

theorem isLower_head_pascalFrom {cs rest : List Char} {c : Char} (h : pascalFrom true cs = c :: rest) :
    c.isLower = false := by
  induction cs with
  | nil => cases h
  | cons d cs ih =>
    rw [pascalFrom] at h
    split at h
    · obtain ⟨rfl, -⟩ := List.cons_eq_cons.1 h
      exact Char.isLower_toUpper_eq_false d
    · exact ih h

/-! ### The two kinds of names -/

/-- A capital, then letters and digits. -/
def IsPascal (name : String) : Prop :=
  ∃ c rest, name.toList = c :: rest ∧ c.isUpper ∧ ∀ d ∈ rest, d.isAlphanum

/-- A small letter, then letters and digits. -/
def IsCamel (name : String) : Prop :=
  ∃ c rest, name.toList = c :: rest ∧ c.isLower ∧ ∀ d ∈ rest, d.isAlphanum

theorem IsCamel.ne {a b : String} (ha : IsCamel a) (hb : IsPascal b) : a ≠ b := by
  rintro rfl
  obtain ⟨c, rest, hc, hlower, -⟩ := ha
  obtain ⟨d, rest', hd, hupper, -⟩ := hb
  obtain ⟨rfl, -⟩ := List.cons_eq_cons.1 (hc.symm.trans hd)
  exact Char.not_isUpper_of_isLower hlower hupper

theorem IsPascal.append {a b : String} (ha : IsPascal a) (hb : ∀ c ∈ b.toList, c.isAlphanum) : IsPascal (a ++ b) := by
  obtain ⟨c, rest, hc, hupper, hrest⟩ := ha
  refine ⟨c, rest ++ b.toList, by rw [String.toList_append, hc, List.cons_append], hupper, fun d hd => ?_⟩
  exact (List.mem_append.1 hd).elim (hrest d) (hb d)

theorem IsCamel.append {a b : String} (ha : IsCamel a) (hb : ∀ c ∈ b.toList, c.isAlphanum) : IsCamel (a ++ b) := by
  obtain ⟨c, rest, hc, hlower, hrest⟩ := ha
  refine ⟨c, rest ++ b.toList, by rw [String.toList_append, hc, List.cons_append], hlower, fun d hd => ?_⟩
  exact (List.mem_append.1 hd).elim (hrest d) (hb d)

theorem isAlphanum_of_mem_toString {n : Nat} {c : Char} (h : c ∈ (toString n).toList) : c.isAlphanum := by
  rw [Nat.toString_eq_ofList_toDigits, String.toList_ofList] at h
  rw [Char.isAlphanum, Nat.isDigit_of_mem_toDigits (by decide) (by decide) h, Bool.or_true]

/-! ### Identifiers made of words -/

theorem isIdentStart_of_isIdentifier {name : String} {c : Char} {rest : List Char} (h : isIdentifier name)
    (hname : name.toList = c :: rest) : isIdentStart c := by
  rw [isIdentifier, hname, Bool.and_eq_true] at h
  exact h.1

theorem toList_ne_nil_of_isIdentifier {name : String} (h : isIdentifier name) : name.toList ≠ [] := by
  intro hnil
  rw [isIdentifier, hnil] at h
  cases h

theorem isPascal_pascal {text : String} (h : isIdentifier (pascal text)) : IsPascal (pascal text) := by
  obtain ⟨c, rest, hname⟩ := List.exists_cons_of_ne_nil (toList_ne_nil_of_isIdentifier h)
  have hfrom : pascalFrom true text.toList = c :: rest := by rw [← hname, pascal, String.toList_ofList]
  have halnum : ∀ d ∈ c :: rest, d.isAlphanum := fun d hd => isAlphanum_of_mem_pascalFrom (hfrom ▸ hd)
  have halpha := isAlpha_of_isIdentStart (isIdentStart_of_isIdentifier h hname) (halnum c List.mem_cons_self)
  rw [Char.isAlpha, isLower_head_pascalFrom hfrom, Bool.or_false] at halpha
  exact ⟨c, rest, hname, halpha, fun d hd => halnum d (List.mem_cons_of_mem _ hd)⟩

theorem isCamel_camel {text : String} (h : isIdentifier (camel text)) : IsCamel (camel text) := by
  obtain ⟨c, rest, hname⟩ := List.exists_cons_of_ne_nil (toList_ne_nil_of_isIdentifier h)
  have hlower : lowerFirst (pascalFrom true text.toList) = c :: rest := by rw [← hname, camel, String.toList_ofList]
  cases hfrom : pascalFrom true text.toList with
  | nil =>
    rw [hfrom] at hlower
    cases hlower
  | cons d ds =>
    rw [hfrom] at hlower
    obtain ⟨rfl, rfl⟩ := List.cons_eq_cons.1 hlower
    have halnum : ∀ e ∈ d :: ds, e.isAlphanum := fun e he => isAlphanum_of_mem_pascalFrom (hfrom ▸ he)
    refine ⟨d.toLower, ds, hname, ?_, fun e he => halnum e (List.mem_cons_of_mem _ he)⟩
    rw [Char.isLower_toLower_eq_isAlpha]
    have hstart := isIdentStart_of_isIdentifier h hname
    by_cases halpha : d.isAlpha
    · exact halpha
    · have hnot : ¬d.isUpper := fun hupper => halpha (by rw [Char.isAlpha, hupper, Bool.true_or])
      rw [Char.toLower_eq_of_not_isUpper hnot] at hstart
      exact isAlpha_of_isIdentStart hstart (halnum d List.mem_cons_self)

theorem isPascal_compositionSymbol (name : String) : IsPascal (compositionSymbol name) := by
  rw [compositionSymbol]
  split
  · next h => exact isPascal_pascal h
  · have hstandard : pascal "Composition" = "Composition" := by decide +kernel
    rw [← hstandard]
    exact isPascal_pascal (by decide +kernel)

/-! ### From camel to Pascal -/

theorem toList_pascal {name : String} {c : Char} {rest : List Char} (hname : name.toList = c :: rest)
    (hc : c.isLower) (hrest : ∀ d ∈ rest, d.isAlphanum) : (pascal name).toList = c.toUpper :: rest := by
  have halnum : c.isAlphanum := by simp [Char.isAlphanum, Char.isAlpha, hc]
  rw [pascal, String.toList_ofList, hname, pascalFrom, if_pos halnum, pascalFrom_false_eq_self hrest]
  rfl

theorem IsCamel.isPascal {name : String} (h : IsCamel name) : IsPascal (pascal name) := by
  obtain ⟨c, rest, hname, hc, hrest⟩ := h
  refine ⟨c.toUpper, rest, toList_pascal hname hc hrest, ?_, hrest⟩
  rw [Char.isUpper_toUpper_eq_isAlpha, Char.isAlpha, hc, Bool.or_true]

theorem pascal_injOn_camel {a b : String} (ha : IsCamel a) (hb : IsCamel b) (h : pascal a = pascal b) : a = b := by
  obtain ⟨c, rest, hac, hc, hrest⟩ := ha
  obtain ⟨d, rest', hbd, hd, hrest'⟩ := hb
  have h := congrArg String.toList h
  rw [toList_pascal hac hc hrest, toList_pascal hbd hd hrest'] at h
  obtain ⟨hcd, rfl⟩ := List.cons_eq_cons.1 h
  refine String.toList_inj.1 ?_
  rw [hac, hbd, toUpper_injOn_lower hc hd hcd]

end CapsuleCompiler.Naming
