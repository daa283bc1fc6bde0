import CapsuleCompiler.Extraction
import Mathlib.Data.List.Basic
import Mathlib.Tactic.ByContra

/-!
# Proofs.Unit.Prefixes — prefixes that end in a slash

A prefix that ends in a slash takes whole steps off a path, so the last step of the rest is that of the path, whichever
prefix fits first.  Among such rules it makes no difference in which order prefixes are listed, how often, or whether one
begins with another (`parseLine?_listing`), and further prefixes lose no reference of a source
(`referenceLines_sublist`).
-/

namespace CapsuleCompiler

/-! ### The last step of a path -/

namespace Reference

/-- What stands in front of a slash is no part of the last step. -/
theorem lastStep_append_slash (front rest : List Char) : lastStep (front ++ '/' :: rest) = lastStep rest := by
  have hreverse : (front ++ '/' :: rest).reverse = rest.reverse ++ '/' :: front.reverse := by simp
  rw [lastStep, hreverse, List.takeWhile_append, lastStep]
  split
  · next hlength =>
    have hall : rest.reverse.takeWhile (· ≠ '/') = rest.reverse :=
      (List.takeWhile_prefix _).eq_of_length hlength
    rw [hall, List.takeWhile_cons_of_neg (by decide), List.append_nil]
  · rfl

/-- The reference that an import makes under any prefix of whole steps. -/
def ofImport? (imported : Import.Line) : Option Reference :=
  let segment := dropEnding (lastStep imported.path.toList) sourceEndings
  if segment.isEmpty then none else some ⟨imported.bindings, imported.path, .ofList segment⟩

end Reference

/-! ### Prefixes -/

namespace ReferenceRule

/-- Every prefix consists of whole steps. -/
def SlashEnded (prefixes : List String) : Prop := ∀ p ∈ prefixes, p.toList.getLast? = some '/'

instance (prefixes : List String) : Decidable (SlashEnded prefixes) := List.decidableBAll _ _

/-- Some prefix stands in front of the path. -/
def Fits (prefixes : List String) (path : List Char) : Prop := ∃ p ∈ prefixes, p.toList <+: path

variable {P Q : List String} {path rest line : List Char} {r : Reference}

theorem Fits.mono (h : Fits P path) (hsub : P ⊆ Q) : Fits Q path := by
  obtain ⟨p, hp, hfits⟩ := h
  exact ⟨p, hsub hp, hfits⟩

theorem prefixes_ofPrefixes (h : SlashEnded P) : (ofPrefixes P).prefixes = P := by
  refine List.filter_eq_self.2 fun p hp => ?_
  have hlast := h p hp
  by_contra hempty
  have hnil : p = "" := by simpa using hempty
  simp [hnil] at hlast

theorem behindPrefix?_eq_none_iff (h : SlashEnded P) : (ofPrefixes P).behindPrefix? path = none ↔ ¬Fits P path := by
  rw [behindPrefix?, prefixes_ofPrefixes h, List.findSome?_eq_none_iff]
  constructor
  · rintro hnone ⟨p, hp, rest, rfl⟩
    have hsome := List.isPrefixOf?_eq_some_iff_append_eq.2 (rfl : p.toList ++ rest = p.toList ++ rest)
    exact Option.some_ne_none _ (hsome.symm.trans (hnone p hp))
  · intro hfits p hp
    by_contra hne
    obtain ⟨rest, hrest⟩ := Option.ne_none_iff_exists'.1 hne
    exact hfits ⟨p, hp, rest, List.isPrefixOf?_eq_some_iff_append_eq.1 hrest⟩

/-- The prefix that fits first ends somewhere in the path, but always before the last step. -/
theorem lastStep_behindPrefix? (h : SlashEnded P) (hrest : (ofPrefixes P).behindPrefix? path = some rest) :
    Reference.lastStep rest = Reference.lastStep path := by
  rw [behindPrefix?, prefixes_ofPrefixes h] at hrest
  obtain ⟨p, hp, hstrip⟩ := List.exists_of_findSome?_eq_some hrest
  have hpath := List.isPrefixOf?_eq_some_iff_append_eq.1 hstrip
  obtain ⟨stem, hstem⟩ := List.getLast?_eq_some_iff.1 (h p hp)
  rw [← hpath, hstem, List.append_assoc]
  exact (Reference.lastStep_append_slash stem rest).symm

/-- A line makes a reference if a prefix fits its import; what the reference says depends on the import alone. -/
theorem parseLine?_eq_some_iff (h : SlashEnded P) : (ofPrefixes P).parseLine? line = some r ↔
    ∃ imported, Import.Line.ofChars? line = some imported ∧ Fits P imported.path.toList ∧
      Reference.ofImport? imported = some r := by
  refine Option.bind_eq_some_iff.trans (exists_congr fun imported => and_congr_right fun _ => ?_)
  rw [segment?]
  cases hrest : (ofPrefixes P).behindPrefix? imported.path.toList with
  | none =>
    have hfits := (behindPrefix?_eq_none_iff h).1 hrest
    simp [hfits]
  | some rest =>
    have hfits : Fits P imported.path.toList := by
      by_contra hfits
      simp [(behindPrefix?_eq_none_iff h).2 hfits] at hrest
    have hstep := lastStep_behindPrefix? h hrest
    simp only [Reference.ofImport?, Option.bind_eq_bind, Option.bind_some, hstep, and_iff_right hfits]
    split
    · simp
    · rfl

theorem parseLine?_mono (hP : SlashEnded P) (hQ : SlashEnded Q) (hsub : P ⊆ Q)
    (h : (ofPrefixes P).parseLine? line = some r) : (ofPrefixes Q).parseLine? line = some r := by
  obtain ⟨imported, hline, hfits, hr⟩ := (parseLine?_eq_some_iff hP).1 h
  exact (parseLine?_eq_some_iff hQ).2 ⟨imported, hline, hfits.mono hsub, hr⟩

/-- **The listing of prefixes.**  Under prefixes that all end in a slash, a line makes the reference that its import
alone tells, if one of them stands in front of its path.  So two such rules never say different things about a line; one
with more prefixes recognises what the other does; and with the same prefixes, in any order and any number of times, they
are the same. -/
theorem parseLine?_listing (hP : SlashEnded P) (hQ : SlashEnded Q) (line : List Char) :
    (∀ r, (ofPrefixes P).parseLine? line = some r ↔ ∃ imported, Import.Line.ofChars? line = some imported ∧
      Fits P imported.path.toList ∧ Reference.ofImport? imported = some r) ∧
    (∀ r s, (ofPrefixes P).parseLine? line = some r → (ofPrefixes Q).parseLine? line = some s → r = s) ∧
    (P ⊆ Q → ∀ r, (ofPrefixes P).parseLine? line = some r → (ofPrefixes Q).parseLine? line = some r) ∧
    ((∀ p, p ∈ P ↔ p ∈ Q) → (ofPrefixes P).parseLine? line = (ofPrefixes Q).parseLine? line) := by
  refine ⟨fun r => parseLine?_eq_some_iff hP, ?_, ?_, ?_⟩
  · intro r s hr hs
    obtain ⟨imported, hline, -, hr⟩ := (parseLine?_eq_some_iff hP).1 hr
    obtain ⟨imported', hline', -, hs⟩ := (parseLine?_eq_some_iff hQ).1 hs
    obtain rfl : imported = imported' := Option.some.inj (hline.symm.trans hline')
    exact Option.some.inj (hr.symm.trans hs)
  · intro hsub r hr
    exact parseLine?_mono hP hQ hsub hr
  · intro hmem
    ext r
    exact ⟨parseLine?_mono hP hQ fun p => (hmem p).1, parseLine?_mono hQ hP fun p => (hmem p).2⟩

/-- Prefixes of which one begins with another. -/
def nestedPrefixes : List String := ["./components/", "./components/forms/"]

def fieldLine : List Char := "import Field from './components/forms/field.test.tsx';".toList

def fieldReference : Reference := ⟨⟨some "Field", [], []⟩, "./components/forms/field.test.tsx", "field.test"⟩

theorem parseLine?_listing_nestedPrefixes :
    SlashEnded nestedPrefixes ∧ SlashEnded ("./" :: nestedPrefixes.reverse) ∧
      (ofPrefixes nestedPrefixes).parseLine? fieldLine = some fieldReference ∧
      (ofPrefixes nestedPrefixes.tail).parseLine? fieldLine = some fieldReference ∧
      (ofPrefixes ("./" :: nestedPrefixes.reverse)).parseLine? fieldLine = some fieldReference ∧
      (ofPrefixes (nestedPrefixes.reverse ++ nestedPrefixes)).parseLine? fieldLine = some fieldReference := by
  have hP : SlashEnded nestedPrefixes := by decide
  have hQ : SlashEnded ("./" :: nestedPrefixes.reverse) := by decide
  have htail : SlashEnded nestedPrefixes.tail := by decide
  have htwice : SlashEnded (nestedPrefixes.reverse ++ nestedPrefixes) := by decide
  have himport : Import.Line.ofChars? fieldLine = some ⟨⟨some "Field", [], []⟩, "./components/forms/field.test.tsx"⟩ := by
    decide +kernel
  have hfits : Fits nestedPrefixes "./components/forms/field.test.tsx".toList :=
    ⟨"./components/", List.mem_cons_self, by decide⟩
  have hline := ((parseLine?_listing hP hQ fieldLine).1 fieldReference).2 ⟨_, himport, hfits, by decide +kernel⟩
  have hsome : ((ofPrefixes nestedPrefixes.tail).parseLine? fieldLine).isSome := by decide +kernel
  obtain ⟨r, hr⟩ := Option.isSome_iff_exists.1 hsome
  have hsame := (parseLine?_listing hP htail fieldLine).2.1 fieldReference r hline hr
  have hmore := (parseLine?_listing hP hQ fieldLine).2.2.1 (by simp) fieldReference hline
  have hagain := (parseLine?_listing hP htwice fieldLine).2.2.2 (by simp)
  exact ⟨hP, hQ, hline, hsame ▸ hr, hmore, hagain.symm.trans hline⟩

/-! ### Sources -/

/-- More prefixes find every reference of a source where it was found before. -/
theorem referenceLines_sublist (hP : SlashEnded P) (hQ : SlashEnded Q) (hsub : P ⊆ Q) (number : Nat)
    (lines : List (List Char)) :
    (Extraction.referenceLines (ofPrefixes P) number lines).Sublist
      (Extraction.referenceLines (ofPrefixes Q) number lines) := by
  induction lines generalizing number with
  | nil => exact List.Sublist.refl _
  | cons line lines ih =>
    rw [Extraction.referenceLines, Extraction.referenceLines]
    cases hline : (ofPrefixes P).parseLine? line with
    | some r =>
      rw [parseLine?_mono hP hQ hsub hline]
      exact (ih _).cons_cons _
    | none =>
      cases (ofPrefixes Q).parseLine? line with
      | some r => exact (ih _).cons _
      | none => exact ih _

end ReferenceRule

end CapsuleCompiler
