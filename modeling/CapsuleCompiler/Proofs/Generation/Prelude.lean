import CapsuleCompiler.Generator
import CapsuleCompiler.Proofs.Fallible
import CapsuleCompiler.Proofs.Generation.Rendering
import CapsuleCompiler.Proofs.Text.Lines
import CapsuleCompiler.Proofs.Text.Names

/-!
# Proofs.Generation.Prelude — the lines before the exported function

A page begins with the lines of its prelude, and the line of its exported function follows them.  Symbols are
identifiers and capsules canonical, so none of these lines has a line end inside, and an import of a capsule has no
quote but the two around its path: what stands between them tells the capsule.
-/

namespace CapsuleCompiler

/-! ### Imports of capsules -/

namespace CapsuleImport

theorem toList_text (i : CapsuleImport) :
    i.text.toList = ("import ".toList ++ i.symbol.toList ++ " from ".toList) ++
      '\'' :: ((base.toList ++ i.capsule.text.toList) ++ '\'' :: []) := by
  unfold text
  rw [String.toList_append, String.toList_append, String.toList_append, String.toList_append, String.toList_append]
  have hfrom : " from '".toList = " from ".toList ++ ['\''] := rfl
  have hquote : "'".toList = ['\''] := rfl
  rw [hfrom, hquote]
  simp only [List.append_assoc, List.cons_append, List.nil_append]

theorem inLine_text {i : CapsuleImport} (hsymbol : Plain i.symbol.toList) (hcapsule : Plain i.capsule.text.toList) :
    Text.InLine i.text.toList := by
  have hpath : Text.InLine (base.toList ++ i.capsule.text.toList) := .append (by decide) hcapsule.inLine
  rw [toList_text]
  exact .append (.append (.append (by decide) hsymbol.inLine) (by decide))
    (.append (by decide : Text.InLine ['\'']) (hpath.append (by decide)))

theorem count_text (i : CapsuleImport) :
    i.text.toList.count '\'' = i.symbol.toList.count '\'' + i.capsule.text.toList.count '\'' + 2 := by
  have himport : "import ".toList.count '\'' = 0 := by decide
  have hfrom : " from ".toList.count '\'' = 0 := by decide
  have hbase : base.toList.count '\'' = 0 := by decide
  rw [toList_text, List.count_append, List.count_append, List.count_append, List.count_cons_self, List.count_append,
    List.count_append, List.count_cons_self, List.count_nil, himport, hfrom, hbase]
  omega

/-- What a line with no more quotes than an import needs has between them, if it is an import. -/
theorem quoted_text {line : List Char} (i : CapsuleImport) (h : i.text.toList = line)
    (hcount : line.count '\'' ≤ 2) :
    (Text.splitOn '\'' line)[1]? = some (base.toList ++ i.capsule.text.toList) := by
  rw [← h, count_text] at hcount
  have hsymbol : '\'' ∉ i.symbol.toList := List.count_eq_zero.1 (by omega)
  have hcapsule : '\'' ∉ i.capsule.text.toList := List.count_eq_zero.1 (by omega)
  have hbefore : '\'' ∉ "import ".toList ++ i.symbol.toList ++ " from ".toList := by
    simp only [List.mem_append, not_or]
    exact ⟨⟨by decide, hsymbol⟩, by decide⟩
  have hpath : '\'' ∉ base.toList ++ i.capsule.text.toList := by
    simp only [List.mem_append, not_or]
    exact ⟨by decide, hcapsule⟩
  rw [← h, toList_text, Text.splitOn_append_cons hbefore, Text.splitOn_append_cons hpath]
  rfl

theorem capsule_eq_of_text_eq {i j : CapsuleImport} (h : i.text = j.text) (hsymbol : Plain j.symbol.toList)
    (hcapsule : Plain j.capsule.text.toList) : i.capsule = j.capsule := by
  have hcount : j.text.toList.count '\'' ≤ 2 := by
    have hs := List.count_eq_zero.2 hsymbol.unquoted
    have hc := List.count_eq_zero.2 hcapsule.unquoted
    have htext := j.count_text
    omega
  have hi := i.quoted_text (congrArg String.toList h) hcount
  rw [j.quoted_text rfl hcount] at hi
  exact CapsuleId.eq_of_toList (List.append_cancel_left (Option.some.inj hi)).symm

end CapsuleImport

/-! ### Imports of a plan -/

namespace Plan

theorem requireCanonical_eq_ok {id : CapsuleId} : requireCanonical id = .ok () ↔ id.isCanonical := by
  rw [requireCanonical]
  split <;> simp_all

theorem symbolOf_eq_ok {id : CapsuleId} {symbol : String} (h : symbolOf id = .ok symbol) :
    id.isCanonical ∧ symbol = id.symbol ∧ Naming.isIdentifier symbol := by
  obtain ⟨⟨⟩, hcanonical, h⟩ := bind_eq_ok.1 h
  split at h
  · next hident =>
    cases h
    exact ⟨requireCanonical_eq_ok.1 hcanonical, rfl, hident⟩
  · cases h

/-- Every import names a placed capsule, under the symbol of that capsule. -/
theorem importsOf_eq_ok {seen : List CapsuleId} {ps : List PlacedNode} {imports : List CapsuleImport}
    (h : importsOf seen ps = .ok imports) {i : CapsuleImport} (hi : i ∈ imports) :
    i.capsule ∈ ps.map (·.definition.id) ∧ symbolOf i.capsule = .ok i.symbol := by
  induction ps generalizing seen imports with
  | nil =>
    cases h
    cases hi
  | cons p ps ih =>
    rw [importsOf] at h
    split at h
    · obtain ⟨hmem, hsymbol⟩ := ih h hi
      exact ⟨List.mem_cons_of_mem _ hmem, hsymbol⟩
    · obtain ⟨symbol, hsymbol, h⟩ := bind_eq_ok.1 h
      obtain ⟨rest, hrest, h⟩ := bind_eq_ok.1 h
      cases h
      rcases List.mem_cons.1 hi with rfl | hi
      · exact ⟨List.mem_cons_self, hsymbol⟩
      · obtain ⟨hmem, hsymbol⟩ := ih hrest hi
        exact ⟨List.mem_cons_of_mem _ hmem, hsymbol⟩

/-- A plan is put together from its imports, its variables and its elements. -/
theorem ofValidation_eq_ok_iff {plan : Plan} {name : String} {v : Validation} : ofValidation name v = .ok plan ↔
    importsOf [] v.placed = .ok plan.imports ∧ StateVariable.ensureAll [] (sources v) = .ok plan.state ∧
      elementsOf v plan.state v.placed = .ok plan.elements ∧ plan.symbol = Naming.compositionSymbol name ∧
      plan.title = titleOf name := by
  simp only [ofValidation, bind_eq_ok]
  constructor
  · rintro ⟨imports, himports, state, hstate, elements, helements, h⟩
    cases h
    exact ⟨himports, hstate, helements, rfl, rfl⟩
  · rintro ⟨himports, hstate, helements, hsymbol, htitle⟩
    refine ⟨_, himports, _, hstate, _, helements, ?_⟩
    rw [← hsymbol, ← htitle]
    rfl

theorem ofValidation_eq_ok {plan : Plan} {name : String} {v : Validation} (h : ofValidation name v = .ok plan) :
    importsOf [] v.placed = .ok plan.imports ∧ StateVariable.ensureAll [] (sources v) = .ok plan.state ∧
      elementsOf v plan.state v.placed = .ok plan.elements ∧ plan.symbol = Naming.compositionSymbol name := by
  obtain ⟨himports, hstate, helements, hsymbol, -⟩ := ofValidation_eq_ok_iff.1 h
  exact ⟨himports, hstate, helements, hsymbol⟩

/-- The symbol and the capsule of an import stay within the line. -/
theorem imports_eq_ok {plan : Plan} {name : String} {v : Validation} (h : ofValidation name v = .ok plan)
    {i : CapsuleImport} (hi : i ∈ plan.imports) :
    i.capsule ∈ v.placed.map (·.definition.id) ∧ Plain i.symbol.toList ∧ Plain i.capsule.text.toList := by
  obtain ⟨hplaced, hsymbol⟩ := importsOf_eq_ok (ofValidation_eq_ok h).1 hi
  obtain ⟨hcanonical, -, hident⟩ := symbolOf_eq_ok hsymbol
  exact ⟨hplaced, Naming.plain_of_isIdentifier hident, CapsuleId.plain_of_isCanonical hcanonical⟩

/-! ### Lines of a prelude -/

/-- The lines of the imports, with further ones behind those of the capsules. -/
def importLines (plan : Plan) (further : List String) : List String :=
  (if plan.state.isEmpty then [] else ["import \x7b useState \x7d from 'react'"]) ++
    plan.imports.map CapsuleImport.text ++ further

/-- All lines before the exported function: a directive with state, then the imports, each with a blank line. -/
def preludeLines (plan : Plan) (further : List String) : List String :=
  (if plan.state.isEmpty then [] else ["'use client'", ""]) ++
    (if (plan.importLines further).isEmpty then [] else plan.importLines further ++ [""])

theorem toList_prelude (plan : Plan) (further : List String) :
    (plan.prelude further).toList = ((plan.preludeLines further).map String.toList).flatMap (· ++ ['\n']) := by
  have hdirective : (if plan.state.isEmpty then "" else "'use client'\n\n").toList =
      ((if plan.state.isEmpty then [] else ["'use client'", ""]).map String.toList).flatMap (· ++ ['\n']) := by
    split <;> rfl
  have himports : (if (plan.importLines further).isEmpty then ""
      else "\n".intercalate (plan.importLines further) ++ "\n\n").toList =
      ((if (plan.importLines further).isEmpty then [] else plan.importLines further ++ [""]).map
        String.toList).flatMap (· ++ ['\n']) := by
    split
    · rfl
    · next h => exact Text.toList_intercalate_newline (by simpa using h)
  rw [preludeLines, List.map_append, List.flatMap_append, ← hdirective, ← himports]
  exact String.toList_append

/-- The lines of an application's prelude that are no imports of capsules. -/
def otherLines : List String := ["'use client'", "", "import \x7b useState \x7d from 'react'", "import './globals.css'"]

theorem mem_preludeLines_of_subset {plan : Plan} {further : List String} (hfurther : further ⊆ otherLines) {l : String}
    (h : l ∈ plan.preludeLines further) : l ∈ otherLines ∨ ∃ i ∈ plan.imports, i.text = l := by
  have himports : ∀ l ∈ plan.importLines further, l ∈ otherLines ∨ ∃ i ∈ plan.imports, i.text = l := by
    intro l hl
    rw [importLines, List.mem_append, List.mem_append] at hl
    rcases hl with (hl | hl) | hl
    · split at hl
      · cases hl
      · exact .inl (by simp_all [otherLines])
    · exact .inr (List.mem_map.1 hl)
    · exact .inl (hfurther hl)
  rw [preludeLines, List.mem_append] at h
  rcases h with h | h
  · split at h
    · cases h
    · refine .inl ?_
      simp only [List.mem_cons, List.not_mem_nil, or_false] at h
      rcases h with rfl | rfl <;> simp [otherLines]
  · split at h
    · cases h
    · rcases List.mem_append.1 h with h | h
      · exact himports l h
      · exact .inl (by simp_all [otherLines])

theorem mem_preludeLines {plan : Plan} {l : String} (h : l ∈ plan.preludeLines ["import './globals.css'"]) :
    l ∈ otherLines ∨ ∃ i ∈ plan.imports, i.text = l :=
  mem_preludeLines_of_subset (by simp [otherLines]) h

end Plan

theorem CapsuleImport.text_notMem_otherLines (i : CapsuleImport) : i.text ∉ Plan.otherLines := by
  intro hmem
  have hcount : ∀ l ∈ Plan.otherLines, l.toList.count '\'' ≤ 2 := by decide
  have hquoted : ∀ l ∈ Plan.otherLines, ∀ piece ∈ (Text.splitOn '\'' l.toList)[1]?, piece.head? ≠ some '@' := by decide
  exact hquoted _ hmem _ (i.quoted_text rfl (hcount _ hmem)) rfl

/-! ### The page -/

namespace Generator

/-- What the line of an exported function begins with. -/
def exportStart : List Char := "export default function ".toList

/-- The lines of a file before its exported function. -/
def linesBeforeExport (text : String) : List (List Char) :=
  (Text.lines text.toList).takeWhile fun line => !exportStart.isPrefixOf line

variable {plan : Plan} {further : List String} {columns : Nat} {inFragment : Bool} {page : String}

/-- The values of the keys of a main file. -/
def fillings (plan : Plan) (further : List String) (columns : Nat) (inFragment : Bool) : Dict String := .ofList [
  ("prelude", plan.prelude further),
  ("symbol", plan.symbol),
  ("state", plan.stateBlock),
  ("markup", Markup.Element.block plan.elements columns inFragment),
  ("title", plan.title)]

theorem get?_fillings (key : String) :
    (fillings plan further columns inFragment).get? key = [("title", plan.title),
      ("markup", Markup.Element.block plan.elements columns inFragment), ("state", plan.stateBlock),
      ("symbol", plan.symbol), ("prelude", plan.prelude further)].lookup key :=
  Dict.get?_ofList _ key

theorem bound_componentParts (plan : Plan) (further : List String) (columns : Nat) (inFragment : Bool) :
    Template.componentParts.all (Template.Part.bound (fillings plan further columns inFragment)) := by
  simp [Template.componentParts, Template.Part.bound, fillings, Dict.contains, Dict.get?_ofList, List.lookup_cons]

theorem bound_pageParts (plan : Plan) (further : List String) (columns : Nat) (inFragment : Bool) :
    Template.pageParts.all (Template.Part.bound (fillings plan further columns inFragment)) := by
  simp [Template.pageParts, Template.Part.bound, fillings, Dict.contains, Dict.get?_ofList, List.lookup_cons]

/-- How the built-in templates begin; `opening` stands behind the symbol of the exported function. -/
def mainParts (opening : String) (more : List Template.Part) : List Template.Part :=
  .slot "prelude" :: .text "export default function " :: .slot "symbol" :: .text opening :: .slot "state" :: more

theorem fill_mainParts {t : Template} {opening : String} {more : List Template.Part}
    (hsource : t.source = String.join ((mainParts opening more).map Template.Part.source))
    (hfits : (mainParts opening more).all Template.Part.fits)
    (hbound : (mainParts opening more).all (Template.Part.bound (fillings plan further columns inFragment))) :
    ∃ rest, fill t plan further columns inFragment = .ok (plan.prelude further ++ "export default function " ++
      plan.symbol ++ opening ++ plan.stateBlock ++ rest) := by
  refine ⟨String.join (more.map (Template.Part.filled (fillings plan further columns inFragment))),
    (Template.render_parts hsource hfits hbound).trans ?_⟩
  simp [mainParts, Template.Part.filled, get?_fillings, List.lookup_cons, String.append_assoc]

theorem fill_componentParts (plan : Plan) (further : List String) (columns : Nat) (inFragment : Bool) :
    ∃ rest, fill .component plan further columns inFragment = .ok (plan.prelude further ++
      "export default function " ++ plan.symbol ++ "() \x7b\n" ++ plan.stateBlock ++ rest) := by
  have hsource : Template.component.source =
      String.join ((mainParts "() \x7b\n" (Template.componentParts.drop 5)).map Template.Part.source) := rfl
  exact fill_mainParts hsource (by decide) (bound_componentParts ..)

theorem fill_pageParts (plan : Plan) (further : List String) (columns : Nat) (inFragment : Bool) :
    ∃ rest, fill .page plan further columns inFragment = .ok (plan.prelude further ++
      "export default function " ++ plan.symbol ++ "Page() \x7b\n" ++ plan.stateBlock ++ rest) := by
  have hsource : Template.page.source =
      String.join ((mainParts "Page() \x7b\n" (Template.pageParts.drop 5)).map Template.Part.source) := rfl
  exact fill_mainParts hsource (by decide) (bound_pageParts ..)

/-- A page always renders, to its prelude with the exported function behind it. -/
theorem fill_page (plan : Plan) (further : List String) (columns : Nat) (inFragment : Bool) :
    ∃ page rest, fill .page plan further columns inFragment = .ok page ∧
      page.toList = (plan.prelude further).toList ++ (exportStart ++ rest) := by
  obtain ⟨rest, h⟩ := fill_pageParts plan further columns inFragment
  refine ⟨_, (plan.symbol ++ "Page() \x7b\n" ++ plan.stateBlock ++ rest).toList, h, ?_⟩
  have hstart : exportStart = "export default function ".toList := rfl
  rw [hstart]
  -- A variable, so that its characters are not computed.
  generalize "export default function " = start
  simp only [String.toList_append, List.append_assoc]

theorem mem_linesBeforeExport (hlines : ∀ l ∈ plan.preludeLines further, Text.InLine l.toList)
    (h : fill .page plan further columns inFragment = .ok page) {line : List Char}
    (hline : line ∈ linesBeforeExport page) : ∃ l ∈ plan.preludeLines further, l.toList = line := by
  obtain ⟨page', rest, hfill, hpage⟩ := fill_page plan further columns inFragment
  cases hfill.symm.trans h
  have hexport : Text.InLine exportStart ∧ exportStart ≠ [] := by decide
  obtain ⟨first, more, hrest, hfirst⟩ := Text.lines_append hexport.1 hexport.2 rest
  rw [linesBeforeExport, hpage, Plan.toList_prelude, Text.lines_flatMap (by simpa using hlines), hrest,
    List.takeWhile_append] at hline
  split at hline
  · rw [List.takeWhile_cons_of_neg (by simpa using hfirst), List.append_nil] at hline
    exact List.mem_map.1 hline
  · exact List.mem_map.1 ((List.takeWhile_sublist _).subset hline)

end Generator

end CapsuleCompiler
