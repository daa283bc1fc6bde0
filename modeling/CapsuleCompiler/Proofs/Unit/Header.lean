import CapsuleCompiler.Proofs.Text.Trimming
import CapsuleCompiler.Proofs.Unit.Extraction

/-!
# Proofs.Unit.Header — the names that the header of a module declares

The header of a module has some lines for each reference of its source, in the order of the references, and no others.
`Declares` says what these lines are: an import that is read as the bindings of the reference, with its aliases behind
it, or a declaration for each of its names where its capsule is not compiled.  As a reference has the names of all
lines that it is gathered from, a name that an import of the source binds is bound by a line of the header
(`header_binds_names`).
-/

namespace CapsuleCompiler

variable {rule : ReferenceRule} {catalog : Catalog} {env : StubEnvironment}

/-! ### Lines of a header -/

namespace HeaderLine

variable {b : Import.Bindings} {id : CapsuleId}

theorem ofText?_sibling (hb : b.Proper) (hid : Plain id.text.toList) :
    Import.Line.ofText? (sibling b id).text = some ⟨⟨b.main, [], b.named⟩, "./" ++ id.text⟩ := by
  have hpath : ("./" ++ id.text).toList = '.' :: '/' :: id.text.toList := by rw [String.toList_append]; rfl
  have hne : ("./" ++ id.text).toList ≠ [] := by
    rw [hpath]
    exact List.cons_ne_nil _ _
  have hquote : '\'' ∉ ("./" ++ id.text).toList := by
    rw [hpath]
    simpa using hid.unquoted
  have htext : (sibling b id).text = "import " ++ b.clause ++ " from '" ++ ("./" ++ id.text) ++ "'" := by
    have hfrom : " from './" = " from '" ++ "./" := rfl
    rw [text, hfrom]
    simp only [String.append_assoc]
  rw [htext]
  exact Import.Line.ofText?_import hb hne hquote

theorem inLine_sibling (hb : b.Proper) (hid : Plain id.text.toList) : Text.InLine (sibling b id).text.toList := by
  rw [text, String.toList_append, String.toList_append, String.toList_append, String.toList_append]
  exact ((((by decide : Text.InLine "import ".toList).append hb.inLine_clause).append (by decide)).append
    hid.inLine).append (by decide)

theorem inLine_another {name main : String} (hname : Naming.isIdentifier name) (hmain : Naming.isIdentifier main) :
    Text.InLine (another name main).text.toList := by
  have hname := (Naming.plain_of_isIdentifier hname).inLine
  have hmain := (Naming.plain_of_isIdentifier hmain).inLine
  rw [text, String.toList_append, String.toList_append, String.toList_append]
  exact (((by decide : Text.InLine "const ".toList).append hname).append (by decide)).append hmain

theorem inLine_fallback {name : String} (hname : Naming.isIdentifier name) (hid : Plain id.text.toList) :
    Text.InLine (fallback name id).text.toList := by
  have hname := (Naming.plain_of_isIdentifier hname).inLine
  rw [text, String.toList_append, String.toList_append, String.toList_append]
  exact (((by decide : Text.InLine "const ".toList).append hname).append (by decide)).append hid.inLine

end HeaderLine

namespace Module

/-! ### What lines declare -/

/-- A line that gives a name its meaning. -/
inductive Binds : String → String → Prop
  | imported {line name : String} {l : Import.Line} (hread : Import.Line.ofText? line = some l)
    (hname : name ∈ l.bindings.locals) : Binds line name
  | declared {name : String} (hname : Naming.isIdentifier name) (value : String) :
    Binds ("const " ++ name ++ " = " ++ value) name

/-- The lines that a module has for a reference. -/
inductive Declares (env : StubEnvironment) (d : Dependency) : List String → Prop
  | sibling {line : String} {aliases : List String} (hknown : env.contains d.capsule)
    (hread : Import.Line.ofText? line = some ⟨⟨d.bindings.main, [], d.bindings.named⟩, "./" ++ d.capsule.text⟩)
    (haliases : List.Forall₂ (fun name l => ∃ main, d.bindings.main = some main ∧ l = "const " ++ name ++ " = " ++ main)
      d.bindings.aliases aliases) : Declares env d (line :: aliases)
  | fallback (hunknown : ¬env.contains d.capsule) :
    Declares env d (d.bindings.locals.map fun name =>
      "const " ++ name ++ " = () => null // unresolved capsule: " ++ d.capsule.text)

/-- Bindings and capsule of a reference that can be written. -/
def Writable (d : Dependency) : Prop := d.bindings.Proper ∧ Plain d.capsule.text.toList

/-- References of a source can be written. -/
theorem writable_of_ofDefinition (rule : ReferenceRule) (catalog : Catalog) (placed : Bool) (e : CapsuleDefinition) :
    ∀ d ∈ (CompilationUnit.ofDefinition rule catalog placed e).extraction.references, Writable d :=
  fun _ h => ⟨Extraction.proper_of_mem_references h, Extraction.plain_of_mem_references h⟩

variable {d : Dependency}

theorem declares_linesFor (env : StubEnvironment) (hd : Writable d) :
    Declares env d ((linesFor env d).map HeaderLine.text) := by
  unfold linesFor
  by_cases hknown : env.contains d.capsule
  · rw [if_pos hknown]
    refine .sibling hknown (HeaderLine.ofText?_sibling hd.1 hd.2) ?_
    unfold aliasLines
    cases hmain : d.bindings.main with
    | none =>
      rw [hd.1.aliased hmain]
      exact .nil
    | some main =>
      dsimp only
      rw [List.map_map, List.forall₂_map_right_iff, List.forall₂_same]
      exact fun name _ => ⟨main, rfl, rfl⟩
  · rw [if_neg hknown, List.map_map]
    exact .fallback hknown

/-- The lines for a reference bind all its names. -/
theorem Declares.binds {lines : List String} (h : Declares env d lines) (hd : d.bindings.Proper) {name : String}
    (hname : name ∈ d.bindings.locals) : ∃ l ∈ lines, Binds l name := by
  have hidentifier := hd.isIdentifier hname
  cases h with
  | @sibling line aliases hknown hread haliases =>
    by_cases halias : name ∈ d.bindings.aliases
    · -- Every alias has its line.
      obtain ⟨i, hi, rfl⟩ := List.mem_iff_getElem.1 halias
      have hline : i < aliases.length := haliases.length_eq ▸ hi
      obtain ⟨main, -, htext⟩ := haliases.get hi hline
      exact ⟨_, List.mem_cons_of_mem _ (List.get_mem _ ⟨i, hline⟩), htext ▸ .declared hidentifier main⟩
    · refine ⟨line, List.mem_cons_self, .imported hread ?_⟩
      simp only [Import.Bindings.locals, List.mem_append] at hname ⊢
      tauto
  | fallback hunknown =>
    refine ⟨_, List.mem_map_of_mem hname, ?_⟩
    have hvalue : "const " ++ name ++ " = () => null // unresolved capsule: " ++ d.capsule.text =
        "const " ++ name ++ " = " ++ ("() => null // unresolved capsule: " ++ d.capsule.text) := by
      have hsplit : " = () => null // unresolved capsule: " = " = " ++ "() => null // unresolved capsule: " := rfl
      rw [hsplit]
      simp only [String.append_assoc]
    rw [hvalue]
    exact .declared hidentifier _

theorem inLine_linesFor (hd : Writable d) {l : HeaderLine} (hl : l ∈ linesFor env d) : Text.InLine l.text.toList := by
  unfold linesFor at hl
  split_ifs at hl
  · rcases List.mem_cons.1 hl with rfl | hl
    · exact HeaderLine.inLine_sibling hd.1 hd.2
    · unfold aliasLines at hl
      split at hl
      · cases hl
      · next main hmain =>
        obtain ⟨name, hname, rfl⟩ := List.mem_map.1 hl
        exact HeaderLine.inLine_another (hd.1.aliases name hname) (hd.1.main main hmain)
  · obtain ⟨name, hname, rfl⟩ := List.mem_map.1 hl
    exact HeaderLine.inLine_fallback (hd.1.isIdentifier hname) hd.2

theorem inLine_header (env : StubEnvironment) {s : Stub} (hs : ∀ d ∈ s.dependencies, Writable d) :
    ∀ l ∈ (ofStub env s).header, Text.InLine l.text.toList := by
  intro l hl
  rw [header_ofStub] at hl
  obtain ⟨d, hd, hl⟩ := List.mem_flatMap.1 hl
  exact inLine_linesFor (hs d hd) hl

/-! ### The header in the text -/

theorem notMem_splitDirective {body line rest : List Char} (h : splitDirective body = (some line, rest)) :
    '\n' ∉ line := by
  unfold splitDirective at h
  dsimp only at h
  split_ifs at h
  · cases h
    refine Text.notMem_trimEnd (Text.notMem_trimStart fun hmem => ?_)
    simpa using List.mem_takeWhile_imp hmem
  · cases h

/-- The directive of a module stands within a line. -/
theorem notMem_directive {s : Stub} {line : String} (h : (ofStub env s).directive = some line) :
    '\n' ∉ line.toList := by
  obtain ⟨cs, hcs, rfl⟩ := Option.map_eq_some_iff.1 h
  rw [String.toList_ofList]
  exact notMem_splitDirective (Prod.ext hcs rfl)

/-- The lines of a module in front of its body. -/
def opening (m : Module) : List String :=
  (m.directive.toList.flatMap fun line => [line, ""]) ++
    if m.header.isEmpty then [] else m.header.map HeaderLine.text ++ [""]

theorem toList_text (m : Module) :
    m.text.toList = (m.opening.map String.toList).flatMap (· ++ ['\n']) ++ (m.body ++ "\n").toList := by
  have hheader : (if m.header.isEmpty then "" else "\n".intercalate (m.header.map HeaderLine.text) ++ "\n\n").toList =
      ((if m.header.isEmpty then [] else m.header.map HeaderLine.text ++ [""]).map String.toList).flatMap
        (· ++ ['\n']) := by
    split
    · rfl
    · next hempty => exact Text.toList_intercalate_newline (by simpa using hempty)
  unfold text opening
  rw [String.append_assoc, String.toList_append, String.toList_append, hheader, List.map_append, List.flatMap_append]
  cases m.directive with
  | none => simp
  | some line => simp

theorem notMem_of_mem_opening {m : Module} (hdirective : ∀ line ∈ m.directive, '\n' ∉ line.toList)
    (hheader : ∀ l ∈ m.header, '\n' ∉ l.text.toList) : ∀ l ∈ m.opening.map String.toList, '\n' ∉ l := by
  intro l hl
  obtain ⟨line, hline, rfl⟩ := List.mem_map.1 hl
  rcases List.mem_append.1 hline with hline | hline
  · obtain ⟨directive, hmem, hline⟩ := List.mem_flatMap.1 hline
    rcases List.mem_cons.1 hline with rfl | hline
    · exact hdirective _ (Option.mem_toList.1 hmem)
    · rw [List.mem_singleton.1 hline]
      exact List.not_mem_nil
  · split at hline
    · cases hline
    · rcases List.mem_append.1 hline with hline | hline
      · obtain ⟨l, hmem, rfl⟩ := List.mem_map.1 hline
        exact hheader l hmem
      · rw [List.mem_singleton.1 hline]
        exact List.not_mem_nil

/-- The lines of the header stand in the text of a module one below the other. -/
theorem lines_text {m : Module} (hdirective : ∀ line ∈ m.directive, '\n' ∉ line.toList)
    (hheader : ∀ l ∈ m.header, Text.InLine l.text.toList) :
    ∃ front back, Text.lines m.text.toList = front ++ m.header.map (·.text.toList) ++ back := by
  have hkeep : ((m.header.map HeaderLine.text).map String.toList).map Text.dropReturn =
      m.header.map (·.text.toList) := by
    have hlines : ∀ l ∈ m.header.map (·.text.toList), Text.InLine l := by simpa using hheader
    have hmap : (m.header.map HeaderLine.text).map String.toList = m.header.map (·.text.toList) := List.map_map
    rw [hmap, Text.map_dropReturn hlines]
  rw [toList_text, Text.lines_flatMap_feed (notMem_of_mem_opening hdirective fun l hl => (hheader l hl).1)]
  by_cases hempty : m.header.isEmpty
  · rw [List.isEmpty_iff.1 hempty]
    exact ⟨_, [], by rw [List.map_nil, List.append_nil, List.append_nil]⟩
  · rw [opening, if_neg hempty]
    simp only [List.map_append, hkeep, List.append_assoc]
    exact ⟨_, _, rfl⟩

end Module

/-! ### Headers of units -/

namespace CompilationUnit

theorem mem_collect_of_mem_distinct {ds : List CapsuleDefinition} {d : CapsuleDefinition} (h : d ∈ distinct [] ds) :
    ofDefinition rule catalog true d ∈ collect rule catalog ds := by
  obtain ⟨later, heq, -⟩ := closure_eq_append rule catalog
    (catalog.definitions.filter fun d => !((distinct [] ds).map (·.id)).contains d.id)
    ((distinct [] ds).map (ofDefinition rule catalog true))
  rw [collect, heq]
  exact List.mem_append_left _ (List.mem_map_of_mem h)

theorem writable_of_mem_references {u : CompilationUnit} {ds : List CapsuleDefinition}
    (hu : u ∈ collect rule catalog ds) {d : Dependency} (hd : d ∈ u.extraction.references) : Module.Writable d := by
  obtain ⟨placed, e, rfl⟩ := exists_ofDefinition_of_mem_collect hu
  exact Module.writable_of_ofDefinition rule catalog placed e d hd

end CompilationUnit

namespace Module

open CompilationUnit (collect)
open Extraction (lineReferences)

/-- **Names of imports.**  A unit has a reference for each capsule that its lines name, in the order in which they name
it first, with the bindings of all these lines taken together.  The header of its module has the lines for each
reference in this order and no others, stands so in the text, and binds every name that a line of the source binds. -/
theorem header_binds_names {ds : List CapsuleDefinition} {u : CompilationUnit} (hu : u ∈ collect rule catalog ds)
    (env : StubEnvironment) :
    u.references = ((lineReferences rule u.definition.source).map Reference.capsule).eraseDups ∧
    (∀ d ∈ u.extraction.references, ∃ first more,
      (lineReferences rule u.definition.source).filter (·.capsule = d.capsule) = first :: more ∧
        d.bindings = more.foldl (fun b r => b.merge r.bindings) first.bindings) ∧
    ∃ blocks, List.Forall₂ (Declares env) u.extraction.references blocks ∧
      (ofStub env (.ofUnit rule u)).header.map HeaderLine.text = blocks.flatten ∧
      (∃ front back, Text.lines (ofStub env (.ofUnit rule u)).text.toList =
        front ++ blocks.flatten.map String.toList ++ back) ∧
      ∀ line ∈ Text.lines u.definition.source.toList, ∀ r, rule.parseLine? line = some r →
        ∀ name ∈ r.bindings.locals, ∃ l ∈ blocks.flatten, Binds l name := by
  have hwritable : ∀ d ∈ u.extraction.references, Writable d := fun d => CompilationUnit.writable_of_mem_references hu
  have hheader : (ofStub env (.ofUnit rule u)).header.map HeaderLine.text =
      (u.extraction.references.map fun d => (linesFor env d).map HeaderLine.text).flatten := by
    rw [header_ofStub, List.map_flatMap, List.flatMap_def]
    rfl
  have hlines := inLine_header env (s := .ofUnit rule u) hwritable
  obtain ⟨placed, e, rfl⟩ := CompilationUnit.exists_ofDefinition_of_mem_collect hu
  refine ⟨Extraction.ids_ofSource .., fun d hd => Extraction.bindings_of_mem_references hd, _, ?_, hheader, ?_, ?_⟩
  · rw [List.forall₂_map_right_iff, List.forall₂_same]
    exact fun d hd => declares_linesFor env (hwritable d hd)
  · obtain ⟨front, back, htext⟩ := lines_text (fun _ => notMem_directive) hlines
    refine ⟨front, back, ?_⟩
    rw [htext, ← hheader, List.map_map]
    rfl
  · intro line hline r hr name hname
    have hmem : r ∈ lineReferences rule e.source := List.mem_filterMap.2 ⟨line, hline, hr⟩
    obtain ⟨d, hd, hcapsule⟩ := Extraction.exists_mem_references_of_line hmem
    have hlocal : name ∈ d.bindings.locals := (Extraction.mem_locals_iff hd).2 ⟨r, hmem, hcapsule.symm, hname⟩
    obtain ⟨l, hl, hbinds⟩ := (declares_linesFor env (hwritable d hd)).binds (hwritable d hd).1 hlocal
    exact ⟨l, List.mem_flatten.2 ⟨_, List.mem_map_of_mem hd, hl⟩, hbinds⟩

/-- A page that names one capsule in two lines, with a name for each, and another that there is not. -/
def galleryPage : CapsuleDefinition :=
  ⟨⟨"gallery"⟩, "Gallery", "",
    "import Card from '@/card'\nimport Tile, \x7b Size as S \x7d from '@/card'\nimport Sun, \x7b Ray \x7d from '@/sun'",
    .none, none, .empty⟩

def galleryCard : CapsuleDefinition := ⟨⟨"card"⟩, "Card", "", "", .none, none, .empty⟩

def galleryCatalog : Catalog := .ofList [galleryPage, galleryCard]

def galleryRule : ReferenceRule := .ofPrefixes ["@/"]

def galleryUnit : CompilationUnit := .ofDefinition galleryRule galleryCatalog true galleryPage

def galleryStubs : StubEnvironment := .ofUnits galleryRule (collect galleryRule galleryCatalog [galleryPage])

theorem header_binds_names_gallery : galleryUnit ∈ collect galleryRule galleryCatalog [galleryPage] ∧
    (ofStub galleryStubs (.ofUnit galleryRule galleryUnit)).header.map HeaderLine.text =
      ["import Card, \x7b Size as S \x7d from './card'", "const Tile = Card",
        "const Sun = () => null // unresolved capsule: sun",
        "const Ray = () => null // unresolved capsule: sun"] ∧
    ∀ line ∈ Text.lines galleryPage.source.toList, ∀ r, galleryRule.parseLine? line = some r →
      ∀ name ∈ r.bindings.locals,
        ∃ l ∈ (ofStub galleryStubs (.ofUnit galleryRule galleryUnit)).header.map HeaderLine.text, Binds l name := by
  have hunit : galleryUnit ∈ collect galleryRule galleryCatalog [galleryPage] :=
    CompilationUnit.mem_collect_of_mem_distinct (by simp [CompilationUnit.distinct])
  obtain ⟨-, -, blocks, -, hheader, -, hbinds⟩ := header_binds_names hunit galleryStubs
  exact ⟨hunit, by decide +kernel, fun line hline r hr name hname => hheader ▸ hbinds line hline r hr name hname⟩

end Module

end CapsuleCompiler
