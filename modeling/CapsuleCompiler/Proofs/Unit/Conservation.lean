import CapsuleCompiler.Proofs.Text.Content
import CapsuleCompiler.Proofs.Unit.Header
import CapsuleCompiler.Proofs.Unit.Stripping

/-!
# Proofs.Unit.Conservation — the lines of a source in the text of its module

The text of a module is put together from a directive, a header and a body, and the body from the lines of the source
that make no reference.  Blanks and line ends move about on the way, the content does not: of a module it is the
directive, the lines of the header and the content of the own lines behind their directive (`text_conserves`).  A
source that has no own content gets that of an empty component in its place.
-/

namespace CapsuleCompiler

open Text (blank content lines trim)

variable {rule : ReferenceRule} {env : StubEnvironment}

/-! ### Directives -/

namespace Module

theorem ne_nil_of_isDirective {line : List Char} (h : isDirective line) : line ≠ [] := by
  rintro rfl
  cases h

/-- The first line of a body, up to its line feed, and what is behind it. -/
theorem exists_first_line (body : List Char) : ∃ first more,
    '\n' ∉ first ∧ (body = first ∨ body = first ++ '\n' :: more) ∧
    content (lines body) = content [first] ++ content (lines more) ∧
    splitDirective body =
      if isDirective (trim first) then (some (trim first), Text.trimStart more) else (none, body) := by
  by_cases hfeed : '\n' ∈ body
  · obtain ⟨first, more, rfl, hfirst⟩ := List.eq_append_cons_of_mem hfeed
    refine ⟨first, more, hfirst, .inr rfl, ?_, ?_⟩
    · rw [Text.content_lines_append_feed, Text.content_lines_of_notMem hfirst]
    · obtain ⟨htake, hdrop⟩ := Stub.cut_line hfirst more
      unfold splitDirective
      rw [htake, hdrop]
  · have hall := Import.Line.forall_ne_of_notMem hfeed
    refine ⟨body, [], hfeed, .inl rfl, ?_, ?_⟩
    · rw [Text.content_lines_of_notMem hfeed]
      exact (List.append_nil _).symm
    · unfold splitDirective
      rw [List.takeWhile_eq_self_iff.2 hall, List.dropWhile_eq_nil_iff.2 hall]
      rfl

/-- A directive is taken out of the content of a body. -/
theorem content_splitDirective (body : List Char) :
    content (lines body) = (splitDirective body).1.toList ++ content (lines (splitDirective body).2) := by
  obtain ⟨first, more, -, -, hcontent, hsplit⟩ := exists_first_line body
  rw [hsplit]
  split
  · next hdirective =>
    have hfirst : ¬blank first := mt Text.trim_of_blank (ne_nil_of_isDirective hdirective)
    rw [hcontent, Text.content_singleton, if_neg hfirst, Text.content_lines_trimStart]
    rfl
  · rfl

theorem content_directive (body : List Char) :
    content (splitDirective body).1.toList = (splitDirective body).1.toList := by
  obtain ⟨first, more, -, -, -, hsplit⟩ := exists_first_line body
  rw [hsplit]
  split
  · next hdirective =>
    have hfirst : ¬blank (trim first) := fun hblank =>
      ne_nil_of_isDirective hdirective (by rw [← Text.trim_trim, Text.trim_of_blank hblank])
    have hcontent := Text.content_singleton (trim first)
    rwa [if_neg hfirst, Text.trim_trim] at hcontent
  · rfl

/-- Of a body that begins with no blank, the directive is the first line of its content if that is one. -/
theorem splitDirective_eq_head? {body : List Char} (hstart : Text.trimStart body = body) (hne : body ≠ []) :
    (splitDirective body).1 = (content (lines body)).head?.filter isDirective := by
  obtain ⟨first, more, -, hbody, hcontent, hsplit⟩ := exists_first_line body
  have hfirst : ¬blank first := by
    intro hblank
    rcases hbody with rfl | rfl
    · exact hne (hstart ▸ Text.trimStart_of_blank hblank)
    · -- Trimming would make the body shorter.
      have hfeed : blank ['\n'] := by decide
      have hlength := (List.dropWhile_suffix (l := more) Text.isBlank).length_le
      rw [← List.singleton_append, Text.trimStart_append, if_pos hblank, Text.trimStart_append, if_pos hfeed] at hstart
      have hlonger := congrArg List.length hstart
      simp only [Text.trimStart, List.length_append, List.length_cons] at hlonger
      omega
  rw [hsplit, hcontent, Text.content_singleton, if_neg hfirst]
  by_cases hdirective : isDirective (trim first)
  · rw [if_pos hdirective]
    exact (Option.filter_some_pos hdirective).symm
  · rw [if_neg hdirective]
    exact (Option.filter_some_neg (Bool.eq_false_of_not_eq_true hdirective)).symm

/-! ### Text -/

/-- The parts of a module have their contents one behind the other. -/
theorem content_text {m : Module} (hdirective : ∀ line ∈ m.directive, '\n' ∉ line.toList)
    (hheader : ∀ l ∈ m.header, '\n' ∉ l.text.toList) : content (lines m.text.toList) =
      content (m.directive.toList.map String.toList) ++
        (content (m.header.map (·.text.toList)) ++ content (lines m.body.toList)) := by
  have hbody : content (lines (m.body ++ "\n").toList) = content (lines m.body.toList) := by
    rw [String.toList_append]
    exact Text.content_lines_append_blank (by decide) _
  have hfront : content ((m.directive.toList.flatMap fun line => [line, ""]).map String.toList) =
      content (m.directive.toList.map String.toList) := by
    cases m.directive with
    | none => rfl
    | some line => exact (Text.content_append [line.toList] [[]]).trans (List.append_nil _)
  have hheaders : content ((if m.header.isEmpty then [] else m.header.map HeaderLine.text ++ [""]).map String.toList) =
      content (m.header.map (·.text.toList)) := by
    split
    · next hempty =>
      rw [List.isEmpty_iff.1 hempty]
      rfl
    · rw [List.map_append, Text.content_append, List.map_map]
      exact List.append_nil _
  rw [toList_text, Text.lines_flatMap_feed (notMem_of_mem_opening hdirective hheader), Text.content_append,
    Text.content_map_dropReturn, hbody, opening, List.map_append, Text.content_append, hfront, hheaders,
    List.append_assoc]

end Module

/-! ### Bodies -/

namespace Stub

variable {symbol source : String}

theorem blank_ownText : blank (ownText rule source) ↔ content (ownLines rule source) = [] := by
  rw [ownText, Text.blank_trim, Text.blank_join, Text.content_eq_nil_iff]

theorem content_ownText (rule : ReferenceRule) (source : String) :
    content (lines (ownText rule source)) = content (ownLines rule source) := by
  rw [ownText, Text.content_lines_trim, Text.content_lines_join notMem_of_mem_ownLines]

/-- The lines of a component that shows nothing, without the blanks in front of them. -/
def emptyLines (symbol : String) : List (List Char) :=
  [(openingLine symbol).toList, "return null".toList, "\x7d".toList]

theorem content_emptyComponent (hsymbol : ∀ c ∈ symbol.toList, c.isAlphanum) :
    content (lines (emptyComponent symbol).toList) = emptyLines symbol := by
  obtain ⟨middle, hopening⟩ := exists_openingLine symbol
  have htrim : trim (openingLine symbol).toList = (openingLine symbol).toList := by
    rw [hopening]
    exact Text.trim_eq_self (by decide) (by decide) middle
  have hne : ¬blank (openingLine symbol).toList := by
    rw [← Text.trim_eq_nil_iff, htrim, hopening]
    exact List.cons_ne_nil _ _
  have hothers : content (lines "  return null\n\x7d".toList) = ["return null".toList, "\x7d".toList] := by decide
  rw [toList_emptyComponent, Text.content_lines_append_feed, hothers,
    Text.content_lines_of_notMem (inLine_openingLine hsymbol).1, Text.content_singleton, if_neg hne, htrim]
  rfl

theorem content_bodyOf (rule : ReferenceRule) (source : String) (hsymbol : ∀ c ∈ symbol.toList, c.isAlphanum) :
    content (lines (bodyOf rule symbol source).toList) =
      if content (ownLines rule source) = [] then emptyLines symbol else content (ownLines rule source) := by
  rw [toList_bodyOf]
  have hempty : ownText rule source = [] ↔ content (ownLines rule source) = [] := by
    rw [← blank_ownText, ownText, ← Text.trim_eq_nil_iff, Text.trim_trim]
  by_cases hown : content (ownLines rule source) = []
  · rw [if_pos (hempty.2 hown), if_pos hown, content_emptyComponent hsymbol]
  · rw [if_neg (mt hempty.1 hown), if_neg hown, content_ownText]

/-- The directive of a body is the first own line that is not blank, if that is one. -/
theorem directive_bodyOf (rule : ReferenceRule) (source : String) (hsymbol : ∀ c ∈ symbol.toList, c.isAlphanum) :
    (Module.splitDirective (bodyOf rule symbol source).toList).1 =
      (content (ownLines rule source)).head?.filter Module.isDirective := by
  rw [toList_bodyOf]
  by_cases hempty : ownText rule source = []
  · have hown : content (ownLines rule source) = [] := by
      rw [← blank_ownText, hempty]
      rfl
    rw [if_pos hempty, hown]
    cases hsplit : Module.splitDirective (emptyComponent symbol).toList with
    | mk d rest =>
      cases d with
      | none => rfl
      | some d => exact absurd hsplit (splitDirective_emptyComponent hsymbol d rest)
  · have hstart : Text.trimStart (ownText rule source) = ownText rule source := Text.trimStart_trim _
    rw [if_neg hempty, Module.splitDirective_eq_head? hstart hempty, content_ownText]

/-- The own content is the directive and what is behind it; without own content the component is behind. -/
theorem exists_behind_content (rule : ReferenceRule) (source : String)
    (hsymbol : ∀ c ∈ symbol.toList, c.isAlphanum) : ∃ rest,
    content (ownLines rule source) =
      (Module.splitDirective (bodyOf rule symbol source).toList).1.toList ++ rest ∧
    content (lines (Module.splitDirective (bodyOf rule symbol source).toList).2) =
      if content (ownLines rule source) = [] then emptyLines symbol else rest := by
  have hbody := content_bodyOf rule source hsymbol
  have hfirst := directive_bodyOf rule source hsymbol
  rw [Module.content_splitDirective] at hbody
  by_cases hown : content (ownLines rule source) = []
  · rw [hown, List.head?_nil, Option.filter_none] at hfirst
    rw [hfirst, if_pos hown, Option.toList_none, List.nil_append] at hbody
    refine ⟨[], ?_, ?_⟩
    · rw [hfirst, hown]
      rfl
    · rw [if_pos hown, hbody]
  · rw [if_neg hown] at hbody
    exact ⟨_, hbody.symm, (if_neg hown).symm⟩

end Stub

theorem HeaderLine.not_blank_text (l : HeaderLine) : ¬blank l.text.toList := by
  have himport : ¬blank "import ".toList := by decide
  have hconst : ¬blank "const ".toList := by decide
  cases l with
  | sibling bindings id =>
    rw [text, String.toList_append, String.toList_append, String.toList_append, String.toList_append]
    exact Text.not_blank_append (Text.not_blank_append (Text.not_blank_append (Text.not_blank_append himport)))
  | another name main =>
    rw [text, String.toList_append, String.toList_append, String.toList_append]
    exact Text.not_blank_append (Text.not_blank_append (Text.not_blank_append hconst))
  | fallback name id =>
    rw [text, String.toList_append, String.toList_append, String.toList_append]
    exact Text.not_blank_append (Text.not_blank_append (Text.not_blank_append hconst))

namespace Module

theorem map_toList_directive (env : StubEnvironment) (s : Stub) :
    (ofStub env s).directive.map String.toList = (splitDirective s.body.toList).1 := by
  have hdirective : (ofStub env s).directive = (splitDirective s.body.toList).1.map .ofList := rfl
  rw [hdirective, Option.map_map]
  exact (Option.map_congr fun _ _ => String.toList_ofList).trans Option.map_id'

theorem toList_body (env : StubEnvironment) (s : Stub) :
    (ofStub env s).body.toList = (splitDirective s.body.toList).2 :=
  String.toList_ofList

/-- The content of a module of a source. -/
theorem content_text_ofStub (env : StubEnvironment) {s : Stub} (hs : ∀ d ∈ s.dependencies, Writable d) :
    content (lines (ofStub env s).text.toList) = (splitDirective s.body.toList).1.toList ++
      ((ofStub env s).header.map (fun l => trim l.text.toList) ++
        content (lines (splitDirective s.body.toList).2)) := by
  have hheader : ∀ l ∈ (ofStub env s).header, '\n' ∉ l.text.toList := fun l hl => (inLine_header env hs l hl).1
  have hlines : ∀ l ∈ (ofStub env s).header.map (·.text.toList), ¬blank l := by
    intro l hl
    obtain ⟨line, -, rfl⟩ := List.mem_map.1 hl
    exact line.not_blank_text
  rw [content_text (fun _ => notMem_directive) hheader, ← Option.toList_map, map_toList_directive, content_directive,
    Text.content_of_forall_not_blank hlines, List.map_map, toList_body]
  rfl

/-- The module of a capsule among the stubs of an environment. -/
def ofDefinition (rule : ReferenceRule) (catalog : Catalog) (placed : Bool) (env : StubEnvironment)
    (d : CapsuleDefinition) : Module :=
  ofStub env (.ofUnit rule (.ofDefinition rule catalog placed d))

/-- **Conservation of the source.**  The directive of a module is the first of the own lines of its source that are not
blank, if that is one.  The lines of its text that are not blank are the directive, the header and the other own lines
in their order; if no own line is there, not even a directive, an empty component stands behind the header. -/
theorem text_conserves (rule : ReferenceRule) (catalog : Catalog) (placed : Bool) (env : StubEnvironment)
    (d : CapsuleDefinition) :
    (ofDefinition rule catalog placed env d).directive.map String.toList =
      (content (Stub.ownLines rule d.source)).head?.filter isDirective ∧
    (∃ rest, content (Stub.ownLines rule d.source) =
        ((ofDefinition rule catalog placed env d).directive.map String.toList).toList ++ rest ∧
      content (lines (ofDefinition rule catalog placed env d).text.toList) =
        ((ofDefinition rule catalog placed env d).directive.map String.toList).toList ++
          ((ofDefinition rule catalog placed env d).header.map (fun l => trim l.text.toList) ++
            if content (Stub.ownLines rule d.source) = [] then Stub.emptyLines d.id.symbol else rest)) ∧
    ¬blank (ofDefinition rule catalog placed env d).text.toList := by
  have hsymbol := Stub.isAlphanum_symbol d.id
  have htext := content_text_ofStub env (s := .ofUnit rule (.ofDefinition rule catalog placed d))
    (writable_of_ofDefinition rule catalog placed d)
  have hdirective := map_toList_directive env (.ofUnit rule (.ofDefinition rule catalog placed d))
  have hfirst := Stub.directive_bodyOf rule d.source hsymbol
  have hstub : (Stub.ofUnit rule (.ofDefinition rule catalog placed d)).body =
      Stub.bodyOf rule d.id.symbol d.source := rfl
  rw [hstub] at htext hdirective
  unfold ofDefinition
  obtain ⟨rest, hsplit, hbehind⟩ := Stub.exists_behind_content rule d.source hsymbol
  rw [hbehind] at htext
  rw [hdirective, htext]
  refine ⟨hfirst, ⟨rest, hsplit, rfl⟩, fun hblank => ?_⟩
  -- The text has lines that are not blank.
  rw [Text.content_lines_of_blank hblank] at htext
  obtain ⟨hnil, hnone⟩ := List.append_eq_nil_iff.1 htext.symm
  have hothers := (List.append_eq_nil_iff.1 hnone).2
  split at hothers
  · cases hothers
  · next hown =>
    rw [hnil, hothers] at hsplit
    exact hown hsplit

/-- A card that is nothing but a directive. -/
def directiveCard : CapsuleDefinition := ⟨⟨"card"⟩, "Card", "", "'use client'", .none, none, .empty⟩

/-- The directive is all there is: behind it no own line is left, and no component is put there. -/
theorem no_component_behind_directive :
    (ofDefinition Stub.standardRule (.ofList []) true .empty directiveCard).text = "'use client'\n\n\n" ∧
    ¬∀ (rule : ReferenceRule) (catalog : Catalog) (placed : Bool) (env : StubEnvironment) (d : CapsuleDefinition),
      ∃ rest, content (Stub.ownLines rule d.source) =
          ((ofDefinition rule catalog placed env d).directive.map String.toList).toList ++ rest ∧
        content (lines (ofDefinition rule catalog placed env d).text.toList) =
          ((ofDefinition rule catalog placed env d).directive.map String.toList).toList ++
            ((ofDefinition rule catalog placed env d).header.map (fun l => trim l.text.toList) ++
              if rest = [] then Stub.emptyLines d.id.symbol else rest) := by
  refine ⟨by decide +kernel, fun h => ?_⟩
  obtain ⟨rest, hown, htext⟩ := h Stub.standardRule (.ofList []) true .empty directiveCard
  have hcontent : content (Stub.ownLines Stub.standardRule directiveCard.source) = ["'use client'".toList] := by
    decide +kernel
  have hdirective : ((ofDefinition Stub.standardRule (.ofList []) true .empty directiveCard).directive.map
      String.toList).toList = ["'use client'".toList] := by decide +kernel
  have hlines : content (lines (ofDefinition Stub.standardRule (.ofList []) true .empty directiveCard).text.toList) =
      ["'use client'".toList] := by decide +kernel
  rw [hcontent, hdirective] at hown
  have hrest : rest = [] := by simpa using hown
  rw [hlines, hdirective, if_pos hrest] at htext
  have hlength := congrArg List.length htext
  simp [Stub.emptyLines] at hlength

end Module

end CapsuleCompiler
