import CapsuleCompiler.Proofs.Unit.Conservation

/-!
# Proofs.Unit.Directive — what stands in front of a directive

A directive has an effect where nothing but comments stands before it, so what counts is the first statement of a text:
its first line that is neither blank nor a comment.  Stripping keeps the lines up to the first statement of a source if
that is a directive, but only the very first line of a body is split off in front of the header.  A directive behind a
comment stays in the body, and the header comes before it (`directive_first_iff`).
-/

namespace CapsuleCompiler

open Text (blank content lines trim)

/-! ### First characters -/

namespace Text

theorem exists_trim_cons {c : Char} (hc : ¬isBlank c) (cs : List Char) : ∃ rest, trim (c :: cs) = c :: rest := by
  have hone : trimEnd [c] = [c] := by simp [trimEnd, hc]
  have hend : trimEnd (c :: cs) = if blank cs then [c] else c :: trimEnd cs := by
    have happend := trimEnd_append [c] cs
    rwa [hone] at happend
  rw [trim, trimStart, List.dropWhile_cons_of_neg hc, hend]
  split
  · exact ⟨[], rfl⟩
  · exact ⟨trimEnd cs, rfl⟩

/-- Where a text begins with no blank, its content begins as the text does. -/
theorem exists_content_cons {c : Char} (hc : ¬isBlank c) (cs : List Char) :
    ∃ line more, content (lines (c :: cs)) = (c :: line) :: more := by
  have hline : InLine [c] := by
    constructor
    all_goals
      intro hmem
      rw [← List.mem_singleton.1 hmem] at hc
      exact hc (by decide)
  obtain ⟨first, more, heq, rest, rfl⟩ := lines_append hline (List.cons_ne_nil _ _) cs
  obtain ⟨line, htrim⟩ := exists_trim_cons hc rest
  have hfirst : ¬blank (c :: rest) := by simp [blank, hc]
  have hlines : lines (c :: cs) = (c :: rest) :: more := heq
  rw [hlines, content_cons, content_singleton, if_neg hfirst, htrim]
  exact ⟨line, content more, rfl⟩

/-! ### First statements -/

/-- A line that is nothing but a comment. -/
def isComment (line : List Char) : Bool := "//".toList.isPrefixOf line

/-- The first line that is neither blank nor a comment, without the blanks at its ends. -/
def firstStatement? (ls : List (List Char)) : Option (List Char) := (content ls).find? fun line => !isComment line

variable {ls comments more : List (List Char)} {line : List Char}

theorem firstStatement?_of_content (h : content ls = comments ++ line :: more) (hcomments : ∀ c ∈ comments, isComment c)
    (hline : ¬isComment line) : firstStatement? ls = some line := by
  have hnone : comments.find? (fun line => !isComment line) = none := by
    simpa [List.find?_eq_none] using hcomments
  rw [firstStatement?, h, List.find?_append, hnone, Option.none_or, List.find?_cons_of_pos (by simpa using hline)]

/-- The lines up to the first statement, and those behind it. -/
theorem exists_of_firstStatement? (h : firstStatement? ls = some line) : ∃ before after comments,
    ls = before ++ after ∧ content before = comments ++ [line] ∧ (∀ c ∈ comments, isComment c) ∧ ¬isComment line := by
  obtain ⟨hline, comments, more, heq, hcomments⟩ := List.find?_eq_some_iff_append.1 h
  rw [List.append_cons] at heq
  obtain ⟨front, back, hmap, hfront, -⟩ := List.filter_eq_append_iff.1 heq
  obtain ⟨before, after, rfl, rfl, rfl⟩ := List.map_eq_append_iff.1 hmap
  refine ⟨before, after, comments, rfl, hfront, fun c hc => ?_, by simpa using hline⟩
  simpa using hcomments c hc

theorem head?_eq_some_iff_of_content (h : content ls = comments ++ line :: more) (hcomments : ∀ c ∈ comments, isComment c)
    (hline : ¬isComment line) : (content ls).head? = some line ↔ comments = [] := by
  rw [h]
  cases comments with
  | nil => simp
  | cons c cs =>
    have hne : c ≠ line := fun heq => hline (heq ▸ hcomments c List.mem_cons_self)
    simp [hne]

/-- A line of a content stands alone as it stands in the content. -/
theorem content_singleton_of_mem (h : line ∈ content ls) : content [line] = [line] := by
  obtain ⟨hmem, hne⟩ := List.mem_filter.1 h
  obtain ⟨l, -, rfl⟩ := List.mem_map.1 hmem
  have hblank : ¬blank (trim l) := by
    rw [blank_trim]
    exact fun hblank => of_decide_eq_true hne (trim_of_blank hblank)
  rw [content_singleton, if_neg hblank, trim_trim]

end Text

open Text (firstStatement? isComment)

/-! ### Lines that make no reference -/

section

variable {rule : ReferenceRule} {line : List Char} {ls : List (List Char)}

theorem Import.Line.isBlank_of_isSpace {c : Char} (h : isSpace c) : Text.isBlank c := by
  simp only [isSpace, Bool.or_eq_true, beq_iff_eq] at h
  rcases h with ((rfl | rfl) | rfl) | rfl <;> decide

/-- A line that makes a reference begins with its keyword. -/
theorem ReferenceRule.exists_trim_of_isSome (h : (rule.parseLine? line).isSome) : ∃ rest, trim line = 'i' :: rest := by
  obtain ⟨r, hr⟩ := Option.isSome_iff_exists.1 h
  obtain ⟨l, hl, -⟩ := Option.bind_eq_some_iff.1 hr
  obtain ⟨keyword, -, -, -, -, -, htag, -⟩ := Import.Line.ofChars?_eq_some_iff_steps.1 hl
  obtain ⟨b, hline, hb⟩ := Import.Line.exists_blanks line
  have hblank : blank b := List.all_eq_true.2 fun c hc =>
    Import.Line.isBlank_of_isSpace (Import.Line.blanks_iff.1 hb c hc)
  rw [hline, Text.trim_blank_append hblank, Import.Line.tag?_eq_some_iff.1 htag]
  exact Text.exists_trim_cons (by decide) _

theorem Module.ne_cons_of_isDirective {c : Char} (hc : c ≠ '\'' ∧ c ≠ '"') (h : Module.isDirective line)
    (rest : List Char) : line ≠ c :: rest := by
  rintro rfl
  exact (Stub.isQuote_of_isDirective h).elim hc.1 hc.2

theorem Module.not_isComment_of_isDirective (h : Module.isDirective line) : ¬isComment line := by
  intro hcomment
  obtain ⟨rest, heq⟩ := List.isPrefixOf_iff_prefix.1 hcomment
  exact ne_cons_of_isDirective (by decide) h ('/' :: rest) heq.symm

theorem ne_cons_of_isComment {c : Char} (hc : c ≠ '/') (h : isComment line) (rest : List Char) : line ≠ c :: rest := by
  rintro rfl
  obtain ⟨_, heq⟩ := List.isPrefixOf_iff_prefix.1 h
  exact hc (List.cons_eq_cons.1 heq).1.symm

/-- Stripping keeps all lines up to a directive that is the first statement. -/
theorem Stub.exists_content_ownLines {source : String} (rule : ReferenceRule)
    (hfirst : firstStatement? (lines source.toList) = some line) (hdirective : Module.isDirective line) :
    ∃ comments more rest, content (lines source.toList) = comments ++ line :: more ∧
      content (ownLines rule source) = comments ++ line :: rest ∧ ∀ c ∈ comments, isComment c := by
  obtain ⟨before, after, comments, hlines, hbefore, hcomments, -⟩ := Text.exists_of_firstStatement? hfirst
  have hnone : ∀ l ∈ before, (rule.parseLine? l).isNone := by
    intro l hl
    by_contra hsome
    rw [Bool.not_eq_true, Option.isNone_eq_false_iff] at hsome
    obtain ⟨rest, htrim⟩ := ReferenceRule.exists_trim_of_isSome hsome
    have hmem : trim l ∈ content before := List.mem_filter.2 ⟨List.mem_map_of_mem hl, by simp [htrim]⟩
    rw [hbefore, List.mem_append, List.mem_singleton] at hmem
    rcases hmem with hmem | heq
    · exact ne_cons_of_isComment (by decide) (hcomments _ hmem) rest htrim
    · exact Module.ne_cons_of_isDirective (by decide) hdirective rest (heq ▸ htrim)
  refine ⟨comments, content after, content (after.filter fun l => (rule.parseLine? l).isNone), ?_, ?_, hcomments⟩
  · rw [hlines, Text.content_append, hbefore, List.append_assoc]
    rfl
  · rw [ownLines, hlines, List.filter_append, List.filter_eq_self.2 hnone, Text.content_append, hbefore,
      List.append_assoc]
    rfl

end

/-! ### Modules -/

/-- A line of a header begins with its keyword. -/
theorem HeaderLine.exists_text (l : HeaderLine) : ∃ c rest, l.text.toList = c :: rest ∧ (c = 'i' ∨ c = 'c') := by
  have himport : "import ".toList = 'i' :: "mport ".toList := rfl
  have hconst : "const ".toList = 'c' :: "onst ".toList := rfl
  cases l with
  | sibling bindings id =>
    rw [text, String.append_assoc, String.append_assoc, String.append_assoc, String.toList_append, himport]
    exact ⟨'i', _, rfl, .inl rfl⟩
  | another name main =>
    rw [text, String.append_assoc, String.append_assoc, String.toList_append, hconst]
    exact ⟨'c', _, rfl, .inr rfl⟩
  | fallback name id =>
    rw [text, String.append_assoc, String.append_assoc, String.toList_append, hconst]
    exact ⟨'c', _, rfl, .inr rfl⟩

namespace Module

variable {m : Module}

theorem exists_text_of_directive {line : String} (h : m.directive = some line) :
    ∃ rest, m.text.toList = line.toList ++ '\n' :: '\n' :: rest := by
  rw [toList_text, opening, h]
  simp

theorem exists_text_of_header {l : HeaderLine} {more : List HeaderLine} (hdirective : m.directive = none)
    (hheader : m.header = l :: more) : ∃ rest, m.text.toList = l.text.toList ++ rest := by
  rw [toList_text, opening, hdirective, hheader]
  simp

theorem text_of_bare (hdirective : m.directive = none) (hheader : m.header = []) : m.text = m.body ++ "\n" := by
  rw [text, hdirective, hheader]
  simp

/-- The first statement of a module whose header is all that stands in front of its body. -/
theorem firstStatement?_of_header {l : HeaderLine} {more : List HeaderLine} (hdirective : m.directive = none)
    (hheader : m.header = l :: more) : ∃ c rest, firstStatement? (lines m.text.toList) = some (c :: rest) ∧
      (c = 'i' ∨ c = 'c') := by
  obtain ⟨behind, htext⟩ := exists_text_of_header hdirective hheader
  obtain ⟨c, rest, hl, hc⟩ := l.exists_text
  have hblank : ¬Text.isBlank c := by rcases hc with rfl | rfl <;> decide
  have hslash : c ≠ '/' := by rcases hc with rfl | rfl <;> decide
  obtain ⟨line, others, hcontent⟩ := Text.exists_content_cons hblank (rest ++ behind)
  rw [hl, List.cons_append] at htext
  have hfront : content (lines m.text.toList) = [] ++ (c :: line) :: others := by
    rw [htext]
    exact hcontent
  refine ⟨c, line, Text.firstStatement?_of_content hfront (by simp) fun hcomment => ?_, hc⟩
  exact ne_cons_of_isComment hslash hcomment line rfl

theorem firstStatement?_of_directive {line : String} (h : m.directive = some line) (hfeed : '\n' ∉ line.toList)
    (hstands : content [line.toList] = [line.toList]) (hline : ¬isComment line.toList) :
    firstStatement? (lines m.text.toList) = some line.toList := by
  obtain ⟨behind, htext⟩ := exists_text_of_directive h
  have hcontent : content (lines m.text.toList) = [] ++ line.toList :: content (lines ('\n' :: behind)) := by
    rw [htext, Text.content_lines_append_feed, Text.content_lines_of_notMem hfeed, hstands]
    rfl
  exact Text.firstStatement?_of_content hcontent (by simp) hline

variable {comments rest : List (List Char)} {line : List Char}

/-- A directive in the body is the first statement unless there is a header. -/
theorem firstStatement?_iff_header (hnone : m.directive = none)
    (hbody : content (lines m.body.toList) = comments ++ line :: rest) (hcomments : ∀ c ∈ comments, isComment c)
    (hdirective : isDirective line) : firstStatement? (lines m.text.toList) = some line ↔ m.header = [] := by
  cases hheader : m.header with
  | nil =>
    have hcontent : content (lines m.text.toList) = comments ++ line :: rest := by
      rw [text_of_bare hnone hheader, String.toList_append, ← hbody]
      exact Text.content_lines_append_blank (by decide) _
    exact iff_of_true
      (Text.firstStatement?_of_content hcontent hcomments (not_isComment_of_isDirective hdirective)) rfl
  | cons l more =>
    obtain ⟨c, begun, hstatement, hc⟩ := firstStatement?_of_header hnone hheader
    have hquote : c ≠ '\'' ∧ c ≠ '"' := by rcases hc with rfl | rfl <;> decide
    refine iff_of_false (fun heq => ?_) (List.cons_ne_nil _ _)
    exact ne_cons_of_isDirective hquote hdirective begun (Option.some.inj (heq.symm.trans hstatement))

/-! ### Modules of sources -/

/-- The stub of a unit with any references. -/
def stubWith (rule : ReferenceRule) (u : CompilationUnit) (dependencies : List Dependency) : Stub :=
  { Stub.ofUnit rule u with dependencies }

theorem stubWith_references (rule : ReferenceRule) (u : CompilationUnit) :
    stubWith rule u u.extraction.references = .ofUnit rule u := by
  rw [stubWith, Stub.ofUnit]

variable {rule : ReferenceRule} {u : CompilationUnit}

theorem body_stubWith (dependencies : List Dependency) :
    (stubWith rule u dependencies).body = Stub.bodyOf rule u.id.symbol u.definition.source := by
  rw [stubWith, Stub.ofUnit]

theorem content_stubWith (dependencies : List Dependency)
    (hown : content (Stub.ownLines rule u.definition.source) = comments ++ line :: rest) :
    content (lines (stubWith rule u dependencies).body.toList) = comments ++ line :: rest := by
  have hne : content (Stub.ownLines rule u.definition.source) ≠ [] := by simp [hown]
  rw [body_stubWith, Stub.content_bodyOf rule u.definition.source (Stub.isAlphanum_symbol u.id), if_neg hne, hown]

/-- What is split off is the first line of the content, if that is a directive. -/
theorem directive_stubWith (env : StubEnvironment) (dependencies : List Dependency)
    (hown : content (Stub.ownLines rule u.definition.source) = comments ++ line :: rest) :
    (ofStub env (stubWith rule u dependencies)).directive.map String.toList =
      (comments ++ [line]).head?.filter isDirective := by
  rw [map_toList_directive, body_stubWith,
    Stub.directive_bodyOf rule u.definition.source (Stub.isAlphanum_symbol u.id), hown]
  cases comments <;> rfl

/-- Where nothing is split off, the body of the stub is that of the module. -/
theorem content_body_of_directive (env : StubEnvironment) (s : Stub) (hnone : (ofStub env s).directive = none) :
    content (lines (ofStub env s).body.toList) = content (lines s.body.toList) := by
  rw [content_splitDirective s.body.toList, ← map_toList_directive env s, hnone, toList_body, Option.map_none,
    Option.toList_none, List.nil_append]

/-- **The directive and the header.**  Let the first statement of a source be a directive.  It is the first statement of
the module, whatever the environment and the references, exactly if no comment stands before it or the header is empty;
if no comment stands before it the module begins with it. -/
theorem directive_first_iff (rule : ReferenceRule) (env : StubEnvironment) (u : CompilationUnit)
    (dependencies : List Dependency) {line : List Char}
    (hfirst : firstStatement? (lines u.definition.source.toList) = some line) (hdirective : isDirective line) :
    (firstStatement? (lines (ofStub env (stubWith rule u dependencies)).text.toList) = some line ↔
      (content (lines u.definition.source.toList)).head? = some line ∨
        (ofStub env (stubWith rule u dependencies)).header = []) ∧
    ((content (lines u.definition.source.toList)).head? = some line →
      line ++ ['\n', '\n'] <+: (ofStub env (stubWith rule u dependencies)).text.toList) := by
  obtain ⟨comments, more, rest, hsource, hown, hcomments⟩ := Stub.exists_content_ownLines rule hfirst hdirective
  have hline := not_isComment_of_isDirective hdirective
  have hsplit := directive_stubWith env dependencies hown
  have hbody := content_body_of_directive env (stubWith rule u dependencies)
  rw [content_stubWith dependencies hown] at hbody
  rw [Text.head?_eq_some_iff_of_content hsource hcomments hline]
  have hfeed : ∀ d, (ofStub env (stubWith rule u dependencies)).directive = some d → '\n' ∉ d.toList :=
    fun _ => notMem_directive
  generalize ofStub env (stubWith rule u dependencies) = m at hsplit hbody hfeed
  cases comments with
  | nil =>
    have hmem : line ∈ content (lines u.definition.source.toList) := by simp [hsource]
    obtain ⟨d, hd, rfl⟩ := Option.map_eq_some_iff.1 (hsplit.trans (Option.filter_some_pos hdirective))
    have hkept := firstStatement?_of_directive hd (hfeed d hd) (Text.content_singleton_of_mem hmem) hline
    obtain ⟨behind, htext⟩ := exists_text_of_directive hd
    exact ⟨iff_of_true hkept (.inl rfl), fun _ => ⟨behind, by simp [htext]⟩⟩
  | cons comment comments =>
    -- A comment is no directive, so nothing is split off.
    have hcomment : isDirective comment = false := by
      by_contra h
      exact not_isComment_of_isDirective (Bool.eq_true_of_not_eq_false h) (hcomments comment List.mem_cons_self)
    have hnone : m.directive = none := Option.map_eq_none_iff.1 (hsplit.trans (Option.filter_some_neg hcomment))
    rw [or_iff_right (List.cons_ne_nil _ _)]
    exact ⟨firstStatement?_iff_header hnone (hbody hnone) hcomments hdirective,
      fun h => absurd h (List.cons_ne_nil _ _)⟩

/-- An environment that knows a button. -/
def buttonStubs : StubEnvironment := ⟨[⟨⟨"button"⟩, "Button", "export default function Button() \x7b\x7d", []⟩]⟩

def buttonReference : Dependency := ⟨⟨"button"⟩, "./components/button", ⟨some "Button", [], []⟩, 3⟩

def clientCard : CompilationUnit :=
  Stub.cardOf "\n  'use client';\nimport Button from './components/button'\nexport default function Card() \x7b\x7d"

theorem directive_first_iff_clientCard :
    firstStatement? (lines clientCard.definition.source.toList) = some "'use client';".toList ∧
      isDirective "'use client';".toList ∧
      (ofStub buttonStubs (stubWith Stub.standardRule clientCard [buttonReference])).header =
        [.sibling ⟨some "Button", [], []⟩ ⟨"button"⟩] ∧
      firstStatement? (lines (ofStub buttonStubs (stubWith Stub.standardRule clientCard
        [buttonReference])).text.toList) = some "'use client';".toList ∧
      "'use client';".toList ++ ['\n', '\n'] <+: (ofStub buttonStubs (stubWith Stub.standardRule clientCard
        [buttonReference])).text.toList := by
  have hfirst : firstStatement? (lines clientCard.definition.source.toList) = some "'use client';".toList := by
    decide +kernel
  have hhead : (content (lines clientCard.definition.source.toList)).head? = some "'use client';".toList := by
    decide +kernel
  obtain ⟨hiff, hbegins⟩ := directive_first_iff Stub.standardRule buttonStubs clientCard [buttonReference] hfirst
    (by decide)
  exact ⟨hfirst, by decide, by decide, hiff.2 (.inl hhead), hbegins hhead⟩

/-- A card with a comment in front of its directive. -/
def commentedCard : CompilationUnit :=
  Stub.cardOf ("// Shows an item.\n'use client'\nimport Button from './components/button'\n" ++
    "export default function Card() \x7b\x7d")

/-- The import of the header comes before the directive. -/
theorem header_before_directive :
    (ofStub buttonStubs (.ofUnit Stub.standardRule commentedCard)).text =
      "import Button from './button'\n\n// Shows an item.\n'use client'\nexport default function Card() \x7b\x7d\n" ∧
    ¬∀ (rule : ReferenceRule) (env : StubEnvironment) (u : CompilationUnit) (dependencies : List Dependency)
      (line : List Char), firstStatement? (lines u.definition.source.toList) = some line → isDirective line →
        firstStatement? (lines (ofStub env (stubWith rule u dependencies)).text.toList) = some line := by
  have htext : (ofStub buttonStubs (.ofUnit Stub.standardRule commentedCard)).text =
      "import Button from './button'\n\n// Shows an item.\n'use client'\nexport default function Card() \x7b\x7d\n" := by
    decide +kernel
  refine ⟨htext, fun h => ?_⟩
  have hdirective := h Stub.standardRule buttonStubs commentedCard commentedCard.extraction.references
    "'use client'".toList (by decide +kernel) (by decide)
  rw [stubWith_references, htext] at hdirective
  exact absurd hdirective (by decide +kernel)

end Module

end CapsuleCompiler
