import CapsuleCompiler.Config
import CapsuleCompiler.Module
import CapsuleCompiler.Proofs.Import.Grammar
import CapsuleCompiler.Proofs.Text.Trimming
import CapsuleCompiler.Proofs.Text.Words

/-!
# Proofs.Unit.Stripping — the references that a stub still has

A stub loses the lines that make a reference, and then the blanks at the ends of its text.  The grammar of import lines
has fewer blanks than trimming takes away, so a line that made no reference may make one once it stands at an end.
`Exposes` says that there is such a line; the body of a stub and the text behind its directive make a reference exactly
then (`references_left_iff`).  If the lines have no other blanks at their ends than spaces and tabs there is none.
-/

namespace CapsuleCompiler

open Import (Line)

variable {rule : ReferenceRule} {line : List Char} {ls : List (List Char)}

/-! ### Lines that trimming makes references -/

namespace ReferenceRule

/-- Among some lines there is one that makes a reference once their text is trimmed. -/
def Exposes (rule : ReferenceRule) (ls : List (List Char)) : Prop :=
  ∃ before line after, ls = before ++ line :: after ∧ (rule.parseLine? (Text.bare before after line)).isSome

/-- What is read does not depend on the line otherwise. -/
theorem parseLine?_of_ofChars? {cs ds : List Char} (h : ∀ l, Line.ofChars? cs = some l → Line.ofChars? ds = some l)
    (hsome : (rule.parseLine? cs).isSome) : (rule.parseLine? ds).isSome := by
  obtain ⟨r, hr⟩ := Option.isSome_iff_exists.1 hsome
  obtain ⟨l, hl, hr⟩ := Option.bind_eq_some_iff.1 hr
  exact Option.isSome_iff_exists.2 ⟨r, Option.bind_eq_some_iff.2 ⟨l, h l hl, hr⟩⟩

theorem parseLine?_eq_none_of_ofChars? {cs : List Char} (h : Line.ofChars? cs = none) : rule.parseLine? cs = none := by
  unfold parseLine?
  rw [h]
  rfl

theorem exists_reference_trim_join_iff (hls : ∀ l ∈ ls, '\n' ∉ l) :
    (∃ line ∈ Text.lines (Text.trim (Text.join ['\n'] ls)), (rule.parseLine? line).isSome) ↔ rule.Exposes ls := by
  refine Text.exists_mem_lines_trim_join_iff (P := fun line => (rule.parseLine? line).isSome) ?_ hls
  rw [parseLine?_eq_none_of_ofChars? rfl]
  exact Bool.false_ne_true

end ReferenceRule

/-! ### Tidy lines -/

/-- A line that has no other blanks than spaces and tabs at its ends. -/
structure Tidy (line : List Char) : Prop where
  start : ∀ c ∈ line.takeWhile Text.isBlank, c = ' ' ∨ c = '\t'
  stop : ∀ c ∈ line.reverse.takeWhile Text.isBlank, c = ' ' ∨ c = '\t'

theorem tidy_iff : Tidy line ↔ ((line.takeWhile Text.isBlank).all fun c => c == ' ' || c == '\t') ∧
    (line.reverse.takeWhile Text.isBlank).all fun c => c == ' ' || c == '\t' := by
  simp only [List.all_eq_true, Bool.or_eq_true, beq_iff_eq]
  exact ⟨fun h => ⟨h.start, h.stop⟩, fun h => ⟨h.1, h.2⟩⟩

instance (line : List Char) : Decidable (Tidy line) := decidable_of_iff _ tidy_iff.symm

namespace Tidy

theorem mem_takeWhile_append {p : Char → Bool} {cs ds : List Char} {c : Char} (h : c ∈ cs.takeWhile p) :
    c ∈ (cs ++ ds).takeWhile p := by
  rw [List.takeWhile_append]
  split
  · exact List.mem_append_left _ ((List.takeWhile_sublist p).subset h)
  · exact h

/-- What opens a line is spaces and tabs in front of the rest, which ends as the line does. -/
theorem exists_opened (h : Tidy line) (before : List (List Char)) : ∃ b, line = b ++ Text.opened before line ∧
    (∀ c ∈ b, c = ' ' ∨ c = '\t') ∧
    ∀ c ∈ (Text.opened before line).reverse.takeWhile Text.isBlank, c = ' ' ∨ c = '\t' := by
  unfold Text.opened
  split
  · have hline : line = line.takeWhile Text.isBlank ++ Text.trimStart line := List.takeWhile_append_dropWhile.symm
    refine ⟨_, hline, h.start, fun c hc => h.stop c ?_⟩
    rw [hline, List.reverse_append]
    exact mem_takeWhile_append hc
  · exact ⟨[], rfl, by simp, h.stop⟩

theorem exists_trimEnd {cs : List Char} (h : ∀ c ∈ cs.reverse.takeWhile Text.isBlank, c = ' ' ∨ c = '\t') :
    ∃ t, cs = Text.trimEnd cs ++ t ∧ ∀ c ∈ t, c = ' ' ∨ c = '\t' := by
  refine ⟨(cs.reverse.takeWhile Text.isBlank).reverse, ?_, fun c hc => h c (List.mem_reverse.1 hc)⟩
  unfold Text.trimEnd
  rw [← List.reverse_append, List.takeWhile_append_dropWhile, List.reverse_reverse]

theorem dropReturn_eq_self {cs : List Char} (h : ∀ c ∈ cs.reverse.takeWhile Text.isBlank, c = ' ' ∨ c = '\t') :
    Text.dropReturn cs = cs := by
  induction cs with
  | nil => rfl
  | cons c cs ih =>
    have hlater : Text.dropReturn cs = cs := by
      refine ih fun d hd => h d ?_
      rw [List.reverse_cons]
      exact mem_takeWhile_append hd
    by_cases hreturn : c = '\r' ∧ cs = []
    · rw [hreturn.1, hreturn.2] at h
      exact absurd (h '\r' (by decide)) (by decide)
    · rw [Text.dropReturn]
      · rw [hlater]
      · exact fun hc hcs => hreturn ⟨hc, hcs⟩

/-- Trimming makes no reference of a tidy line. -/
theorem isSome_of_bare (h : Tidy line) {before after : List (List Char)}
    (hsome : (rule.parseLine? (Text.bare before after line)).isSome) : (rule.parseLine? line).isSome := by
  obtain ⟨b, hline, hb, hstop⟩ := h.exists_opened before
  have hopened : (rule.parseLine? (Text.opened before line)).isSome := by
    unfold Text.bare at hsome
    split at hsome
    · obtain ⟨t, hcs, ht⟩ := exists_trimEnd hstop
      rw [hcs]
      exact ReferenceRule.parseLine?_of_ofChars? (fun l => Line.ofChars?_append_blanks ht) hsome
    · rwa [dropReturn_eq_self hstop] at hsome
  rw [hline]
  refine ReferenceRule.parseLine?_of_ofChars? (fun l hl => ?_) hopened
  rwa [Line.ofChars?_blanks_append fun c hc => (hb c hc).imp_right .inl]

end Tidy

theorem ReferenceRule.not_exposes_of_tidy (htidy : ∀ l ∈ ls, Tidy l) (hnone : ∀ l ∈ ls, (rule.parseLine? l).isNone) :
    ¬rule.Exposes ls := by
  rintro ⟨before, line, after, rfl, hsome⟩
  have hmem : line ∈ before ++ line :: after := by simp
  have hline := (htidy line hmem).isSome_of_bare hsome
  rw [Option.isNone_iff_eq_none.1 (hnone line hmem)] at hline
  cases hline

/-! ### Stubs -/

namespace Stub

variable {u : CompilationUnit} {source symbol : String}

theorem notMem_of_mem_ownLines : ∀ l ∈ ownLines rule source, '\n' ∉ l :=
  fun _ h => Text.notMem_of_mem_lines (List.mem_filter.1 h).1

/-- The text of the own lines. -/
def ownText (rule : ReferenceRule) (source : String) : List Char :=
  Text.trim (Text.join ['\n'] (ownLines rule source))

theorem toList_bodyOf (rule : ReferenceRule) (symbol source : String) : (bodyOf rule symbol source).toList =
    if ownText rule source = [] then (emptyComponent symbol).toList else ownText rule source := by
  unfold bodyOf ownText
  cases Text.trim (Text.join ['\n'] (ownLines rule source)) with
  | nil => rw [if_pos rfl]
  | cons c cs => rw [if_neg (List.cons_ne_nil _ _), String.toList_ofList]

/-- The first line of a component that shows nothing. -/
def openingLine (symbol : String) : String := "export default function " ++ symbol ++ "() \x7b"

theorem exists_openingLine (symbol : String) : ∃ middle, (openingLine symbol).toList = 'e' :: middle ++ ['\x7b'] := by
  have hstart : "export default function ".toList = 'e' :: "xport default function ".toList := rfl
  have hend : "() \x7b".toList = "() ".toList ++ ['\x7b'] := rfl
  unfold openingLine
  -- Variables, so that the characters are not computed.
  generalize "xport default function ".toList = start, "() ".toList = stop at hstart hend
  generalize "export default function " = opening, "() \x7b" = closing at hstart hend ⊢
  rw [String.toList_append, String.toList_append, hstart, hend]
  exact ⟨start ++ symbol.toList ++ stop, by simp⟩

theorem inLine_openingLine (hsymbol : ∀ c ∈ symbol.toList, c.isAlphanum) :
    Text.InLine (openingLine symbol).toList := by
  have hstart : Text.InLine "export default function ".toList := by decide
  have hend : Text.InLine "() \x7b".toList := by decide
  have hmiddle : Plain symbol.toList := plain_of_forall hsymbol (by decide)
  unfold openingLine
  generalize "export default function " = opening, "() \x7b" = closing at hstart hend ⊢
  rw [String.toList_append, String.toList_append]
  exact (hstart.append hmiddle.inLine).append hend

theorem toList_emptyComponent (symbol : String) :
    (emptyComponent symbol).toList = (openingLine symbol).toList ++ '\n' :: "  return null\n\x7d".toList := by
  have hend : "() \x7b\n  return null\n\x7d".toList = "() \x7b".toList ++ '\n' :: "  return null\n\x7d".toList := rfl
  unfold emptyComponent openingLine
  generalize "() \x7b\n  return null\n\x7d" = closing, "() \x7b" = stop, "  return null\n\x7d" = more at hend ⊢
  generalize "export default function " = opening
  simp only [String.toList_append, hend, List.append_assoc]

theorem exists_emptyComponent (hsymbol : ∀ c ∈ symbol.toList, c.isAlphanum) : ∃ first,
    (emptyComponent symbol).toList = 'e' :: first ++ '\n' :: "  return null\n\x7d".toList ∧
      Text.InLine ('e' :: first) := by
  obtain ⟨middle, hopening⟩ := exists_openingLine symbol
  have hfirst := inLine_openingLine hsymbol
  rw [hopening] at hfirst
  refine ⟨middle ++ ['\x7b'], ?_, hfirst⟩
  rw [toList_emptyComponent, hopening]
  rfl

/-- A component that shows nothing makes no reference. -/
theorem parseLine?_emptyComponent (hsymbol : ∀ c ∈ symbol.toList, c.isAlphanum)
    (hline : line ∈ Text.lines (emptyComponent symbol).toList) : rule.parseLine? line = none := by
  obtain ⟨first, hcomponent, hfirst⟩ := exists_emptyComponent hsymbol
  refine ReferenceRule.parseLine?_eq_none_of_ofChars? ?_
  rw [hcomponent, Text.lines_append_cons hfirst.1, Text.dropReturn_eq_self hfirst.2] at hline
  rcases List.mem_cons.1 hline with rfl | hline
  · have htag : Line.tag? "import" (Line.spaces ('e' :: first)) = none := Line.tag?_cons_of_ne rfl (by decide) _
    unfold Line.ofChars?
    rw [htag]
    rfl
  · have hothers : ∀ line ∈ Text.lines "  return null\n\x7d".toList, Line.ofChars? line = none := by decide
    exact hothers line hline

theorem isQuote_of_isDirective {c : Char} {cs : List Char} (h : Module.isDirective (c :: cs)) : c = '\'' ∨ c = '"' := by
  unfold Module.isDirective at h
  split at h
  · cases h
  · next q rest heq =>
    have hprefix : ((c :: cs).reverse.dropWhile (· == ';')).reverse <+: c :: cs := by
      rw [← List.reverse_suffix, List.reverse_reverse]
      exact List.dropWhile_suffix _
    rw [heq] at hprefix
    have hq : q = c := (List.cons_prefix_cons.1 hprefix).1
    rw [Bool.and_eq_true, Bool.and_eq_true, Bool.or_eq_true, beq_iff_eq, beq_iff_eq] at h
    exact hq ▸ h.1.1

/-- A line is cut off at its line feed. -/
theorem cut_line {pre : List Char} (hpre : '\n' ∉ pre) (rest : List Char) :
    (pre ++ '\n' :: rest).takeWhile (· ≠ '\n') = pre ∧ ((pre ++ '\n' :: rest).dropWhile (· ≠ '\n')).drop 1 = rest := by
  have hall := Line.forall_ne_of_notMem hpre
  have hstops : Line.Stops (fun c => decide (c ≠ '\n')) ('\n' :: rest) := Line.stops_cons (by decide) _
  rw [Line.takeWhile_append_of_stops hall hstops, Line.dropWhile_append_of_stops hall hstops]
  exact ⟨rfl, rfl⟩

theorem splitDirective_emptyComponent (hsymbol : ∀ c ∈ symbol.toList, c.isAlphanum) (d rest : List Char) :
    Module.splitDirective (emptyComponent symbol).toList ≠ (some d, rest) := by
  intro h
  obtain ⟨first, hcomponent, hfirst⟩ := exists_emptyComponent hsymbol
  have hnot : ¬Module.isDirective (Text.trim ('e' :: first)) := by
    intro hdirective
    have htrim : Text.trim ('e' :: first) = Text.trimEnd ('e' :: first) := by
      rw [Text.trim, Text.trimStart, List.dropWhile_cons_of_neg (by decide)]
    obtain ⟨b, heq, -⟩ := Text.exists_trimEnd ('e' :: first)
    rw [htrim] at hdirective
    cases hcs : Text.trimEnd ('e' :: first) with
    | nil =>
      rw [hcs] at hdirective
      cases hdirective
    | cons c cs =>
      rw [hcs] at hdirective heq
      rw [← (List.cons_eq_cons.1 heq).1] at hdirective
      exact absurd (isQuote_of_isDirective hdirective) (by decide)
  unfold Module.splitDirective at h
  rw [hcomponent, (cut_line hfirst.1 _).1] at h
  dsimp only at h
  rw [if_neg hnot] at h
  cases h

/-- The directive of a trimmed text is its first line, and its rest is the trimmed text of the other lines. -/
theorem splitDirective_trim_join {before after : List (List Char)} {first d rest : List Char}
    (hbefore : before.all Text.blank) (hfirst : ¬Text.blank first) (hfeed : '\n' ∉ first)
    (h : Module.splitDirective (Text.trim (Text.join ['\n'] (before ++ first :: after))) = (some d, rest)) :
    d = Text.trim first ∧ rest = Text.trim (Text.join ['\n'] after) := by
  have hstart : '\n' ∉ Text.trimStart first := Text.notMem_trimStart hfeed
  rw [Text.trim_join_of_first hbefore hfirst] at h
  unfold Module.splitDirective at h
  dsimp only at h
  by_cases hafter : after.all Text.blank
  · -- The directive is all there is.
    have hall : ∀ c ∈ Text.trim first, decide (c ≠ '\n') := Line.forall_ne_of_notMem (Text.notMem_trimEnd hstart)
    rw [if_pos hafter, List.takeWhile_eq_self_iff.2 hall, List.dropWhile_eq_nil_iff.2 hall, Text.trim_trim] at h
    have hrest : Text.trim (Text.join ['\n'] after) = [] := Text.trim_of_blank (by rwa [Text.blank_join])
    rw [hrest]
    split_ifs at h
    · cases h
      exact ⟨rfl, rfl⟩
    · cases h
  · obtain ⟨htake, hdrop⟩ := cut_line hstart (Text.trimEnd (Text.join ['\n'] after))
    have htrim : Text.trim (Text.trimStart first) = Text.trim first := by
      rw [Text.trim, Text.trimStart_trimStart]
      rfl
    rw [if_neg hafter, htake, hdrop, htrim, Text.trimStart_trimEnd] at h
    split_ifs at h
    · cases h
      exact ⟨rfl, rfl⟩
    · cases h

theorem isAlphanum_symbol (id : CapsuleId) : ∀ c ∈ id.symbol.toList, c.isAlphanum := by
  intro c hc
  rw [CapsuleId.symbol, Naming.pascal, String.toList_ofList] at hc
  exact Naming.isAlphanum_of_mem_pascalFrom hc

theorem exists_reference_body_iff : (∃ line ∈ Text.lines (ofUnit rule u).body.toList, (rule.parseLine? line).isSome) ↔
    rule.Exposes (ownLines rule u.definition.source) := by
  have hown : (∃ line ∈ Text.lines (ownText rule u.definition.source), (rule.parseLine? line).isSome) ↔
      rule.Exposes (ownLines rule u.definition.source) :=
    ReferenceRule.exists_reference_trim_join_iff notMem_of_mem_ownLines
  have hbody : (ofUnit rule u).body = bodyOf rule u.id.symbol u.definition.source := rfl
  rw [← hown, hbody, toList_bodyOf]
  by_cases hempty : ownText rule u.definition.source = []
  · have hnone : ¬∃ line ∈ Text.lines (ownText rule u.definition.source), (rule.parseLine? line).isSome := by
      rw [hempty]
      rintro ⟨line, hline, -⟩
      cases hline
    rw [if_pos hempty]
    refine iff_of_false ?_ hnone
    rintro ⟨line, hline, hsome⟩
    rw [parseLine?_emptyComponent (isAlphanum_symbol u.id) hline] at hsome
    cases hsome
  · rw [if_neg hempty]

theorem exists_behind_directive {d rest : List Char}
    (h : Module.splitDirective (ofUnit rule u).body.toList = (some d, rest)) : ∃ before first after,
      ownLines rule u.definition.source = before ++ first :: after ∧ before.all Text.blank ∧ d = Text.trim first ∧
        rest = Text.trim (Text.join ['\n'] after) := by
  have hbody : (ofUnit rule u).body = bodyOf rule u.id.symbol u.definition.source := rfl
  rw [hbody, toList_bodyOf] at h
  by_cases hempty : ownText rule u.definition.source = []
  · rw [if_pos hempty] at h
    exact absurd h (splitDirective_emptyComponent (isAlphanum_symbol u.id) d rest)
  · rw [if_neg hempty] at h
    have hsome : ¬(ownLines rule u.definition.source).all Text.blank := fun hall =>
      hempty (Text.trim_of_blank (by rwa [Text.blank_join]))
    obtain ⟨before, first, after, heq, hbefore, hfirst⟩ := Text.exists_first hsome
    have hmem : first ∈ ownLines rule u.definition.source := heq ▸ by simp
    have hfeed := notMem_of_mem_ownLines _ hmem
    unfold ownText at h
    rw [heq] at h
    exact ⟨before, first, after, heq, hbefore, splitDirective_trim_join hbefore hfirst hfeed h⟩

/-- **References that are left.**  The body of a stub makes a reference, and so does the text behind its directive,
exactly if trimming makes one of a line; of lines with no other blanks than spaces and tabs at their ends it makes
none. -/
theorem references_left_iff (rule : ReferenceRule) (u : CompilationUnit) :
    ((∃ line ∈ Text.lines (ofUnit rule u).body.toList, (rule.parseLine? line).isSome) ↔
      rule.Exposes (ownLines rule u.definition.source)) ∧
    (∀ d rest, Module.splitDirective (ofUnit rule u).body.toList = (some d, rest) → ∃ before first after,
      ownLines rule u.definition.source = before ++ first :: after ∧ before.all Text.blank ∧ d = Text.trim first ∧
        ((∃ line ∈ Text.lines rest, (rule.parseLine? line).isSome) ↔ rule.Exposes after)) ∧
    ((∀ line ∈ ownLines rule u.definition.source, Tidy line) →
      (∀ line ∈ Text.lines (ofUnit rule u).body.toList, rule.parseLine? line = none) ∧
      ∀ d rest, Module.splitDirective (ofUnit rule u).body.toList = (some d, rest) →
        ∀ line ∈ Text.lines rest, rule.parseLine? line = none) := by
  have hnone : ∀ l ∈ ownLines rule u.definition.source, (rule.parseLine? l).isNone := fun l hl =>
    (List.mem_filter.1 hl).2
  have hbehind {d rest : List Char} (h : Module.splitDirective (ofUnit rule u).body.toList = (some d, rest)) :
      ∃ before first after, ownLines rule u.definition.source = before ++ first :: after ∧
        before.all Text.blank ∧ d = Text.trim first ∧
          ((∃ line ∈ Text.lines rest, (rule.parseLine? line).isSome) ↔ rule.Exposes after) := by
    obtain ⟨before, first, after, heq, hbefore, hd, rfl⟩ := exists_behind_directive h
    refine ⟨before, first, after, heq, hbefore, hd, ReferenceRule.exists_reference_trim_join_iff fun l hl => ?_⟩
    have hmem : l ∈ ownLines rule u.definition.source := heq ▸ by simp [hl]
    exact notMem_of_mem_ownLines _ hmem
  refine ⟨exists_reference_body_iff, fun d rest => hbehind, fun htidy => ⟨fun line hline => ?_, ?_⟩⟩
  · by_contra hsome
    refine ReferenceRule.not_exposes_of_tidy htidy hnone (exists_reference_body_iff.1 ⟨line, hline, ?_⟩)
    exact Option.isSome_iff_ne_none.2 hsome
  · intro d rest h line hline
    obtain ⟨before, first, after, heq, -, -, hiff⟩ := hbehind h
    have hsub : ∀ l ∈ after, l ∈ ownLines rule u.definition.source := fun l hl => heq ▸ by simp [hl]
    by_contra hsome
    refine ReferenceRule.not_exposes_of_tidy (fun l hl => htidy l (hsub l hl)) (fun l hl => hnone l (hsub l hl))
      (hiff.1 ⟨line, hline, ?_⟩)
    exact Option.isSome_iff_ne_none.2 hsome

def standardRule : ReferenceRule := .ofPrefixes CompilerConfig.standardPrefixes

/-- A card with a source, in an empty catalog. -/
def cardOf (source : String) : CompilationUnit :=
  .ofDefinition standardRule (.ofList []) true ⟨⟨"card"⟩, "Card", "", source, .none, none, .empty⟩

def tidyCard : CompilationUnit :=
  cardOf "'use client'\nimport Button from './components/button'\n\texport default function Card() \x7b\x7d"

theorem references_left_iff_tidyCard :
    (∀ line ∈ ownLines standardRule tidyCard.definition.source, Tidy line) ∧
      Module.splitDirective (ofUnit standardRule tidyCard).body.toList =
        (some "'use client'".toList, "export default function Card() \x7b\x7d".toList) ∧
      (∀ line ∈ Text.lines (ofUnit standardRule tidyCard).body.toList, standardRule.parseLine? line = none) ∧
      ∀ line ∈ Text.lines "export default function Card() \x7b\x7d".toList, standardRule.parseLine? line = none := by
  have htidy : ∀ line ∈ ownLines standardRule tidyCard.definition.source, Tidy line := by decide +kernel
  have hsplit : Module.splitDirective (ofUnit standardRule tidyCard).body.toList =
      (some "'use client'".toList, "export default function Card() \x7b\x7d".toList) := by decide +kernel
  obtain ⟨hbody, hbehind⟩ := (references_left_iff standardRule tidyCard).2.2 htidy
  exact ⟨htidy, hsplit, hbody, hbehind _ _ hsplit⟩

/-- A card whose import begins with a no-break space. -/
def spacedCard : CompilationUnit :=
  cardOf "\u00a0import Button from './components/button'\nexport default function Card() \x7b\x7d"

def spacedClientCard : CompilationUnit :=
  cardOf "'use client'\n\u00a0import Button from './components/button'\nexport default function Card() \x7b\x7d"

/-- The space hides the import from recognition, and trimming takes the space away: the import stays in the body, and
behind the directive, and was not counted. -/
theorem import_left_behind_noBreakSpace :
    spacedCard.references = [] ∧ spacedCard.extraction.diagnostics.length = 0 ∧
      (ofUnit standardRule spacedCard).body =
        "import Button from './components/button'\nexport default function Card() \x7b\x7d" ∧
      (¬∀ line ∈ Text.lines (ofUnit standardRule spacedCard).body.toList, standardRule.parseLine? line = none) ∧
      ¬∀ d rest, Module.splitDirective (ofUnit standardRule spacedClientCard).body.toList = (some d, rest) →
        ∀ line ∈ Text.lines rest, standardRule.parseLine? line = none := by
  have hbehind : Module.splitDirective (ofUnit standardRule spacedClientCard).body.toList = (some "'use client'".toList,
      "import Button from './components/button'\nexport default function Card() \x7b\x7d".toList) := by decide +kernel
  have hleft : ¬∀ line ∈ Text.lines
      "import Button from './components/button'\nexport default function Card() \x7b\x7d".toList,
      standardRule.parseLine? line = none := by decide +kernel
  have hbody : (ofUnit standardRule spacedCard).body =
      "import Button from './components/button'\nexport default function Card() \x7b\x7d" := by decide +kernel
  refine ⟨by decide +kernel, by decide +kernel, hbody, ?_, fun h => hleft (h _ _ hbehind)⟩
  rwa [hbody]

end Stub

end CapsuleCompiler
