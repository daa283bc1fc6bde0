import CapsuleCompiler.Markup.Escape
import CapsuleCompiler.Proofs.Markup.CharacterReferences
import Mathlib.Data.List.Infix

/-!
# Proofs.Markup.EscapedText — text between tags, and its readers

In an escaped text no tag and no expression begins or ends, and an ampersand stands only where one of the five
references begins that escaping writes (`escaped_escape`).  Whoever puts the characters for these references gets the
text back (`ReadsEscapes.read_escape`), whether no other references are known (`unescape`) or all that markup has
(`decode`): an ampersand of the text itself is written as a reference, so nothing that the text says is read as one.
-/

namespace CapsuleCompiler.Markup

variable {names : List Char → Option Char} {c : Char} {cs rest : List Char}

/-! ### Escaped texts -/

/-- The characters that escaping replaces, each with its reference. -/
def escapes : List (Char × List Char) :=
  [('&', "&amp;".toList), ('<', "&lt;".toList), ('>', "&gt;".toList), ('{', "&#123;".toList), ('}', "&#125;".toList)]

/-- The characters with which a tag or an expression begins or ends. -/
def isDelimiter (c : Char) : Bool := ['<', '>', '{', '}'].contains c

/-- Nothing in a text but characters that stand for themselves and the references of escaping. -/
structure Escaped (cs : List Char) : Prop where
  delimiters : ∀ c ∈ cs, ¬isDelimiter c
  ampersands : ∀ rest, '&' :: rest <:+ cs → ∃ e ∈ escapes, e.2 <+: '&' :: rest

theorem escape_cons (c : Char) (cs : List Char) : escape (c :: cs) = escapeChar c ++ escape cs :=
  List.flatMap_cons ..

theorem escapeChar_of_mem {e : Char × List Char} (he : e ∈ escapes) : escapeChar e.1 = e.2 :=
  (by decide : ∀ e ∈ escapes, escapeChar e.1 = e.2) e he

theorem escapeChar_cases (c : Char) :
    (c, escapeChar c) ∈ escapes ∨ escapeChar c = [c] ∧ c ≠ '&' ∧ ¬isDelimiter c := by
  by_cases hc : c ∈ escapes.map Prod.fst
  · obtain ⟨e, he, rfl⟩ := List.mem_map.1 hc
    rw [escapeChar_of_mem he]
    exact .inl he
  · have hne : c ≠ '&' ∧ c ≠ '<' ∧ c ≠ '>' ∧ c ≠ '{' ∧ c ≠ '}' := by simpa [escapes] using hc
    exact .inr (by simp [escapeChar, isDelimiter, hne])

theorem not_isDelimiter_of_mem_escapeChar {d : Char} (h : d ∈ escapeChar c) : ¬isDelimiter d := by
  rcases escapeChar_cases c with hmem | ⟨hself, -, hc⟩
  · have hnone : ∀ e ∈ escapes, ∀ d ∈ e.2, ¬isDelimiter d := by simp [escapes, isDelimiter]
    exact hnone _ hmem d h
  · rw [hself, List.mem_singleton] at h
    exact h ▸ hc

/-- In what is written for one character, an ampersand can only be the first of a reference. -/
theorem mem_escapes_of_suffix (h : '&' :: rest <:+ escapeChar c) : (c, '&' :: rest) ∈ escapes := by
  rcases escapeChar_cases c with hmem | ⟨hself, hc, -⟩
  · have hwhole : ∀ e ∈ escapes, ∀ s ∈ e.2.tails, s.head? = some '&' → s = e.2 := by decide
    rw [hwhole _ hmem _ ((List.mem_tails ..).2 h) rfl]
    exact hmem
  · rw [hself] at h
    exact absurd (List.mem_singleton.1 (h.subset List.mem_cons_self)).symm hc

theorem Escaped.append (h : Escaped cs) (c : Char) : Escaped (escapeChar c ++ cs) where
  delimiters d hd := (List.mem_append.1 hd).elim not_isDelimiter_of_mem_escapeChar (h.delimiters d)
  ampersands rest hrest := by
    -- The ampersand stands in `cs`, or in what is written for `c`; then its reference ends before `cs`.
    rcases List.suffix_or_suffix_of_suffix hrest (List.suffix_append (escapeChar c) cs) with hin | ⟨front, hfront⟩
    · exact h.ampersands rest hin
    · cases front with
      | nil => exact h.ampersands rest (hfront ▸ List.suffix_rfl)
      | cons d front =>
        obtain ⟨rfl, rfl⟩ := List.cons.inj hfront
        have hown : '&' :: front <:+ escapeChar c := List.suffix_append_self_iff.1 hrest
        exact ⟨_, mem_escapes_of_suffix hown, List.prefix_append ('&' :: front) cs⟩

theorem escaped_escape (cs : List Char) : Escaped (escape cs) := by
  induction cs with
  | nil => exact ⟨fun c hc => absurd hc List.not_mem_nil, fun rest h => by simp [escape] at h⟩
  | cons c cs ih =>
    rw [escape_cons]
    exact ih.append c

/-! ### Readers -/

/-- The text at the front of markup, up to the next tag or expression. -/
def leadingText (cs : List Char) : List Char := cs.takeWhile fun c => !isDelimiter c

theorem leadingText_append_cons (h : ∀ c ∈ cs, ¬isDelimiter c) (hc : isDelimiter c) (rest : List Char) :
    leadingText (cs ++ c :: rest) = cs := by
  have htext : ∀ c ∈ cs, !isDelimiter c := by simpa using h
  rw [leadingText, List.takeWhile_append_of_pos htext, List.takeWhile_cons_of_neg (by simpa using hc), List.append_nil]

/-- A text with the characters for the references of escaping, and for no other reference. -/
def unescape : List Char → List Char
  | [] => []
  | '&' :: 'a' :: 'm' :: 'p' :: ';' :: cs => '&' :: unescape cs
  | '&' :: 'l' :: 't' :: ';' :: cs => '<' :: unescape cs
  | '&' :: 'g' :: 't' :: ';' :: cs => '>' :: unescape cs
  | '&' :: '#' :: '1' :: '2' :: '3' :: ';' :: cs => '{' :: unescape cs
  | '&' :: '#' :: '1' :: '2' :: '5' :: ';' :: cs => '}' :: unescape cs
  | c :: cs => c :: unescape cs

/-- A reader who knows the references of escaping and takes what is no reference as it stands. -/
structure ReadsEscapes (read : List Char → List Char) : Prop where
  nil : read [] = []
  escape : ∀ e ∈ escapes, ∀ rest, read (e.2 ++ rest) = e.1 :: read rest
  text : ∀ c rest, c ≠ '&' → read (c :: rest) = c :: read rest

/-- A table of names that has those of the ampersand and of the angle brackets. -/
structure KnowsEscapes (names : List Char → Option Char) : Prop where
  amp : names "amp".toList = some '&'
  lt : names "lt".toList = some '<'
  gt : names "gt".toList = some '>'

/-- An escaped text is read as the text, character by character. -/
theorem ReadsEscapes.read_escape {read : List Char → List Char} (h : ReadsEscapes read) (cs : List Char) :
    read (Markup.escape cs) = cs := by
  induction cs with
  | nil => exact h.nil
  | cons c cs ih =>
    rw [escape_cons]
    rcases escapeChar_cases c with hmem | ⟨hself, hc, -⟩
    · rw [h.escape _ hmem, ih]
    · rw [hself, List.singleton_append, h.text c _ hc, ih]

theorem readsEscapes_unescape : ReadsEscapes unescape where
  nil := rfl
  escape := by
    simp only [escapes, List.forall_mem_cons]
    exact ⟨fun _ => rfl, fun _ => rfl, fun _ => rfl, fun _ => rfl, fun _ => rfl, fun _ h => nomatch h⟩
  text c rest hc := by
    rw [unescape.eq_def]
    split <;> simp_all

theorem exists_body_of_mem_escapes (h : KnowsEscapes names) {e : Char × List Char} (he : e ∈ escapes) :
    ∃ body, e.2 = '&' :: (body ++ [';']) ∧ ';' ∉ body ∧ reference? names body = some e.1 := by
  simp only [escapes, List.mem_cons, List.not_mem_nil, or_false] at he
  rcases he with rfl | rfl | rfl | rfl | rfl
  · exact ⟨"amp".toList, rfl, by decide, h.amp⟩
  · exact ⟨"lt".toList, rfl, by decide, h.lt⟩
  · exact ⟨"gt".toList, rfl, by decide, h.gt⟩
  · exact ⟨"#123".toList, rfl, by decide, rfl⟩
  · exact ⟨"#125".toList, rfl, by decide, rfl⟩

theorem readsEscapes_decode (h : KnowsEscapes names) : ReadsEscapes (decode names) where
  nil := decode_nil
  escape e he rest := by
    obtain ⟨body, hbody, hsemicolon, hreference⟩ := exists_body_of_mem_escapes h he
    refine decode_reference (referenceAt?_eq_some_iff.2 ⟨body, ?_, hsemicolon, hreference⟩)
    rw [hbody, List.cons_append, List.append_assoc, List.singleton_append]
  text c rest hc := by
    refine decode_text (Option.eq_none_iff_forall_ne_some.2 fun p hp => ?_)
    obtain ⟨body, heq, -, -⟩ := referenceAt?_eq_some_iff.1 hp
    exact hc (List.cons.inj heq).1

theorem escape_injective : Function.Injective escape :=
  Function.LeftInverse.injective readsEscapes_unescape.read_escape

end CapsuleCompiler.Markup
