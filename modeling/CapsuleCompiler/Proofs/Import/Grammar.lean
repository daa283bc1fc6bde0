import CapsuleCompiler.Import.Line
import CapsuleCompiler.Proofs.Text.Names
import Mathlib.Data.List.Basic
import Mathlib.Data.List.TakeWhile
import Mathlib.Tactic.SplitIfs

/-!
# Proofs.Import.Grammar — the sentences that are import lines

The grammar of import lines is given here by itself, each rule with what its sentences mean, and reading a line is shown
to be the same as having a derivation of it (`Line.ofText?_grammar`).  The reader takes as much as it can and never
goes back, so every part is read off the front of a text as it is derived, provided that what stands behind the part
cannot belong to it.  Behind a specifier only blanks may stand, and then a comma or the closing brace (`Closes`).
-/

namespace CapsuleCompiler.Import

/-! ### Grammar -/

namespace Grammar

def Blanks (cs : List Char) : Prop := ∀ c ∈ cs, c = ' ' ∨ c = '\t' ∨ c = '\r' ∨ c = '\n'

def Gap (cs : List Char) : Prop := cs ≠ [] ∧ Blanks cs

inductive Name : List Char → String → Prop
  | mk {c : Char} {cs : List Char} (hfirst : c.isAlpha ∨ c = '_' ∨ c = '$')
    (hrest : ∀ d ∈ cs, d.isAlphanum ∨ d = '_' ∨ d = '$') : Name (c :: cs) (.ofList (c :: cs))

inductive Specifier : List Char → NamedImport → Prop
  | same {cs : List Char} {x : String} (hname : Name cs x) : Specifier cs ⟨x, x⟩
  | renamed {cs g g' ds : List Char} {x y : String} (hname : Name cs x) (hbefore : Gap g) (hbehind : Gap g')
    (hlocal : Name ds y) : Specifier (cs ++ g ++ "as".toList ++ g' ++ ds) ⟨x, y⟩

/-- Further specifiers, each with a comma before it. -/
inductive More : List Char → List NamedImport → Prop
  | nil : More [] []
  | cons {b b' cs ds : List Char} {n : NamedImport} {ns : List NamedImport} (hbefore : Blanks b) (hbehind : Blanks b')
    (hspec : Specifier cs n) (hmore : More ds ns) : More (b ++ ',' :: (b' ++ cs ++ ds)) (n :: ns)

/-- How a list ends: perhaps with a comma, and with a brace. -/
inductive Closing : List Char → Prop
  | bare {b b' : List Char} (hb : Blanks b) (hb' : Blanks b') : Closing (b ++ b' ++ ['}'])
  | comma {b b' : List Char} (hb : Blanks b) (hb' : Blanks b') : Closing (b ++ ',' :: (b' ++ ['}']))

inductive NameList : List Char → List NamedImport → Prop
  | mk {b cs ds t : List Char} {n : NamedImport} {ns : List NamedImport} (hb : Blanks b) (hspec : Specifier cs n)
    (hmore : More ds ns) (hclosing : Closing t) : NameList ('{' :: (b ++ cs ++ ds ++ t)) (n :: ns)

inductive Clause : List Char → Bindings → Prop
  | main {cs : List Char} {x : String} (hname : Name cs x) : Clause cs ⟨some x, [], []⟩
  | both {cs b b' ds : List Char} {x : String} {ns : List NamedImport} (hname : Name cs x) (hbefore : Blanks b)
    (hbehind : Blanks b') (hlist : NameList ds ns) : Clause (cs ++ b ++ ',' :: (b' ++ ds)) ⟨some x, [], ns⟩
  | list {cs : List Char} {ns : List NamedImport} (hlist : NameList cs ns) : Clause cs ⟨none, [], ns⟩

inductive Quoted : List Char → String → Prop
  | mk {q : Char} {path : List Char} (hquote : q = '\'' ∨ q = '"') (hne : path ≠ []) (hinside : q ∉ path) :
    Quoted (q :: (path ++ [q])) (.ofList path)

/-- What may stand behind the path. -/
inductive Ending : List Char → Prop
  | mk {b semicolon b' comment : List Char} (hb : Blanks b) (hsemicolon : semicolon = [] ∨ semicolon = [';'])
    (hb' : Blanks b')
    (hcomment : comment = [] ∨ ∃ text, comment = '/' :: '/' :: text ∧ '\r' ∉ text ∧ '\n' ∉ text) :
    Ending (b ++ semicolon ++ b' ++ comment)

inductive Sentence : List Char → Line → Prop
  | mk {b g clause g' b' path ending : List Char} {bindings : Bindings} {text : String} (hb : Blanks b) (hg : Gap g)
    (hclause : Clause clause bindings) (hg' : Gap g') (hb' : Blanks b') (hpath : Quoted path text)
    (hending : Ending ending) :
    Sentence (b ++ "import".toList ++ g ++ clause ++ g' ++ "from".toList ++ b' ++ path ++ ending) ⟨bindings, text⟩

end Grammar

namespace Line

open Grammar

variable {cs rest part : List Char}

/-! ### Blanks -/

/-- No character of a kind comes first. -/
def Stops (p : Char → Bool) (cs : List Char) : Prop := ∀ c ∈ cs.head?, ¬p c

theorem stops_cons {p : Char → Bool} {c : Char} (h : ¬p c) (cs : List Char) : Stops p (c :: cs) := by
  rintro d ⟨⟩
  exact h

theorem blanks_iff : Blanks cs ↔ ∀ c ∈ cs, isSpace c := by
  simp [Blanks, isSpace, or_assoc]

theorem blanks_nil : Blanks [] := fun _ h => absurd h List.not_mem_nil

theorem blanks_append {b b' : List Char} (hb : Blanks b) (hb' : Blanks b') : Blanks (b ++ b') :=
  fun c hc => (List.mem_append.1 hc).elim (hb c) (hb' c)

theorem forall_ne_of_notMem {q : Char} (h : q ∉ cs) : ∀ c ∈ cs, decide (c ≠ q) := by
  intro c hc
  simpa using fun heq : c = q => h (heq ▸ hc)

theorem dropWhile_append_of_stops {p : Char → Bool} (hpart : ∀ c ∈ part, p c) (hrest : Stops p rest) :
    (part ++ rest).dropWhile p = rest := by
  rw [List.dropWhile_append_of_pos hpart]
  cases rest with
  | nil => rfl
  | cons c rest => rw [List.dropWhile_cons_of_neg (hrest c rfl)]

theorem takeWhile_append_of_stops {p : Char → Bool} (hpart : ∀ c ∈ part, p c) (hrest : Stops p rest) :
    (part ++ rest).takeWhile p = part := by
  rw [List.takeWhile_append_of_pos hpart]
  cases rest with
  | nil => simp
  | cons c rest => rw [List.takeWhile_cons_of_neg (hrest c rfl), List.append_nil]

theorem spaces_append (hb : Blanks part) (hrest : Stops isSpace rest) : spaces (part ++ rest) = rest :=
  dropWhile_append_of_stops (blanks_iff.1 hb) hrest

theorem spaces_eq_self (hrest : Stops isSpace rest) : spaces rest = rest := spaces_append blanks_nil hrest

theorem exists_blanks (cs : List Char) : ∃ b, cs = b ++ spaces cs ∧ Blanks b :=
  ⟨cs.takeWhile isSpace, List.takeWhile_append_dropWhile.symm, blanks_iff.2 fun _ => List.mem_takeWhile_imp⟩

theorem someSpaces?_append (hg : Gap part) (hrest : Stops isSpace rest) : someSpaces? (part ++ rest) = some rest := by
  obtain ⟨hne, hb⟩ := hg
  cases part with
  | nil => exact absurd rfl hne
  | cons c part =>
    rw [List.cons_append, someSpaces?, if_pos (blanks_iff.1 hb c List.mem_cons_self)]
    exact congrArg some (spaces_append (fun d hd => hb d (List.mem_cons_of_mem _ hd)) hrest)

theorem someSpaces?_eq_some (h : someSpaces? cs = some rest) : ∃ g, cs = g ++ rest ∧ Gap g := by
  cases cs with
  | nil => cases h
  | cons c cs =>
    rw [someSpaces?] at h
    split_ifs at h with hc
    cases h
    obtain ⟨b, heq, hb⟩ := exists_blanks cs
    refine ⟨c :: b, by rw [List.cons_append, ← heq], List.cons_ne_nil _ _, blanks_iff.2 fun d hd => ?_⟩
    rcases List.mem_cons.1 hd with rfl | hd
    · exact hc
    · exact blanks_iff.1 hb d hd

theorem tag?_eq_some_iff {word : String} : tag? word cs = some rest ↔ cs = word.toList ++ rest := by
  rw [tag?, List.isPrefixOf?_eq_some_iff_append_eq, eq_comm]

theorem tag?_cons_self {word : String} {c : Char} (hword : word.toList = [c]) (cs : List Char) :
    tag? word (c :: cs) = some cs := by
  rw [tag?_eq_some_iff, hword]
  rfl

theorem tag?_cons_of_ne {word : String} {c d : Char} {more : List Char} (hword : word.toList = c :: more)
    (h : d ≠ c) (cs : List Char) : tag? word (d :: cs) = none := by
  rw [tag?, hword, List.isPrefixOf?, if_neg (by simpa using h.symm)]

theorem comma?_append {b b' : List Char} (hb : Blanks b) (hb' : Blanks b') (hrest : Stops isSpace rest) :
    comma? (b ++ ',' :: (b' ++ rest)) = some rest := by
  rw [comma?, spaces_append hb (stops_cons (by decide) _), tag?_cons_self rfl, Option.map_some,
    spaces_append hb' hrest]

theorem comma?_eq_none {b : List Char} {c : Char} (hb : Blanks b) (hspace : ¬isSpace c) (hc : c ≠ ',')
    (rest : List Char) : comma? (b ++ c :: rest) = none := by
  rw [comma?, spaces_append hb (stops_cons hspace _), tag?_cons_of_ne rfl hc, Option.map_none]

theorem comma?_eq_some (h : comma? cs = some rest) :
    ∃ b b', cs = b ++ ',' :: (b' ++ rest) ∧ Blanks b ∧ Blanks b' := by
  obtain ⟨behind, htag, rfl⟩ := Option.map_eq_some_iff.1 h
  obtain ⟨b, hcs, hb⟩ := exists_blanks cs
  obtain ⟨b', hbehind, hb'⟩ := exists_blanks behind
  refine ⟨b, b', ?_, hb, hb'⟩
  rw [tag?_eq_some_iff.1 htag] at hcs
  rw [← hbehind]
  exact hcs

/-! ### Names -/

theorem isIdentStart_iff {c : Char} : Naming.isIdentStart c ↔ c.isAlpha ∨ c = '_' ∨ c = '$' := by
  simp [Naming.isIdentStart, or_assoc]

theorem isIdentPart_iff {c : Char} : Naming.isIdentPart c ↔ c.isAlphanum ∨ c = '_' ∨ c = '$' := by
  simp [Naming.isIdentPart, or_assoc]

theorem name?_append {x : String} (h : Name part x) (hrest : Stops Naming.isIdentPart rest) :
    name? (part ++ rest) = some (x, rest) := by
  obtain ⟨hfirst, hmore⟩ := h
  rw [List.cons_append, name?, if_pos (isIdentStart_iff.2 hfirst),
    takeWhile_append_of_stops (fun d hd => isIdentPart_iff.2 (hmore d hd)) hrest,
    dropWhile_append_of_stops (fun d hd => isIdentPart_iff.2 (hmore d hd)) hrest]

theorem name?_eq_some {x : String} (h : name? cs = some (x, rest)) : ∃ part, cs = part ++ rest ∧ Name part x := by
  cases cs with
  | nil => cases h
  | cons c cs =>
    rw [name?] at h
    split_ifs at h with hc
    cases h
    refine ⟨c :: cs.takeWhile Naming.isIdentPart, ?_, .mk (isIdentStart_iff.1 hc) fun d hd => ?_⟩
    · rw [List.cons_append, List.takeWhile_append_dropWhile]
    · exact isIdentPart_iff.1 (List.mem_takeWhile_imp hd)

theorem exists_cons_of_name {x : String} (h : Name part x) : ∃ c more, part = c :: more ∧ Naming.isIdentStart c := by
  obtain ⟨hfirst, -⟩ := h
  exact ⟨_, _, rfl, isIdentStart_iff.2 hfirst⟩

/-! ### Specifiers -/

/-- Behind blanks there is a comma or a closing brace. -/
def Closes (cs : List Char) : Prop := ∃ b c rest, cs = b ++ c :: rest ∧ Blanks b ∧ (c = ',' ∨ c = '}')

theorem not_isIdentPart_of_isSpace {c : Char} (h : isSpace c) : ¬Naming.isIdentPart c := by
  have hcases : ((c = ' ' ∨ c = '\t') ∨ c = '\r') ∨ c = '\n' := by simpa [isSpace] using h
  rcases hcases with ((rfl | rfl) | rfl) | rfl <;> decide

theorem not_isSpace_of_isIdentStart {c : Char} (h : Naming.isIdentStart c) : ¬isSpace c :=
  fun hspace => not_isIdentPart_of_isSpace hspace (Naming.isIdentPart_of_isIdentStart h)

/-- A name does not go on behind blanks. -/
theorem stops_isIdentPart_append {b : List Char} (hb : Blanks b) (h : b = [] → Stops Naming.isIdentPart rest) :
    Stops Naming.isIdentPart (b ++ rest) := by
  cases b with
  | nil => exact h rfl
  | cons c b => exact stops_cons (not_isIdentPart_of_isSpace (blanks_iff.1 hb c List.mem_cons_self)) _

theorem Closes.stops_isIdentPart (h : Closes rest) : Stops Naming.isIdentPart rest := by
  obtain ⟨b, c, more, rfl, hb, hc⟩ := h
  refine stops_isIdentPart_append hb fun _ => stops_cons ?_ _
  rcases hc with rfl | rfl <;> decide

theorem renaming?_eq_some_iff {y : String} : renaming? cs = some (y, rest) ↔ ∃ as behind local?,
    someSpaces? cs = some as ∧ tag? "as" as = some behind ∧ someSpaces? behind = some local? ∧
      name? local? = some (y, rest) := by
  simp [renaming?, Option.bind_eq_some_iff]

theorem Closes.renaming?_eq_none (h : Closes rest) : renaming? rest = none := by
  obtain ⟨b, c, more, rfl, hb, hc⟩ := h
  have hspace : ¬isSpace c := by rcases hc with rfl | rfl <;> decide
  have hne : c ≠ 'a' := by rcases hc with rfl | rfl <;> decide
  rw [Option.eq_none_iff_forall_ne_some]
  rintro ⟨y, behind⟩ hsome
  obtain ⟨as, _, _, has, htag, -⟩ := renaming?_eq_some_iff.1 hsome
  have heq : as = c :: more := by
    cases b with
    | nil => simp [someSpaces?, hspace] at has
    | cons d b =>
      rw [someSpaces?_append ⟨List.cons_ne_nil _ _, hb⟩ (stops_cons hspace _)] at has
      exact (Option.some.inj has).symm
  rw [heq, tag?_cons_of_ne rfl hne] at htag
  cases htag

theorem specifier?_append {n : NamedImport} (h : Specifier part n) (hrest : Closes rest) :
    specifier? (part ++ rest) = some (n, rest) := by
  unfold specifier?
  cases h with
  | same hname =>
    rw [name?_append hname hrest.stops_isIdentPart]
    simp [hrest.renaming?_eq_none]
  | @renamed cs g g' ds x y hname hbefore hbehind hlocal =>
    obtain ⟨c, more, hds, hc⟩ := exists_cons_of_name hlocal
    have hrenaming : renaming? (g ++ ("as".toList ++ (g' ++ (ds ++ rest)))) = some (y, rest) := by
      refine renaming?_eq_some_iff.2 ⟨_, _, _, someSpaces?_append hbefore (stops_cons (by decide) _),
        tag?_eq_some_iff.2 rfl, someSpaces?_append hbehind ?_, name?_append hlocal hrest.stops_isIdentPart⟩
      rw [hds]
      exact stops_cons (not_isSpace_of_isIdentStart hc) _
    simp only [List.append_assoc]
    rw [name?_append hname (stops_isIdentPart_append hbefore.2 fun hnil => absurd hnil hbefore.1)]
    simp only [hrenaming, Option.bind_eq_bind, Option.bind_some, Option.pure_def]

theorem specifier?_eq_some {n : NamedImport} (h : specifier? cs = some (n, rest)) :
    ∃ part, cs = part ++ rest ∧ Specifier part n := by
  obtain ⟨⟨x, behind⟩, hname, hspec⟩ := Option.bind_eq_some_iff.1 h
  obtain ⟨part, rfl, hpart⟩ := name?_eq_some hname
  dsimp only at hspec
  cases hrenaming : renaming? behind with
  | none =>
    rw [hrenaming] at hspec
    cases hspec
    exact ⟨part, rfl, .same hpart⟩
  | some renamed =>
    obtain ⟨y, behind'⟩ := renamed
    rw [hrenaming] at hspec
    cases hspec
    obtain ⟨as, after, named, hbefore, htag, hbehind, hlocal⟩ := renaming?_eq_some_iff.1 hrenaming
    obtain ⟨g, rfl, hg⟩ := someSpaces?_eq_some hbefore
    obtain rfl := tag?_eq_some_iff.1 htag
    obtain ⟨g', rfl, hg'⟩ := someSpaces?_eq_some hbehind
    obtain ⟨ds, rfl, hds⟩ := name?_eq_some hlocal
    exact ⟨part ++ g ++ "as".toList ++ g' ++ ds, by simp only [List.append_assoc], .renamed hpart hg hg' hds⟩

theorem exists_cons_of_specifier {n : NamedImport} (h : Specifier part n) :
    ∃ c more, part = c :: more ∧ Naming.isIdentStart c := by
  cases h with
  | same hname => exact exists_cons_of_name hname
  | renamed hname =>
    obtain ⟨c, more, rfl, hc⟩ := exists_cons_of_name hname
    exact ⟨c, _, rfl, hc⟩

/-! ### Lists -/

section

variable {ds t : List Char} {ns : List NamedImport}

theorem closes_of_closing (h : Closing t) (rest : List Char) : Closes (t ++ rest) := by
  cases h with
  | @bare b b' hb hb' =>
    exact ⟨b ++ b', '}', rest, by simp, blanks_append hb hb', .inr rfl⟩
  | @comma b b' hb hb' => exact ⟨b, ',', b' ++ '}' :: rest, by simp, hb, .inl rfl⟩

theorem closes_of_more (h : More ds ns) (hrest : Closes rest) : Closes (ds ++ rest) := by
  cases h with
  | nil => exact hrest
  | @cons b b' cs ds n ns hbefore hbehind hspec hmore =>
    exact ⟨b, ',', b' ++ cs ++ ds ++ rest, by simp, hbefore, .inl rfl⟩

/-- A comma that no name follows is left. -/
theorem moreSpecifiers_closing (ht : Closing t) (fuel : Nat) : moreSpecifiers fuel (t ++ rest) = ([], t ++ rest) := by
  cases fuel with
  | zero => rfl
  | succ fuel =>
    have hnone : (comma? (t ++ rest)).bind specifier? = none := by
      cases ht with
      | @bare b b' hb hb' =>
        rw [List.append_assoc, List.singleton_append,
          comma?_eq_none (blanks_append hb hb') (by decide) (by decide)]
        rfl
      | @comma b b' hb hb' =>
        rw [List.append_assoc, List.cons_append, List.append_assoc, List.singleton_append,
          comma?_append hb hb' (stops_cons (by decide) _)]
        rfl
    rw [moreSpecifiers, hnone]

theorem moreSpecifiers_append (h : More ds ns) (ht : Closing t) {fuel : Nat} (hfuel : ns.length ≤ fuel) :
    moreSpecifiers fuel (ds ++ (t ++ rest)) = (ns, t ++ rest) := by
  induction h generalizing fuel with
  | nil => exact moreSpecifiers_closing ht fuel
  | @cons b b' cs ds n ns hbefore hbehind hspec hmore ih =>
    obtain ⟨c, more, hcs, hc⟩ := exists_cons_of_specifier hspec
    cases fuel with
    | zero => simp at hfuel
    | succ fuel =>
      have hcomma : comma? (b ++ ',' :: (b' ++ (cs ++ (ds ++ (t ++ rest))))) = some (cs ++ (ds ++ (t ++ rest))) := by
        refine comma?_append hbefore hbehind ?_
        rw [hcs]
        exact stops_cons (not_isSpace_of_isIdentStart hc) _
      simp only [List.append_assoc, List.cons_append]
      rw [moreSpecifiers, hcomma, Option.bind_some,
        specifier?_append hspec (closes_of_more hmore (closes_of_closing ht rest))]
      simp only [ih (Nat.le_of_succ_le_succ hfuel)]

theorem exists_more (fuel : Nat) (cs : List Char) : ∃ ds, cs = ds ++ (moreSpecifiers fuel cs).2 ∧
    More ds (moreSpecifiers fuel cs).1 := by
  induction fuel generalizing cs with
  | zero => exact ⟨[], rfl, .nil⟩
  | succ fuel ih =>
    rw [moreSpecifiers]
    cases hone : (comma? cs).bind specifier? with
    | none => exact ⟨[], rfl, .nil⟩
    | some one =>
      obtain ⟨n, behind⟩ := one
      obtain ⟨after, hcomma, hspec⟩ := Option.bind_eq_some_iff.1 hone
      obtain ⟨b, b', rfl, hb, hb'⟩ := comma?_eq_some hcomma
      obtain ⟨part, rfl, hpart⟩ := specifier?_eq_some hspec
      obtain ⟨ds, heq, hds⟩ := ih behind
      refine ⟨b ++ ',' :: (b' ++ part ++ ds), ?_, .cons hb hb' hpart hds⟩
      simp only [List.append_assoc, List.cons_append]
      rw [← heq]

theorem length_le_of_more (h : More ds ns) : ns.length ≤ ds.length := by
  induction h with
  | nil => exact Nat.le_refl _
  | cons _ _ _ _ ih =>
    simp only [List.length_cons, List.length_append]
    omega

/-- The end of a list: a comma if there is one, and the brace. -/
def closing? (cs : List Char) : Option (List Char) :=
  tag? "\x7d" (spaces ((tag? "," (spaces cs)).getD (spaces cs)))

theorem closing?_append (ht : Closing t) : closing? (t ++ rest) = some rest := by
  unfold closing?
  cases ht with
  | @bare b b' hb hb' =>
    have hbrace : spaces ('}' :: rest) = '}' :: rest := spaces_eq_self (stops_cons (by decide) _)
    rw [List.append_assoc, List.singleton_append, spaces_append (blanks_append hb hb') (stops_cons (by decide) _),
      tag?_cons_of_ne rfl (by decide), Option.getD_none, hbrace, tag?_cons_self rfl]
  | @comma b b' hb hb' =>
    rw [List.append_assoc, List.cons_append, spaces_append hb (stops_cons (by decide) _), tag?_cons_self rfl,
      Option.getD_some, List.append_assoc, List.singleton_append, spaces_append hb' (stops_cons (by decide) _),
      tag?_cons_self rfl]

theorem closing?_eq_some (h : closing? cs = some rest) : ∃ t, cs = t ++ rest ∧ Closing t := by
  obtain ⟨b, hcs, hb⟩ := exists_blanks cs
  unfold closing? at h
  cases hcomma : tag? "," (spaces cs) with
  | none =>
    rw [hcomma, Option.getD_none] at h
    obtain ⟨b', hbehind, hb'⟩ := exists_blanks (spaces cs)
    rw [tag?_eq_some_iff.1 h] at hbehind
    refine ⟨b ++ b' ++ ['}'], ?_, .bare hb hb'⟩
    rw [List.append_assoc, List.append_assoc]
    exact hcs.trans (congrArg (b ++ ·) hbehind)
  | some behind =>
    rw [hcomma, Option.getD_some] at h
    obtain ⟨b', hbehind, hb'⟩ := exists_blanks behind
    rw [tag?_eq_some_iff.1 h] at hbehind
    rw [tag?_eq_some_iff.1 hcomma, hbehind] at hcs
    refine ⟨b ++ ',' :: (b' ++ ['}']), ?_, .comma hb hb'⟩
    simpa using hcs

theorem list?_eq_some_iff : list? cs = some (ns, rest) ↔ ∃ inside n behind, tag? "\x7b" cs = some inside ∧
    specifier? (spaces inside) = some (n, behind) ∧
      closing? (moreSpecifiers behind.length behind).2 = some rest ∧
      ns = n :: (moreSpecifiers behind.length behind).1 := by
  constructor
  · intro h
    obtain ⟨inside, htag, h⟩ := Option.bind_eq_some_iff.1 h
    obtain ⟨⟨n, behind⟩, hspec, h⟩ := Option.bind_eq_some_iff.1 h
    obtain ⟨after, hclosing, h⟩ := Option.bind_eq_some_iff.1 h
    cases h
    exact ⟨inside, n, behind, htag, hspec, hclosing, rfl⟩
  · rintro ⟨inside, n, behind, htag, hspec, hclosing, rfl⟩
    refine Option.bind_eq_some_iff.2 ⟨inside, htag, Option.bind_eq_some_iff.2 ⟨(n, behind), hspec, ?_⟩⟩
    exact Option.bind_eq_some_iff.2 ⟨rest, hclosing, rfl⟩

theorem list?_append (h : NameList part ns) (rest : List Char) : list? (part ++ rest) = some (ns, rest) := by
  obtain ⟨hb, hspec, hmore, hclosing⟩ := h
  rename_i b cs ds t n ns
  obtain ⟨c, more, hcs, hc⟩ := exists_cons_of_specifier hspec
  have hspaces : spaces (b ++ (cs ++ (ds ++ (t ++ rest)))) = cs ++ (ds ++ (t ++ rest)) := by
    refine spaces_append hb ?_
    rw [hcs]
    exact stops_cons (not_isSpace_of_isIdentStart hc) _
  have hfuel : ns.length ≤ (ds ++ (t ++ rest)).length := by
    have hlength := length_le_of_more hmore
    rw [List.length_append]
    omega
  simp only [List.append_assoc, List.cons_append]
  refine list?_eq_some_iff.2 ⟨_, n, ds ++ (t ++ rest), tag?_cons_self rfl _, ?_, ?_, ?_⟩
  · rw [hspaces]
    exact specifier?_append hspec (closes_of_more hmore (closes_of_closing hclosing rest))
  · rw [moreSpecifiers_append hmore hclosing hfuel]
    exact closing?_append hclosing
  · rw [moreSpecifiers_append hmore hclosing hfuel]

theorem list?_eq_some (h : list? cs = some (ns, rest)) : ∃ part, cs = part ++ rest ∧ NameList part ns := by
  obtain ⟨inside, n, behind, htag, hspec, hclosing, rfl⟩ := list?_eq_some_iff.1 h
  obtain rfl := tag?_eq_some_iff.1 htag
  obtain ⟨b, hinside, hb⟩ := exists_blanks inside
  obtain ⟨part, hpart, hspec⟩ := specifier?_eq_some hspec
  obtain ⟨ds, hbehind, hmore⟩ := exists_more behind.length behind
  obtain ⟨t, ht, hclosing⟩ := closing?_eq_some hclosing
  refine ⟨_, ?_, .mk hb hspec hmore hclosing⟩
  have hinside' : inside = b ++ (part ++ (ds ++ (t ++ rest))) := by
    rw [← ht, ← hbehind, ← hpart]
    exact hinside
  rw [hinside']
  simp

theorem exists_cons_of_nameList (h : NameList part ns) : ∃ more, part = '{' :: more := by
  obtain ⟨-, -, -, -⟩ := h
  exact ⟨_, rfl⟩

end

/-! ### Clauses -/

theorem list?_cons_of_ne {c : Char} (h : c ≠ '{') (cs : List Char) : list? (c :: cs) = none := by
  unfold list?
  rw [tag?_cons_of_ne rfl h]
  rfl

theorem clause?_append {bindings : Bindings} (h : Clause part bindings) (hstops : Stops Naming.isIdentPart rest)
    (hcomma : comma? rest = none) : clause? (part ++ rest) = some (bindings, rest) := by
  have hnone {cs : List Char} {x : String} (hname : Name cs x) (rest : List Char) : list? (cs ++ rest) = none := by
    obtain ⟨c, more, rfl, hc⟩ := exists_cons_of_name hname
    exact list?_cons_of_ne (by rintro rfl; exact absurd hc (by decide)) _
  unfold clause?
  cases h with
  | main hname =>
    rw [hnone hname, name?_append hname hstops]
    simp [hcomma]
  | @both cs b b' ds x ns hname hbefore hbehind hlist =>
    obtain ⟨more, hds⟩ := exists_cons_of_nameList hlist
    have hbraces : (comma? (b ++ ',' :: (b' ++ (ds ++ rest)))).bind list? = some (ns, rest) := by
      rw [comma?_append hbefore hbehind, Option.bind_some, list?_append hlist]
      rw [hds]
      exact stops_cons (by decide) _
    simp only [List.append_assoc, List.cons_append]
    rw [hnone hname, name?_append hname (stops_isIdentPart_append hbefore fun _ => stops_cons (by decide) _)]
    simp [hbraces]
  | list hlist => rw [list?_append hlist]

theorem clause?_eq_some {bindings : Bindings} (h : clause? cs = some (bindings, rest)) :
    ∃ part, cs = part ++ rest ∧ Clause part bindings := by
  unfold clause? at h
  cases hlist : list? cs with
  | some list =>
    rw [hlist] at h
    cases h
    obtain ⟨part, rfl, hpart⟩ := list?_eq_some hlist
    exact ⟨part, rfl, .list hpart⟩
  | none =>
    rw [hlist] at h
    obtain ⟨⟨x, behind⟩, hname, hmore⟩ := Option.bind_eq_some_iff.1 h
    obtain ⟨part, rfl, hpart⟩ := name?_eq_some hname
    dsimp only at hmore
    cases hbraces : (comma? behind).bind list? with
    | none =>
      rw [hbraces] at hmore
      cases hmore
      exact ⟨part, rfl, .main hpart⟩
    | some braces =>
      rw [hbraces] at hmore
      cases hmore
      obtain ⟨inside, hcomma, hinside⟩ := Option.bind_eq_some_iff.1 hbraces
      obtain ⟨b, b', rfl, hb, hb'⟩ := comma?_eq_some hcomma
      obtain ⟨ds, rfl, hds⟩ := list?_eq_some hinside
      exact ⟨part ++ b ++ ',' :: (b' ++ ds), by simp, .both hpart hb hb' hds⟩

/-! ### Path and end -/

theorem quoted?_append {path : String} (h : Quoted part path) (rest : List Char) :
    quoted? (part ++ rest) = some (path, rest) := by
  obtain ⟨hquote, hne, hinside⟩ := h
  rename_i q path
  have hall := forall_ne_of_notMem hinside
  have hstops : Stops (fun c => decide (c ≠ q)) (q :: rest) := stops_cons (by simp) _
  rw [List.cons_append, List.append_assoc, List.singleton_append, quoted?, if_pos hquote,
    takeWhile_append_of_stops hall hstops, dropWhile_append_of_stops hall hstops]
  cases path with
  | nil => exact absurd rfl hne
  | cons c path => rfl

theorem quoted?_eq_some {path : String} (h : quoted? cs = some (path, rest)) :
    ∃ part, cs = part ++ rest ∧ Quoted part path := by
  cases cs with
  | nil => cases h
  | cons q cs =>
    rw [quoted?] at h
    split_ifs at h with hquote
    split at h
    · next c inside d behind htake hdrop =>
      cases h
      have hd : d = q := by
        have hnot := List.head?_dropWhile_not (fun c => decide (c ≠ q)) cs
        rw [hdrop] at hnot
        simpa using hnot
      have hinside : q ∉ c :: inside := by
        intro hmem
        rw [← htake] at hmem
        simpa using List.mem_takeWhile_imp hmem
      have hcs := List.takeWhile_append_dropWhile (p := fun c => decide (c ≠ q)) (l := cs)
      rw [htake, hdrop, hd] at hcs
      refine ⟨q :: (c :: inside ++ [q]), ?_, .mk hquote (List.cons_ne_nil _ _) hinside⟩
      rw [← hcs]
      simp
    · cases h

/-- What stands behind the path is read as its blanks, its semicolon and its comment. -/
theorem endsHere_iff : endsHere cs ↔ Ending cs := by
  constructor
  · intro h
    obtain ⟨b, hcs, hb⟩ := exists_blanks cs
    obtain ⟨semicolon, hsemicolon, hbehind⟩ : ∃ semicolon, (semicolon = [] ∨ semicolon = [';']) ∧
        spaces cs = semicolon ++ (tag? ";" (spaces cs)).getD (spaces cs) := by
      cases htag : tag? ";" (spaces cs) with
      | none => exact ⟨[], .inl rfl, rfl⟩
      | some behind => exact ⟨[';'], .inr rfl, tag?_eq_some_iff.1 htag⟩
    unfold endsHere at h
    dsimp only at h
    generalize (tag? ";" (spaces cs)).getD (spaces cs) = behind at h hbehind
    obtain ⟨b', hspaces, hb'⟩ := exists_blanks behind
    rw [hbehind, hspaces] at hcs
    have hcomment : spaces behind = [] ∨
        ∃ text, spaces behind = '/' :: '/' :: text ∧ '\r' ∉ text ∧ '\n' ∉ text := by
      cases htag : tag? "//" (spaces behind) with
      | none =>
        rw [htag] at h
        exact .inl (List.isEmpty_iff.1 h)
      | some text =>
        rw [htag] at h
        refine .inr ⟨text, tag?_eq_some_iff.1 htag, ?_⟩
        simp only [Bool.not_eq_true', List.any_eq_false, Bool.or_eq_true, beq_iff_eq, not_or] at h
        exact ⟨fun hmem => (h _ hmem).2 rfl, fun hmem => (h _ hmem).1 rfl⟩
    rw [hcs, ← List.append_assoc, ← List.append_assoc]
    exact .mk hb hsemicolon hb' hcomment
  · rintro ⟨hb, hsemicolon, hb', hcomment⟩
    rename_i b semicolon b' comment
    have hstops : Stops isSpace comment := by
      rcases hcomment with rfl | ⟨text, rfl, -⟩
      · simp [Stops]
      · exact stops_cons (by decide) _
    have hbehind : spaces ((tag? ";" (spaces (b ++ semicolon ++ b' ++ comment))).getD
        (spaces (b ++ semicolon ++ b' ++ comment))) = comment := by
      rcases hsemicolon with rfl | rfl
      · have hnone : tag? ";" comment = none := by
          rcases hcomment with rfl | ⟨text, rfl, -⟩
          · rfl
          · exact tag?_cons_of_ne rfl (by decide) _
        rw [List.append_nil, spaces_append (blanks_append hb hb') hstops, hnone, Option.getD_none]
        exact spaces_eq_self hstops
      · rw [List.append_assoc, List.append_assoc, List.singleton_append, spaces_append hb (stops_cons (by decide) _),
          tag?_cons_self rfl, Option.getD_some, spaces_append hb' hstops]
    unfold endsHere
    dsimp only
    rw [hbehind]
    rcases hcomment with rfl | ⟨text, rfl, hreturn, hfeed⟩
    · rfl
    · rw [tag?_eq_some_iff.2 (rfl : '/' :: '/' :: text = "//".toList ++ text)]
      simp only [Bool.not_eq_true', List.any_eq_false, Bool.or_eq_true, beq_iff_eq, not_or]
      exact fun c hc => ⟨fun heq => hfeed (heq ▸ hc), fun heq => hreturn (heq ▸ hc)⟩

/-! ### Lines -/

/-- The steps of reading a line. -/
theorem ofChars?_eq_some_iff_steps {l : Line} : ofChars? cs = some l ↔ ∃ keyword clause behind word quoted ending,
    tag? "import" (spaces cs) = some keyword ∧ someSpaces? keyword = some clause ∧
      clause? clause = some (l.bindings, behind) ∧ someSpaces? behind = some word ∧
      tag? "from" word = some quoted ∧ quoted? (spaces quoted) = some (l.path, ending) ∧ endsHere ending := by
  constructor
  · intro h
    obtain ⟨keyword, himport, h⟩ := Option.bind_eq_some_iff.1 h
    obtain ⟨clause, hgap, h⟩ := Option.bind_eq_some_iff.1 h
    obtain ⟨⟨bindings, behind⟩, hclause, h⟩ := Option.bind_eq_some_iff.1 h
    obtain ⟨word, hgap', h⟩ := Option.bind_eq_some_iff.1 h
    obtain ⟨quoted, hfrom, h⟩ := Option.bind_eq_some_iff.1 h
    obtain ⟨⟨path, ending⟩, hquoted, h⟩ := Option.bind_eq_some_iff.1 h
    dsimp only at h
    split_ifs at h with hending
    cases h
    exact ⟨keyword, clause, behind, word, quoted, ending, himport, hgap, hclause, hgap', hfrom, hquoted, hending⟩
  · rintro ⟨keyword, clause, behind, word, quoted, ending, himport, hgap, hclause, hgap', hfrom, hquoted, hending⟩
    refine Option.bind_eq_some_iff.2 ⟨keyword, himport, Option.bind_eq_some_iff.2 ⟨clause, hgap, ?_⟩⟩
    refine Option.bind_eq_some_iff.2 ⟨_, hclause, Option.bind_eq_some_iff.2 ⟨word, hgap', ?_⟩⟩
    refine Option.bind_eq_some_iff.2 ⟨quoted, hfrom, Option.bind_eq_some_iff.2 ⟨_, hquoted, ?_⟩⟩
    exact if_pos hending

theorem exists_cons_of_clause {bindings : Bindings} (h : Clause part bindings) :
    ∃ c more, part = c :: more ∧ ¬isSpace c := by
  cases h with
  | main hname =>
    obtain ⟨c, more, rfl, hc⟩ := exists_cons_of_name hname
    exact ⟨c, more, rfl, not_isSpace_of_isIdentStart hc⟩
  | both hname =>
    obtain ⟨c, more, rfl, hc⟩ := exists_cons_of_name hname
    exact ⟨c, _, rfl, not_isSpace_of_isIdentStart hc⟩
  | list hlist =>
    obtain ⟨more, rfl⟩ := exists_cons_of_nameList hlist
    exact ⟨'{', more, rfl, by decide⟩

theorem sentence_of_ofChars? {l : Line} (h : ofChars? cs = some l) : Sentence cs l := by
  obtain ⟨keyword, clause, behind, word, quoted, ending, himport, hgap, hclause, hgap', hfrom, hquoted, hending⟩ :=
    ofChars?_eq_some_iff_steps.1 h
  obtain ⟨b, hcs, hb⟩ := exists_blanks cs
  obtain ⟨g, rfl, hg⟩ := someSpaces?_eq_some hgap
  obtain ⟨part, rfl, hpart⟩ := clause?_eq_some hclause
  obtain ⟨g', rfl, hg'⟩ := someSpaces?_eq_some hgap'
  obtain rfl := tag?_eq_some_iff.1 hfrom
  obtain ⟨b', hspaces, hb'⟩ := exists_blanks quoted
  obtain ⟨path, hsplit, hpath⟩ := quoted?_eq_some hquoted
  have hsentence := Sentence.mk hb hg hpart hg' hb' hpath (endsHere_iff.1 hending)
  rw [hcs, tag?_eq_some_iff.1 himport, hspaces, hsplit]
  simpa only [List.append_assoc] using hsentence

theorem ofChars?_of_sentence {l : Line} (h : Sentence cs l) : ofChars? cs = some l := by
  obtain ⟨hb, hg, hclause, hg', hb', hpath, hending⟩ := h
  rename_i b g clause g' b' path ending bindings text
  obtain ⟨c, more, hcons, hc⟩ := exists_cons_of_clause hclause
  have himport (rest : List Char) : Stops isSpace ("import".toList ++ rest) := stops_cons (by decide) _
  have hfrom (rest : List Char) : Stops isSpace ("from".toList ++ rest) := stops_cons (by decide) _
  have hclauseStops : Stops isSpace (clause ++ (g' ++ ("from".toList ++ (b' ++ (path ++ ending))))) := by
    rw [hcons]
    exact stops_cons hc _
  have hpathStops : Stops isSpace (path ++ ending) := by
    obtain ⟨hquote, -, -⟩ := hpath
    refine stops_cons ?_ _
    rcases hquote with rfl | rfl <;> decide
  have hcomma : comma? (g' ++ ("from".toList ++ (b' ++ (path ++ ending)))) = none :=
    comma?_eq_none hg'.2 (by decide) (by decide) _
  simp only [List.append_assoc]
  refine ofChars?_eq_some_iff_steps.2 ⟨_, _, _, _, _, ending, ?_, someSpaces?_append hg hclauseStops,
    clause?_append hclause (stops_isIdentPart_append hg'.2 fun hnil => absurd hnil hg'.1) hcomma,
    someSpaces?_append hg' (hfrom _), tag?_eq_some_iff.2 rfl, ?_, endsHere_iff.2 hending⟩
  · rw [spaces_append hb (himport _)]
    exact tag?_eq_some_iff.2 rfl
  · rw [spaces_append hb' hpathStops]
    exact quoted?_append hpath ending

/-- Blanks in front of a line make no difference. -/
theorem ofChars?_blanks_append {b : List Char} (hb : Blanks b) (cs : List Char) : ofChars? (b ++ cs) = ofChars? cs := by
  have hspaces : spaces (b ++ cs) = spaces cs := List.dropWhile_append_of_pos (blanks_iff.1 hb)
  unfold ofChars?
  rw [hspaces]

/-- Spaces and tabs behind a line, which a comment may have too, make no difference. -/
theorem ofChars?_append_blanks {l : Line} {t : List Char} (ht : ∀ c ∈ t, c = ' ' ∨ c = '\t')
    (h : ofChars? cs = some l) : ofChars? (cs ++ t) = some l := by
  obtain ⟨hb, hg, hclause, hg', hb', hpath, hending⟩ := sentence_of_ofChars? h
  rename_i ending _ _
  have hblanks : Blanks t := fun c hc => (ht c hc).imp_right .inl
  have hending' : Ending (ending ++ t) := by
    obtain ⟨hb, hsemicolon, hb', rfl | ⟨text, rfl, hreturn, hfeed⟩⟩ := hending
    · rename_i b'
      simpa using Ending.mk hb hsemicolon (blanks_append hb' hblanks) (.inl rfl)
    · have hmore : '\r' ∉ text ++ t ∧ '\n' ∉ text ++ t := by
        constructor
        all_goals
          intro hmem
          rcases List.mem_append.1 hmem with hmem | hmem
        · exact hreturn hmem
        · exact absurd (ht _ hmem) (by decide)
        · exact hfeed hmem
        · exact absurd (ht _ hmem) (by decide)
      simpa using Ending.mk hb hsemicolon hb' (.inr ⟨text ++ t, rfl, hmore⟩)
  rw [List.append_assoc]
  exact ofChars?_of_sentence (.mk hb hg hclause hg' hb' hpath hending')

/-- **Import lines.**  A line is read as an import exactly if it has a derivation, and as what every derivation of it
means. -/
theorem ofText?_grammar (text : String) : ((ofText? text).isSome ↔ ∃ l, Sentence text.toList l) ∧
    ∀ l, ofText? text = some l → Sentence text.toList l ∧ ∀ l', Sentence text.toList l' → l' = l := by
  refine ⟨?_, fun l hl => ⟨sentence_of_ofChars? hl, fun l' hl' => ?_⟩⟩
  · rw [Option.isSome_iff_exists]
    exact exists_congr fun l => ⟨sentence_of_ofChars?, ofChars?_of_sentence⟩
  · exact Option.some.inj ((ofChars?_of_sentence hl').symm.trans hl)

/-- The words of the grammar are names too. -/
example : ofText? "import from, \x7b as as as, type \x7d from './as'; // from" =
    some ⟨⟨some "from", [], [⟨"as", "as"⟩, ⟨"type", "type"⟩]⟩, "./as"⟩ := by decide +kernel

end Line

end CapsuleCompiler.Import
