import CapsuleCompiler.Proofs.Import.Grammar
import Mathlib.Tactic.Tauto

/-!
# Proofs.Import.Bindings — bindings taken together, and written as a clause

Taking the bindings of two lines together binds what either of them binds (`mem_locals_merge`).  `Proper` says what
bindings are like that come from lines in this way: names are identifiers, there is one at least, and aliases need a
default name.  The clause of such bindings is a sentence of the grammar and stays within a line, so an import that is
written with it is read as their default name and their named imports (`ofText?_import`).
-/

namespace CapsuleCompiler.Import

namespace Bindings

variable {a b : Bindings} {name : String}

/-! ### Names of both -/

theorem mem_locals_addMain {other : String} : name ∈ (b.addMain other).locals ↔ name ∈ b.locals ∨ name = other := by
  unfold addMain
  cases hmain : b.main with
  | none =>
    simp only [locals, hmain, Option.toList_some, Option.toList_none, List.mem_append, List.mem_singleton,
      List.not_mem_nil]
    tauto
  | some first =>
    by_cases hold : first = other ∨ b.aliases.contains other
    · have hmem : other ∈ b.locals := by
        rw [List.contains_iff_mem] at hold
        simp only [locals, hmain, Option.toList_some, List.mem_append, List.mem_singleton]
        rcases hold with rfl | hold
        · exact .inl (.inl rfl)
        · exact .inl (.inr hold)
      dsimp only
      rw [if_pos hold]
      exact ⟨.inl, fun h => h.elim id fun heq => heq ▸ hmem⟩
    · dsimp only
      rw [if_neg hold]
      simp only [locals, hmain, List.mem_append, List.mem_singleton]
      tauto

theorem mem_locals_addNamed {n : NamedImport} : name ∈ (b.addNamed n).locals ↔ name ∈ b.locals ∨ name = n.bound := by
  unfold addNamed
  by_cases hold : b.named.any (·.bound == n.bound)
  · have hmem : n.bound ∈ b.locals := by
      obtain ⟨m, hm, heq⟩ := List.any_eq_true.1 hold
      exact List.mem_append_right _ (List.mem_map.2 ⟨m, hm, beq_iff_eq.1 heq⟩)
    rw [if_pos hold]
    exact ⟨.inl, fun h => h.elim id fun heq => heq ▸ hmem⟩
  · rw [if_neg hold]
    simp only [locals, List.map_append, List.map_cons, List.map_nil, List.mem_append, List.mem_singleton]
    tauto

/-- Bindings taken together bind what either of them binds. -/
theorem mem_locals_merge : name ∈ (a.merge b).locals ↔ name ∈ a.locals ∨ name ∈ b.locals := by
  have hmains (names : List String) (a : Bindings) :
      name ∈ (names.foldl addMain a).locals ↔ name ∈ a.locals ∨ name ∈ names := by
    induction names generalizing a with
    | nil => simp
    | cons other names ih => rw [List.foldl_cons, ih, mem_locals_addMain, List.mem_cons, or_assoc]
  have hnamed (ns : List NamedImport) (a : Bindings) :
      name ∈ (ns.foldl addNamed a).locals ↔ name ∈ a.locals ∨ name ∈ ns.map (·.bound) := by
    induction ns generalizing a with
    | nil => simp
    | cons n ns ih => rw [List.foldl_cons, ih, mem_locals_addNamed, List.map_cons, List.mem_cons, or_assoc]
  have hlocals : b.locals = b.main.toList ++ b.aliases ++ b.named.map (·.bound) := rfl
  rw [merge, hnamed, hmains, hlocals, List.mem_append (s := b.main.toList ++ b.aliases), or_assoc]

/-! ### Bindings that lines can have -/

/-- Identifiers, at least one of them, and aliases of a default name only. -/
structure Proper (b : Bindings) : Prop where
  main : ∀ x ∈ b.main, Naming.isIdentifier x
  aliases : ∀ x ∈ b.aliases, Naming.isIdentifier x
  named : ∀ n ∈ b.named, Naming.isIdentifier n.imported ∧ Naming.isIdentifier n.bound
  aliased : b.main = none → b.aliases = []
  binding : b.main = none → b.named ≠ []

theorem Proper.addMain (h : b.Proper) (hname : Naming.isIdentifier name) : (b.addMain name).Proper := by
  unfold Bindings.addMain
  cases hmain : b.main with
  | none =>
    refine ⟨fun x hx => ?_, h.aliases, h.named, fun hnone => ?_, fun hnone => ?_⟩
    · obtain rfl := Option.some.inj hx
      exact hname
    · cases hnone
    · cases hnone
  | some first =>
    dsimp only
    split_ifs with hold
    · exact h
    · refine ⟨fun x hx => h.main x (hmain ▸ hx), fun x hx => ?_, h.named, fun hnone => ?_, fun hnone => ?_⟩
      · rcases List.mem_append.1 hx with hx | hx
        · exact h.aliases x hx
        · exact List.mem_singleton.1 hx ▸ hname
      · cases hnone
      · cases hnone

theorem Proper.addNamed (h : b.Proper) {n : NamedImport}
    (hn : Naming.isIdentifier n.imported ∧ Naming.isIdentifier n.bound) : (b.addNamed n).Proper := by
  unfold Bindings.addNamed
  split_ifs with hold
  · exact h
  · refine ⟨h.main, h.aliases, fun m hm => ?_, h.aliased, fun _ => List.append_ne_nil_of_right_ne_nil _ (by simp)⟩
    rcases List.mem_append.1 hm with hm | hm
    · exact h.named m hm
    · exact List.mem_singleton.1 hm ▸ hn

theorem Proper.merge (ha : a.Proper) (hb : b.Proper) : (a.merge b).Proper := by
  refine List.foldlRecOn _ _ (List.foldlRecOn _ _ ha ?_) fun c hc n hn => hc.addNamed (hb.named n hn)
  intro c hc x hx
  refine hc.addMain ?_
  rcases List.mem_append.1 hx with hx | hx
  · exact hb.main x (Option.mem_toList.1 hx)
  · exact hb.aliases x hx

theorem Proper.isIdentifier (h : b.Proper) (hname : name ∈ b.locals) : Naming.isIdentifier name := by
  rcases List.mem_append.1 hname with hname | hname
  · rcases List.mem_append.1 hname with hname | hname
    · exact h.main name (Option.mem_toList.1 hname)
    · exact h.aliases name hname
  · obtain ⟨n, hn, rfl⟩ := List.mem_map.1 hname
    exact (h.named n hn).2

end Bindings

/-! ### Names of the grammar -/

namespace Grammar

variable {cs : List Char} {x : String}

theorem name_of_isIdentifier (h : Naming.isIdentifier x) : Name x.toList x := by
  unfold Naming.isIdentifier at h
  split at h
  · cases h
  · next c cs hcs =>
    rw [Bool.and_eq_true, List.all_eq_true] at h
    have hname := Name.mk (Line.isIdentStart_iff.1 h.1) fun d hd => Line.isIdentPart_iff.1 (h.2 d hd)
    rw [← hcs, String.ofList_toList] at hname
    exact hname

theorem isIdentifier_of_name (h : Name cs x) : Naming.isIdentifier x := by
  obtain ⟨hfirst, hrest⟩ := h
  rw [Naming.isIdentifier, String.toList_ofList, Bool.and_eq_true, List.all_eq_true]
  exact ⟨Line.isIdentStart_iff.2 hfirst, fun d hd => Line.isIdentPart_iff.2 (hrest d hd)⟩

theorem isIdentifier_of_specifier {n : NamedImport} (h : Specifier cs n) :
    Naming.isIdentifier n.imported ∧ Naming.isIdentifier n.bound := by
  cases h with
  | same hname => exact ⟨isIdentifier_of_name hname, isIdentifier_of_name hname⟩
  | renamed hname _ _ hlocal => exact ⟨isIdentifier_of_name hname, isIdentifier_of_name hlocal⟩

theorem isIdentifier_of_more {ns : List NamedImport} (h : More cs ns) :
    ∀ n ∈ ns, Naming.isIdentifier n.imported ∧ Naming.isIdentifier n.bound := by
  induction h with
  | nil => exact fun n hn => absurd hn List.not_mem_nil
  | cons _ _ hspec _ ih => exact List.forall_mem_cons.2 ⟨isIdentifier_of_specifier hspec, ih⟩

theorem isIdentifier_of_nameList {ns : List NamedImport} (h : NameList cs ns) :
    ns ≠ [] ∧ ∀ n ∈ ns, Naming.isIdentifier n.imported ∧ Naming.isIdentifier n.bound := by
  obtain ⟨-, hspec, hmore, -⟩ := h
  exact ⟨List.cons_ne_nil _ _, List.forall_mem_cons.2 ⟨isIdentifier_of_specifier hspec, isIdentifier_of_more hmore⟩⟩

theorem proper_of_clause {b : Bindings} (h : Clause cs b) : b.Proper := by
  cases h with
  | main hname =>
    refine ⟨fun x hx => ?_, by simp, by simp, by simp, by simp⟩
    exact Option.some.inj hx ▸ isIdentifier_of_name hname
  | both hname _ _ hlist =>
    refine ⟨fun x hx => ?_, by simp, (isIdentifier_of_nameList hlist).2, by simp, by simp⟩
    exact Option.some.inj hx ▸ isIdentifier_of_name hname
  | list hlist =>
    obtain ⟨hne, hnames⟩ := isIdentifier_of_nameList hlist
    exact ⟨by simp, by simp, hnames, by simp, fun _ => hne⟩

/-! ### Clauses that are written -/

theorem blanks_space : Blanks [' '] := by simp [Blanks]

theorem comma_append (rest : List Char) : ", ".toList ++ rest = ',' :: ' ' :: rest := rfl

theorem gap_space : Gap [' '] := ⟨List.cons_ne_nil _ _, blanks_space⟩

theorem specifier_namedText {n : NamedImport} (h : Naming.isIdentifier n.imported ∧ Naming.isIdentifier n.bound) :
    Specifier (Bindings.namedText n).toList n := by
  obtain ⟨imported, bound⟩ := n
  unfold Bindings.namedText
  dsimp only at h ⊢
  split_ifs with hsame
  · subst hsame
    exact .same (name_of_isIdentifier h.1)
  · have has : " as ".toList = [' '] ++ "as".toList ++ [' '] := rfl
    have hspec := Specifier.renamed (name_of_isIdentifier h.1) gap_space gap_space (name_of_isIdentifier h.2)
    rw [String.toList_append, String.toList_append, has]
    simpa only [List.append_assoc] using hspec

theorem more_namedText {ns : List NamedImport}
    (h : ∀ n ∈ ns, Naming.isIdentifier n.imported ∧ Naming.isIdentifier n.bound) :
    More (ns.flatMap fun n => ", ".toList ++ (Bindings.namedText n).toList) ns := by
  induction ns with
  | nil => exact .nil
  | cons n ns ih =>
    have hspec := specifier_namedText (h n List.mem_cons_self)
    have hmore := More.cons Line.blanks_nil blanks_space hspec (ih fun m hm => h m (List.mem_cons_of_mem _ hm))
    rw [List.flatMap_cons, List.append_assoc, comma_append]
    simpa only [List.append_assoc, List.nil_append, List.cons_append] using hmore

theorem nameList_listText {ns : List NamedImport} (hne : ns ≠ [])
    (h : ∀ n ∈ ns, Naming.isIdentifier n.imported ∧ Naming.isIdentifier n.bound) :
    NameList (Bindings.listText ns).toList ns := by
  obtain ⟨n, ns, rfl⟩ := List.exists_cons_of_ne_nil hne
  obtain ⟨hn, hns⟩ := List.forall_mem_cons.1 h
  have hclosing := Closing.bare blanks_space Line.blanks_nil
  have hlist := NameList.mk blanks_space (specifier_namedText hn) (more_namedText hns) hclosing
  have hopen : "\x7b ".toList = ['{', ' '] := rfl
  have hclose : " \x7d".toList = [' ', '}'] := rfl
  rw [Bindings.listText, String.toList_append, String.toList_append, hopen, hclose, List.map_cons,
    Text.toList_intercalate_cons, List.flatMap_map]
  simpa only [List.append_assoc, List.nil_append, List.cons_append] using hlist

/-- What is written between `import` and `from` means the default name and the named imports. -/
theorem clause_text {b : Bindings} (h : b.Proper) : Clause b.clause.toList ⟨b.main, [], b.named⟩ := by
  unfold Bindings.clause
  cases hmain : b.main with
  | none => exact .list (nameList_listText (h.binding hmain) h.named)
  | some x =>
    have hname := name_of_isIdentifier (h.main x hmain)
    dsimp only
    split_ifs with hnamed
    · rw [List.isEmpty_iff.1 hnamed]
      exact .main hname
    · have hne : b.named ≠ [] := fun heq => hnamed (List.isEmpty_iff.2 heq)
      have hboth := Clause.both hname Line.blanks_nil blanks_space (nameList_listText hne h.named)
      rw [String.toList_append, String.toList_append, List.append_assoc, comma_append]
      simpa only [List.append_assoc, List.nil_append, List.cons_append] using hboth

end Grammar

/-! ### Imports that are written -/

namespace Bindings

variable {b : Bindings}

/-- The names that a clause shows. -/
def clauseNames (b : Bindings) : List String := b.main.toList ++ b.named.flatMap fun n => [n.imported, n.bound]

/-- For its clause, bindings are as they are without aliases. -/
theorem proper_without_aliases (hnames : ∀ x ∈ b.clauseNames, Naming.isIdentifier x)
    (hone : b.main ≠ none ∨ b.named ≠ []) : ({ b with aliases := [] } : Bindings).Proper := by
  obtain ⟨hmain, hnamed⟩ := List.forall_mem_append.1 hnames
  refine ⟨fun x hx => hmain x (Option.mem_toList.2 hx), by simp, fun n hn => ?_, fun _ => rfl, fun hnone => ?_⟩
  · have hboth : ∀ x ∈ [n.imported, n.bound], Naming.isIdentifier x := fun x hx =>
      hnamed x (List.mem_flatMap.2 ⟨n, hn, hx⟩)
    exact ⟨hboth _ (by simp), hboth _ (by simp)⟩
  · exact hone.resolve_left fun hmain => hmain hnone

end Bindings

namespace Line

open Grammar

variable {b : Bindings} {path : String}

/-- An import that is written with the clause of some bindings is read as their default name and named imports. -/
theorem ofText?_import (h : b.Proper) (hne : path.toList ≠ []) (hquote : '\'' ∉ path.toList) :
    ofText? ("import " ++ b.clause ++ " from '" ++ path ++ "'") = some ⟨⟨b.main, [], b.named⟩, path⟩ := by
  have hquoted := Quoted.mk (.inl rfl) hne hquote
  rw [String.ofList_toList] at hquoted
  have hending : Ending [] := .mk blanks_nil (.inl rfl) blanks_nil (.inl rfl)
  have hsentence := Sentence.mk blanks_nil gap_space (clause_text h) gap_space blanks_space hquoted hending
  have himport : "import ".toList = "import".toList ++ [' '] := rfl
  have hfrom : " from '".toList = [' '] ++ "from".toList ++ [' ', '\''] := rfl
  have hend : "'".toList = ['\''] := rfl
  refine ofChars?_of_sentence ?_
  rw [String.toList_append, String.toList_append, String.toList_append, String.toList_append, himport, hfrom, hend]
  simpa only [List.append_assoc, List.nil_append, List.cons_append, List.append_nil] using hsentence

/-- **Imports written and read.**  A line that imports with the clause of some bindings, from a path in single quotes,
is an import as a whole.  It is read as this path and as the default name and the named imports of the bindings, which
are any identifiers, words of the grammar among them. -/
theorem ofText?_clause (hnames : ∀ x ∈ b.clauseNames, Naming.isIdentifier x) (hone : b.main ≠ none ∨ b.named ≠ [])
    (hpath : path ≠ "") (hquote : '\'' ∉ path.toList) :
    Sentence ("import " ++ b.clause ++ " from '" ++ path ++ "'").toList ⟨{ b with aliases := [] }, path⟩ ∧
      ofText? ("import " ++ b.clause ++ " from '" ++ path ++ "'") = some ⟨{ b with aliases := [] }, path⟩ := by
  have hne : path.toList ≠ [] := mt String.toList_eq_nil_iff.1 hpath
  -- The clause does not show aliases, so it is also that of the bindings without them.
  have hread := ofText?_import (Bindings.proper_without_aliases hnames hone) hne hquote
  exact ⟨sentence_of_ofChars? hread, hread⟩

/-- Bindings with words of the grammar for names. -/
def wordBindings : Bindings := ⟨some "from", ["as"], [⟨"as", "as"⟩, ⟨"import", "from"⟩, ⟨"as", "import"⟩]⟩

theorem ofText?_clause_words :
    wordBindings.clause = "from, \x7b as, import as from, as as import \x7d" ∧
      (∀ x ∈ wordBindings.clauseNames, Naming.isIdentifier x) ∧
      Sentence ("import " ++ wordBindings.clause ++ " from '" ++ "./as;//from" ++ "'").toList
        ⟨{ wordBindings with aliases := [] }, "./as;//from"⟩ ∧
      ofText? ("import " ++ wordBindings.clause ++ " from '" ++ "./as;//from" ++ "'") =
        some ⟨⟨some "from", [], [⟨"as", "as"⟩, ⟨"import", "from"⟩, ⟨"as", "import"⟩]⟩, "./as;//from"⟩ := by
  have hnames : ∀ x ∈ wordBindings.clauseNames, Naming.isIdentifier x := by decide +kernel
  have hpath : "./as;//from" ≠ "" := by decide
  exact ⟨by decide +kernel, hnames, ofText?_clause hnames (.inl (by decide)) hpath (by decide)⟩

theorem proper_of_ofChars? {cs : List Char} {l : Line} (h : ofChars? cs = some l) : l.bindings.Proper := by
  obtain ⟨-, -, hclause, -⟩ := sentence_of_ofChars? h
  exact proper_of_clause hclause

end Line

/-! ### Clauses within a line -/

namespace Bindings

variable {b : Bindings}

theorem inLine_of_isIdentifier {name : String} (h : Naming.isIdentifier name) : Text.InLine name.toList :=
  (Naming.plain_of_isIdentifier h).inLine

theorem inLine_namedText {n : NamedImport} (h : Naming.isIdentifier n.imported ∧ Naming.isIdentifier n.bound) :
    Text.InLine (namedText n).toList := by
  unfold namedText
  split_ifs
  · exact inLine_of_isIdentifier h.2
  · rw [String.toList_append, String.toList_append]
    exact ((inLine_of_isIdentifier h.1).append (by decide)).append (inLine_of_isIdentifier h.2)

theorem inLine_listText {ns : List NamedImport}
    (h : ∀ n ∈ ns, Naming.isIdentifier n.imported ∧ Naming.isIdentifier n.bound) :
    Text.InLine (listText ns).toList := by
  have hnames : Text.InLine (", ".intercalate (ns.map namedText)).toList := by
    cases ns with
    | nil => exact (by decide : Text.InLine (", ".intercalate []).toList)
    | cons n ns =>
      obtain ⟨hn, hns⟩ := List.forall_mem_cons.1 h
      rw [List.map_cons, Text.toList_intercalate_cons, List.flatMap_map]
      refine (inLine_namedText hn).append (Text.inLine_flatMap fun m hm => ?_)
      exact (by decide : Text.InLine ", ".toList).append (inLine_namedText (hns m hm))
  rw [listText, String.toList_append, String.toList_append]
  exact ((by decide : Text.InLine "\x7b ".toList).append hnames).append (by decide)

theorem Proper.inLine_clause (h : b.Proper) : Text.InLine b.clause.toList := by
  unfold clause
  cases hmain : b.main with
  | none => exact inLine_listText h.named
  | some x =>
    have hx := inLine_of_isIdentifier (h.main x hmain)
    dsimp only
    split_ifs
    · exact hx
    · rw [String.toList_append, String.toList_append]
      exact (hx.append (by decide)).append (inLine_listText h.named)

end Bindings

end CapsuleCompiler.Import
