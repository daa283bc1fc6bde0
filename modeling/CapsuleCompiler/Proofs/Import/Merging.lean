import CapsuleCompiler.Proofs.Import.Bindings

/-!
# Proofs.Import.Merging — the laws of taking bindings together

The names of the default export are told apart by themselves, and named imports by their local names.  In both lists
an item comes behind the others unless one of them has its key (`addUnmet`), and the items of a second list come one
after the other (`union`).  If aliases stand beside a default name only, and none of them is that name (`WellAliased`),
the default name is the head of the list of all names of the default export, and taking bindings together is `union` in
both lists (`mains_merge`, `named_merge`).  So the laws of `union` are those of `merge` (`merge_laws`).
-/

namespace CapsuleCompiler.Import

/-! ### Lists with one item for a key -/

section

variable {α κ : Type} [DecidableEq κ] {key : α → κ} {xs ys zs : List α}

/-- The item comes behind a list that has none with its key. -/
def addUnmet (key : α → κ) (xs : List α) (x : α) : List α := if key x ∈ xs.map key then xs else xs ++ [x]

/-- The items of the second list come behind the first, each unless its key is met before. -/
def union (key : α → κ) (xs ys : List α) : List α := ys.foldl (addUnmet key) xs

theorem union_cons (key : α → κ) (xs : List α) (y : α) (ys : List α) :
    union key xs (y :: ys) = union key (addUnmet key xs y) ys :=
  rfl

theorem mem_keys_addUnmet {x : α} {k : κ} : k ∈ (addUnmet key xs x).map key ↔ k ∈ xs.map key ∨ k = key x := by
  unfold addUnmet
  split_ifs with hmet
  · exact ⟨.inl, fun h => h.elim id fun heq => heq ▸ hmet⟩
  · rw [List.map_append, List.mem_append, List.map_singleton, List.mem_singleton]

theorem mem_keys_union {k : κ} : k ∈ (union key xs ys).map key ↔ k ∈ xs.map key ∨ k ∈ ys.map key := by
  induction ys generalizing xs with
  | nil => simp [union]
  | cons y ys ih =>
    rw [union_cons, ih, mem_keys_addUnmet, List.map_cons, List.mem_cons, or_assoc]

/-- An item is added to the second list or to both. -/
theorem union_addUnmet (key : α → κ) (xs ys : List α) (z : α) :
    union key xs (addUnmet key ys z) = addUnmet key (union key xs ys) z := by
  by_cases hmet : key z ∈ ys.map key
  · have hboth : key z ∈ (union key xs ys).map key := mem_keys_union.2 (.inr hmet)
    rw [addUnmet, if_pos hmet, addUnmet, if_pos hboth]
  · rw [addUnmet, if_neg hmet]
    exact List.foldl_append ..

theorem union_assoc (key : α → κ) (xs ys zs : List α) :
    union key (union key xs ys) zs = union key xs (union key ys zs) := by
  induction zs generalizing ys with
  | nil => rfl
  | cons z zs ih =>
    calc union key (union key xs ys) (z :: zs)
        = union key (addUnmet key (union key xs ys) z) zs := union_cons ..
      _ = union key (union key xs (addUnmet key ys z)) zs := by rw [union_addUnmet]
      _ = union key xs (union key (addUnmet key ys z) zs) := ih _

theorem union_of_met (h : ∀ y ∈ ys, key y ∈ xs.map key) : union key xs ys = xs := by
  induction ys with
  | nil => rfl
  | cons y ys ih =>
    obtain ⟨hy, hys⟩ := List.forall_mem_cons.1 h
    rw [union_cons, addUnmet, if_pos hy, ih hys]

theorem union_self (key : α → κ) (xs : List α) : union key xs xs = xs :=
  union_of_met fun _ => List.mem_map_of_mem

/-- What comes behind the first list: of the second, the first item of each key that is new. -/
theorem union_eq_append (key : α → κ) (xs ys : List α) :
    union key xs ys = xs ++ (ys.filter (key · ∉ xs.map key)).eraseDupsBy (key · == key ·) := by
  induction ys generalizing xs with
  | nil => simp [union]
  | cons y ys ih =>
    rw [union_cons, ih, addUnmet]
    by_cases hmet : key y ∈ xs.map key
    · rw [if_pos hmet, List.filter_cons_of_neg (by simpa using hmet)]
    · have hfilter : ys.filter (key · ∉ (xs ++ [y]).map key) =
          (ys.filter (key · ∉ xs.map key)).filter fun z => decide ((key z == key y) = false) := by
        rw [List.filter_filter]
        refine List.filter_congr fun z _ => ?_
        rw [Bool.eq_iff_iff, List.map_append]
        simp [and_comm]
      rw [if_neg hmet, List.filter_cons_of_pos (by simpa using hmet), List.eraseDupsBy_cons, hfilter,
        List.append_assoc, List.singleton_append]

theorem prefix_union (key : α → κ) (xs ys : List α) : xs <+: union key xs ys :=
  union_eq_append key xs ys ▸ List.prefix_append ..

theorem nil_union (key : α → κ) (ys : List α) : union key [] ys = ys.eraseDupsBy (key · == key ·) := by
  simp [union_eq_append]

end

namespace Bindings

variable {a b c : Bindings} {name : String}

/-! ### Names of the default export -/

/-- Every name of the default export. -/
def mains (b : Bindings) : List String := b.main.toList ++ b.aliases

/-- Aliases stand beside a default name only, and none of them is that name. -/
structure WellAliased (b : Bindings) : Prop where
  beside : b.main = none → b.aliases = []
  distinct : ∀ x ∈ b.main, x ∉ b.aliases

theorem wellAliased_of_aliases_eq_nil (h : b.aliases = []) : b.WellAliased :=
  ⟨fun _ => h, fun _ _ => h ▸ List.not_mem_nil⟩

theorem WellAliased.ext (ha : a.WellAliased) (hb : b.WellAliased) (hmains : a.mains = b.mains)
    (hnamed : a.named = b.named) : a = b := by
  obtain ⟨main, aliases, named⟩ := a
  obtain ⟨main', aliases', named'⟩ := b
  have hbeside := ha.beside
  have hbeside' := hb.beside
  simp only [mains] at hmains hnamed hbeside hbeside' ⊢
  cases main with
  | none => cases main' <;> simp_all
  | some x => cases main' <;> simp_all

/-- A name of the default export is known, or becomes the default name, or becomes an alias. -/
theorem addMain_cases (h : b.WellAliased) (name : String) :
    name ∈ b.mains ∧ b.addMain name = b ∨
      name ∉ b.mains ∧ b.main = none ∧ b.aliases = [] ∧ b.addMain name = { b with main := some name } ∨
      name ∉ b.mains ∧ b.main ≠ none ∧ b.addMain name = { b with aliases := b.aliases ++ [name] } := by
  unfold addMain mains
  cases hmain : b.main with
  | none =>
    have halone := h.beside hmain
    refine .inr (.inl ⟨?_, rfl, halone, rfl⟩)
    simp [halone]
  | some first =>
    dsimp only
    by_cases hold : first = name ∨ b.aliases.contains name
    · refine .inl ⟨?_, if_pos hold⟩
      simpa [eq_comm] using hold
    · refine .inr (.inr ⟨?_, Option.some_ne_none _, if_neg hold⟩)
      simpa [eq_comm] using hold

theorem mains_addMain (h : b.WellAliased) (name : String) : (b.addMain name).mains = addUnmet id b.mains name := by
  rw [addUnmet, List.map_id, id_eq]
  rcases addMain_cases h name with ⟨hmem, heq⟩ | ⟨hnew, hmain, halone, heq⟩ | ⟨hnew, -, heq⟩
  · rw [if_pos hmem, heq]
  · rw [if_neg hnew, heq, mains, mains, hmain, halone]
    rfl
  · rw [if_neg hnew, heq, mains, mains, List.append_assoc]

theorem named_addMain (b : Bindings) (name : String) : (b.addMain name).named = b.named := by
  unfold addMain
  split
  · rfl
  · split_ifs <;> rfl

theorem WellAliased.addMain (h : b.WellAliased) (name : String) : (b.addMain name).WellAliased := by
  rcases addMain_cases h name with ⟨-, heq⟩ | ⟨-, -, halone, heq⟩ | ⟨hnew, hmain, heq⟩
  · rw [heq]
    exact h
  · rw [heq]
    exact wellAliased_of_aliases_eq_nil halone
  · rw [heq]
    refine ⟨fun hnone => absurd hnone hmain, fun x hx hmem => ?_⟩
    rcases List.mem_append.1 hmem with hmem | hmem
    · exact h.distinct x hx hmem
    · refine hnew (List.mem_append_left _ (Option.mem_toList.2 ?_))
      exact List.mem_singleton.1 hmem ▸ hx

/-! ### Both lists -/

theorem mains_addNamed (b : Bindings) (n : NamedImport) : (b.addNamed n).mains = b.mains := by
  unfold addNamed
  split_ifs <;> rfl

theorem named_addNamed (b : Bindings) (n : NamedImport) : (b.addNamed n).named = addUnmet (·.bound) b.named n := by
  have hmet : b.named.any (·.bound == n.bound) ↔ n.bound ∈ b.named.map (·.bound) := by simp
  unfold addNamed addUnmet
  by_cases h : n.bound ∈ b.named.map (·.bound)
  · rw [if_pos h, if_pos (hmet.2 h)]
  · rw [if_neg h, if_neg (mt hmet.1 h)]

theorem WellAliased.addNamed (h : b.WellAliased) (n : NamedImport) : (b.addNamed n).WellAliased := by
  unfold Bindings.addNamed
  split_ifs
  · exact h
  · exact ⟨h.beside, h.distinct⟩

theorem WellAliased.merge (ha : a.WellAliased) (b : Bindings) : (a.merge b).WellAliased :=
  List.foldlRecOn _ _ (List.foldlRecOn _ _ ha fun _ h x _ => h.addMain x) fun _ h n _ => h.addNamed n

theorem mains_merge (ha : a.WellAliased) (b : Bindings) : (a.merge b).mains = union id a.mains b.mains := by
  have hnamed (ns : List NamedImport) (a : Bindings) : (ns.foldl Bindings.addNamed a).mains = a.mains :=
    List.foldlRecOn (motive := fun c => c.mains = a.mains) _ _ rfl fun c hc n _ => (mains_addNamed c n).trans hc
  have hmains (names : List String) (a : Bindings) (ha : a.WellAliased) :
      (names.foldl Bindings.addMain a).mains = union id a.mains names := by
    induction names generalizing a with
    | nil => rfl
    | cons x names ih => rw [List.foldl_cons, ih _ (ha.addMain x), mains_addMain ha]; rfl
  rw [Bindings.merge, hnamed]
  exact hmains _ a ha

theorem named_merge (a b : Bindings) : (a.merge b).named = union (·.bound) a.named b.named := by
  have hmains (names : List String) (a : Bindings) : (names.foldl Bindings.addMain a).named = a.named :=
    List.foldlRecOn (motive := fun c => c.named = a.named) _ _ rfl fun c hc x _ => (named_addMain c x).trans hc
  have hnamed (ns : List NamedImport) (a : Bindings) :
      (ns.foldl Bindings.addNamed a).named = union (·.bound) a.named ns := by
    induction ns generalizing a with
    | nil => rfl
    | cons n ns ih => rw [List.foldl_cons, ih, named_addNamed]; rfl
  rw [Bindings.merge, hnamed, hmains]

/-- Where the names of the default export begin with those of `a`, the default name and the aliases of `a` are kept. -/
theorem WellAliased.kept (ha : a.WellAliased) (hb : b.WellAliased) (h : a.mains <+: b.mains) :
    (∀ x ∈ a.main, b.main = some x) ∧ a.aliases <+: b.aliases := by
  unfold mains at h
  cases hmain : a.main with
  | none => exact ⟨by simp, ha.beside hmain ▸ List.nil_prefix⟩
  | some x =>
    rw [hmain] at h
    cases hmain' : b.main with
    | none => simp [hmain', hb.beside hmain'] at h
    | some y =>
      rw [hmain', Option.toList_some, Option.toList_some, List.singleton_append, List.singleton_append,
        List.cons_prefix_cons] at h
      obtain ⟨rfl, haliases⟩ := h
      exact ⟨fun _ => id, haliases⟩

/-! ### Laws -/

theorem merge_assoc (ha : a.WellAliased) (hb : b.WellAliased) (c : Bindings) :
    (a.merge b).merge c = a.merge (b.merge c) := by
  refine ((ha.merge b).merge c).ext (ha.merge _) ?_ ?_
  · rw [mains_merge (ha.merge b), mains_merge ha, mains_merge ha, mains_merge hb, union_assoc]
  · simp only [named_merge, union_assoc]

theorem merge_self (hb : b.WellAliased) : b.merge b = b := by
  refine (hb.merge b).ext hb ?_ ?_
  · rw [mains_merge hb, union_self]
  · rw [named_merge, union_self]

/-- Without the aliases that are repeated and the named imports whose local names are repeated. -/
def withoutRepeats (b : Bindings) : Bindings :=
  ⟨b.main, b.aliases.eraseDups, b.named.eraseDupsBy (·.bound == ·.bound)⟩

theorem WellAliased.withoutRepeats (hb : b.WellAliased) : b.withoutRepeats.WellAliased := by
  refine ⟨fun hnone => ?_, fun x hx hmem => hb.distinct x hx (List.mem_eraseDups.1 hmem)⟩
  rw [Bindings.withoutRepeats, hb.beside hnone]
  rfl

theorem mains_withoutRepeats (hb : b.WellAliased) : b.withoutRepeats.mains = b.mains.eraseDups := by
  unfold mains withoutRepeats
  cases hmain : b.main with
  | none => rfl
  | some x =>
    have hothers : b.aliases.filter (fun y => !y == x) = b.aliases := by
      refine List.filter_eq_self.2 fun y hy => ?_
      have hne : y ≠ x := fun heq => hb.distinct x hmain (heq ▸ hy)
      simpa using hne
    simp only [Option.toList_some, List.singleton_append, List.eraseDups_cons, hothers]

theorem empty_merge (hb : b.WellAliased) : empty.merge b = b.withoutRepeats := by
  have hempty : empty.WellAliased := wellAliased_of_aliases_eq_nil rfl
  refine (hempty.merge b).ext hb.withoutRepeats ?_ ?_
  · rw [mains_merge hempty, mains_withoutRepeats hb]
    exact nil_union id b.mains
  · rw [named_merge]
    exact nil_union _ b.named

/-- A line has no aliases. -/
theorem aliases_of_clause {cs : List Char} (h : Grammar.Clause cs b) : b.aliases = [] := by
  cases h <;> rfl

theorem wellAliased_of_ofChars? {cs : List Char} {l : Line} (h : Line.ofChars? cs = some l) :
    l.bindings.WellAliased := by
  obtain ⟨-, -, hclause, -⟩ := Line.sentence_of_ofChars? h
  exact wellAliased_of_aliases_eq_nil (aliases_of_clause hclause)

/-- **Bindings taken together.**  The bindings of a line have aliases beside a default name only, and none that is
this name, and they stay so as others are added to them.  It does not matter in which groups such bindings are taken
together.  Added to none they lose what is repeated in them, and added to themselves they change nothing.  The bindings
that come first keep their default name, their aliases and their named imports, and a name is bound by both together if
it is bound by one. -/
theorem merge_laws (ha : a.WellAliased) (hb : b.WellAliased) (c : Bindings) :
    (∀ text l, Line.ofText? text = some l → l.bindings.WellAliased) ∧ (a.merge b).WellAliased ∧
      (a.merge b).merge c = a.merge (b.merge c) ∧ empty.merge b = b.withoutRepeats ∧ b.merge b = b ∧
      (∀ x ∈ a.main, (a.merge b).main = some x) ∧ a.aliases <+: (a.merge b).aliases ∧
      a.named <+: (a.merge b).named ∧ ∀ name, name ∈ (a.merge b).locals ↔ name ∈ a.locals ∨ name ∈ b.locals := by
  have hmains : a.mains <+: (a.merge b).mains := mains_merge ha b ▸ prefix_union ..
  obtain ⟨hmain, haliases⟩ := ha.kept (ha.merge b) hmains
  have hnamed : a.named <+: (a.merge b).named := named_merge a b ▸ prefix_union ..
  exact ⟨fun _ _ h => wellAliased_of_ofChars? h, ha.merge b, merge_assoc ha hb c, empty_merge hb, merge_self hb, hmain,
    haliases, hnamed, fun _ => mem_locals_merge⟩

def cardBindings : Bindings := ⟨some "Card", ["Box"], [⟨"Head", "Head"⟩]⟩

/-- Bindings with repeats, some of whose names the card has too. -/
def tileBindings : Bindings :=
  ⟨some "Box", ["Tile", "Card", "Tile"], [⟨"Top", "Head"⟩, ⟨"Foot", "Foot"⟩, ⟨"End", "Foot"⟩]⟩

def iconBindings : Bindings := ⟨some "Icon", [], [⟨"Icon", "Foot"⟩]⟩

theorem merge_laws_card : cardBindings.WellAliased ∧ tileBindings.WellAliased ∧
    (cardBindings.merge tileBindings).WellAliased ∧
      (cardBindings.merge tileBindings).merge iconBindings = cardBindings.merge (tileBindings.merge iconBindings) ∧
      empty.merge tileBindings = ⟨some "Box", ["Tile", "Card"], [⟨"Top", "Head"⟩, ⟨"Foot", "Foot"⟩]⟩ ∧
      tileBindings.merge tileBindings = tileBindings ∧ (cardBindings.merge tileBindings).main = some "Card" ∧
      ["Box"] <+: (cardBindings.merge tileBindings).aliases ∧
      ∀ name, name ∈ (cardBindings.merge tileBindings).locals ↔
        name ∈ cardBindings.locals ∨ name ∈ tileBindings.locals := by
  have hcard : cardBindings.WellAliased := ⟨by decide, by decide⟩
  have htile : tileBindings.WellAliased := ⟨by decide, by decide⟩
  have hrepeats : tileBindings.withoutRepeats =
      ⟨some "Box", ["Tile", "Card"], [⟨"Top", "Head"⟩, ⟨"Foot", "Foot"⟩]⟩ := by decide
  obtain ⟨-, hmerge, hassoc, hempty, hself, hmain, haliases, -, hlocals⟩ := merge_laws hcard htile iconBindings
  exact ⟨hcard, htile, hmerge, hassoc, hempty.trans hrepeats, hself, hmain _ rfl, haliases, hlocals⟩

end Bindings

end CapsuleCompiler.Import
