import CapsuleCompiler.Proofs.Text.Content
import CapsuleCompiler.Template

/-!
# Proofs.Template.Segments — how a template is cut

What stands behind a double brace decides how the cutting goes on (`segments_opening`): it spells a key up to the first
closing (`Spells`), or a key that nothing closes, or the brace is text.  So a statement about all templates is shown by
going from cut to cut (`cut_induction`).  The segments put together again are the template (`cover_segments`), and a
placeholder among them has the key that is written in it (`proper_segments`).
-/

namespace CapsuleCompiler

open Text (blank)

namespace Template

variable {c : Char} {cs key body before rest : List Char}

/-! ### Keys -/

theorem isBlank_of_isKeyChar (h : isKeyChar c) : Text.isBlank c = false := by
  change (decide (c.val ≥ 'A'.val ∧ c.val ≤ 'Z'.val) || c.val ≥ 'a'.val && c.val ≤ 'z'.val ||
    (c.val ≥ '0'.val && c.val ≤ '9'.val) || c == '_') = true at h
  simp only [Bool.or_eq_true, Bool.and_eq_true, decide_eq_true_eq, beq_iff_eq, ge_iff_le, UInt32.le_iff_toNat_le,
    Char.reduceVal, UInt32.reduceToNat] at h
  simp only [Text.isBlank, Char.toNat, Bool.or_eq_false_iff, Bool.and_eq_false_iff, decide_eq_false_iff_not,
    beq_eq_false_iff_ne]
  rcases h with ((hupper | hlower) | hdigit) | rfl
  · omega
  · omega
  · omega
  · decide

theorem dropWhile_isBlank (h : cs.all isKeyChar) : cs.dropWhile Text.isBlank = cs := by
  cases cs with
  | nil => rfl
  | cons c cs =>
    rw [List.all_cons, Bool.and_eq_true] at h
    rw [List.dropWhile_cons_of_neg]
    simp [isBlank_of_isKeyChar h.1]

theorem trim_of_isKey (h : isKey key) : Text.trim key = key := by
  have hall : key.all isKeyChar := (Bool.and_eq_true_iff.1 h).2
  rw [Text.trim, Text.trimStart, dropWhile_isBlank hall, Text.trimEnd, dropWhile_isBlank (by rwa [List.all_reverse]),
    List.reverse_reverse]

/-- A key with blanks around it. -/
def Spells (body key : List Char) : Prop :=
  isKey key ∧ ∃ a b, blank a ∧ blank b ∧ body = a ++ key ++ b

theorem exists_trim (cs : List Char) : ∃ a b, blank a ∧ blank b ∧ cs = a ++ Text.trim cs ++ b := by
  obtain ⟨a, hstart, ha⟩ := Text.exists_trimStart cs
  obtain ⟨b, hend, hb⟩ := Text.exists_trimEnd (Text.trimStart cs)
  refine ⟨a, b, ha, hb, ?_⟩
  rw [List.append_assoc, Text.trim, ← hend]
  exact hstart

theorem spells_iff : Spells body key ↔ Text.trim body = key ∧ isKey key := by
  constructor
  · rintro ⟨hkey, a, b, ha, hb, rfl⟩
    rw [Text.trim_append_blank hb, Text.trim_blank_append ha]
    exact ⟨trim_of_isKey hkey, hkey⟩
  · rintro ⟨rfl, hkey⟩
    exact ⟨hkey, exists_trim body⟩

theorem spells_self (h : isKey key) : Spells key key := spells_iff.2 ⟨trim_of_isKey h, h⟩

theorem Spells.trim (h : Spells body key) : Text.trim body = key := (spells_iff.1 h).1

theorem Spells.isBlank_or (h : Spells body key) (hc : c ∈ body) : Text.isBlank c ∨ isKeyChar c := by
  obtain ⟨hkey, a, b, ha, hb, rfl⟩ := h
  rcases List.mem_append.1 hc with hc | hc
  · rcases List.mem_append.1 hc with hc | hc
    · exact .inl (List.all_eq_true.1 ha c hc)
    · exact .inr (List.all_eq_true.1 (Bool.and_eq_true_iff.1 hkey).2 c hc)
  · exact .inl (List.all_eq_true.1 hb c hc)

theorem Spells.opening_notMem (h : Spells body key) : '{' ∉ body := fun hmem =>
  absurd (h.isBlank_or hmem) (by decide)

theorem Spells.closing_notMem (h : Spells body key) : '}' ∉ body := fun hmem =>
  absurd (h.isBlank_or hmem) (by decide)

theorem Spells.ne_nil (h : Spells body key) : body ≠ [] := by
  rintro rfl
  obtain ⟨htrim, hkey⟩ := spells_iff.1 h
  rw [← htrim] at hkey
  cases hkey

theorem not_startsWithKey_brace (cs : List Char) : startsWithKey ('{' :: cs) = false := by
  have hblank : Text.isBlank '{' = false := by decide
  have hkey : isKeyChar '{' = false := by decide
  simp [startsWithKey, Text.trimStart, hblank, hkey]

/-! ### Closings -/

/-- A double closing brace stands somewhere in a text. -/
def HasClosing (cs : List Char) : Prop := ∃ front back, cs = front ++ '}' :: '}' :: back

/-- A character that is not in the front of a text stands behind it. -/
theorem exists_behind {front tail back : List Char} (h : c ∉ front) (heq : front ++ tail = before ++ c :: back) :
    ∃ between, before = front ++ between ∧ tail = between ++ c :: back := by
  rcases List.append_eq_append_iff.1 heq with hbehind | ⟨bs, hfront, hbs⟩
  · exact hbehind
  · cases bs with
    | nil => exact ⟨[], by simpa using hfront.symm, hbs.symm⟩
    | cons d bs =>
      obtain ⟨rfl, -⟩ := List.cons.inj hbs
      exact absurd (hfront ▸ by simp) h

theorem HasClosing.append_left (h : HasClosing cs) (front : List Char) : HasClosing (front ++ cs) := by
  obtain ⟨before, behind, rfl⟩ := h
  exact ⟨front ++ before, behind, (List.append_assoc ..).symm⟩

theorem HasClosing.of_append_left {front : List Char} (h : HasClosing (front ++ cs)) (hfront : '}' ∉ front) :
    HasClosing cs := by
  obtain ⟨before, behind, heq⟩ := h
  obtain ⟨between, -, hcs⟩ := exists_behind hfront heq
  exact ⟨between, behind, hcs⟩

theorem eq_of_upToClosing? (h : upToClosing? cs = some (before, rest)) : cs = before ++ '}' :: '}' :: rest := by
  fun_induction upToClosing? cs generalizing before with
  | case1 => cases h
  | case2 => cases h
  | case3 c d cs hclose =>
    obtain ⟨rfl, rfl⟩ := hclose
    cases h
    rfl
  | case4 c d cs hnot ih =>
    obtain ⟨⟨b, r⟩, hb, heq⟩ := Option.map_eq_some_iff.1 h
    cases heq
    rw [ih hb, List.cons_append]

theorem isSome_upToClosing?_append (front back : List Char) :
    (upToClosing? (front ++ '}' :: '}' :: back)).isSome := by
  induction front with
  | nil => simp [upToClosing?]
  | cons c front ih =>
    obtain ⟨d, tail, htail⟩ : ∃ d tail, front ++ '}' :: '}' :: back = d :: tail :=
      List.exists_cons_of_ne_nil (by simp)
    rw [List.cons_append, htail, upToClosing?]
    split
    · rfl
    · rwa [Option.isSome_map, ← htail]

theorem upToClosing?_eq_none_iff : upToClosing? cs = none ↔ ¬HasClosing cs := by
  constructor
  · rintro h ⟨front, back, rfl⟩
    have hsome := isSome_upToClosing?_append front back
    rw [h] at hsome
    cases hsome
  · intro h
    rw [Option.eq_none_iff_forall_ne_some]
    rintro ⟨before, rest⟩ hsome
    exact h ⟨before, rest, eq_of_upToClosing? hsome⟩

theorem upToClosing?_append (h : '}' ∉ body) (rest : List Char) :
    upToClosing? (body ++ '}' :: '}' :: rest) = some (body, rest) := by
  induction body with
  | nil => simp [upToClosing?]
  | cons c body ih =>
    rw [List.mem_cons, not_or] at h
    cases body with
    | nil => simp [upToClosing?, Ne.symm h.1]
    | cons d body =>
      have := ih h.2
      rw [List.cons_append] at this
      rw [List.cons_append, List.cons_append, upToClosing?, if_neg fun hc => h.1 hc.1.symm, this]
      rfl

/-! ### Cuts -/

/-- A double brace begins a text. -/
def Opens (cs : List Char) : Prop := ∃ rest, cs = '{' :: '{' :: rest

theorem segments_text (h : ¬Opens (c :: cs)) : segments (c :: cs) = .text [c] :: segments cs := by
  cases cs with
  | nil => rw [segments, segments]
  | cons d cs =>
    rw [segments, if_neg]
    rintro ⟨rfl, rfl⟩
    exact h ⟨cs, rfl⟩

theorem segments_placeholder (h : Spells body key) (rest : List Char) :
    segments ('{' :: '{' :: (body ++ '}' :: '}' :: rest)) = .slot key body :: segments rest := by
  have hclose := upToClosing?_append h.closing_notMem rest
  rw [segments, if_pos ⟨rfl, rfl⟩]
  split
  · next hnone => cases hclose.symm.trans hnone
  · next before left hsome =>
    cases hclose.symm.trans hsome
    simp only [h.trim, h.1, if_true]

theorem segments_unclosed (hnone : ¬HasClosing cs) (hkey : startsWithKey cs) :
    segments ('{' :: '{' :: cs) = [.unclosed cs] := by
  rw [segments, if_pos ⟨rfl, rfl⟩]
  split
  · exact if_pos hkey
  · next before left hsome => cases (upToClosing?_eq_none_iff.2 hnone).symm.trans hsome

theorem segments_braces (hkey : ∀ body rest key, Spells body key → cs ≠ body ++ '}' :: '}' :: rest)
    (hopen : HasClosing cs ∨ startsWithKey cs = false) :
    segments ('{' :: '{' :: cs) = .text ['{', '{'] :: segments cs := by
  rw [segments, if_pos ⟨rfl, rfl⟩]
  split
  · next hnone =>
    have hstart : startsWithKey cs = false := hopen.resolve_left (upToClosing?_eq_none_iff.1 hnone)
    rw [hstart]
    rfl
  · next before left hsome =>
    have hnot : isKey (Text.trim before) = false := by
      by_contra htrue
      rw [Bool.not_eq_false] at htrue
      exact hkey before left _ (spells_iff.2 ⟨rfl, htrue⟩) (eq_of_upToClosing? hsome)
    simp only [hnot, Bool.false_eq_true, if_false]

/-- How the cutting goes on behind a double brace. -/
inductive Cut (cs : List Char) : Prop
  | placeholder (body key rest : List Char) (hkey : Spells body key) (heq : cs = body ++ '}' :: '}' :: rest)
  | unclosed (hnone : ¬HasClosing cs) (hkey : startsWithKey cs)
  | text (h : segments ('{' :: '{' :: cs) = .text ['{', '{'] :: segments cs)

theorem segments_opening (cs : List Char) : Cut cs := by
  by_cases hbody : ∃ body rest key, Spells body key ∧ cs = body ++ '}' :: '}' :: rest
  · obtain ⟨body, rest, key, hkey, heq⟩ := hbody
    exact .placeholder body key rest hkey heq
  · have hnot : ∀ body rest key, Spells body key → cs ≠ body ++ '}' :: '}' :: rest := fun body rest key hkey heq =>
      hbody ⟨body, rest, key, hkey, heq⟩
    by_cases hclose : HasClosing cs
    · exact .text (segments_braces hnot (.inl hclose))
    · by_cases hkey : startsWithKey cs
      · exact .unclosed hclose hkey
      · exact .text (segments_braces hnot (.inr (Bool.not_eq_true _ ▸ hkey)))

/-- From cut to cut. -/
theorem cut_induction {P : List Char → Prop} (nil : P []) (text : ∀ c cs, ¬Opens (c :: cs) → P cs → P (c :: cs))
    (braces : ∀ cs, segments ('{' :: '{' :: cs) = .text ['{', '{'] :: segments cs → P cs → P ('{' :: '{' :: cs))
    (placeholder : ∀ body key rest, Spells body key → P rest → P ('{' :: '{' :: (body ++ '}' :: '}' :: rest)))
    (unclosed : ∀ cs, ¬HasClosing cs → startsWithKey cs → P ('{' :: '{' :: cs)) (cs : List Char) : P cs := by
  induction hn : cs.length using Nat.strongRecOn generalizing cs with
  | ind n ih =>
    subst hn
    cases cs with
    | nil => exact nil
    | cons c cs =>
      by_cases hopen : Opens (c :: cs)
      · obtain ⟨rest, heq⟩ := hopen
        obtain ⟨rfl, rfl⟩ := List.cons.inj heq
        cases segments_opening rest with
        | placeholder body key rest hkey heq =>
          subst heq
          refine placeholder body key rest hkey (ih rest.length ?_ rest rfl)
          simp only [List.length_cons, List.length_append]
          omega
        | unclosed hnone hkey => exact unclosed rest hnone hkey
        | text heq =>
          refine braces rest heq (ih rest.length ?_ rest rfl)
          simp only [List.length_cons]
          omega
      · exact text c cs hopen (ih cs.length (Nat.lt_succ_self _) cs rfl)

/-! ### The template again -/

end Template

/-- The part of a template that a segment is. -/
def Segment.source : Segment → List Char
  | text cs => cs
  | slot _ spelling => '{' :: '{' :: (spelling ++ ['}', '}'])
  | unclosed rest => '{' :: '{' :: rest

/-- A placeholder has the key that is spelled in it. -/
def Segment.Proper : Segment → Prop
  | text _ => True
  | slot key spelling => Template.Spells spelling key
  | unclosed rest => ¬Template.HasClosing rest ∧ Template.startsWithKey rest

namespace Template

def cover (segs : List Segment) : List Char := segs.flatMap Segment.source

@[simp] theorem cover_nil : cover [] = [] := rfl

@[simp] theorem cover_cons (s : Segment) (segs : List Segment) : cover (s :: segs) = s.source ++ cover segs := rfl

@[simp] theorem cover_append (segs others : List Segment) : cover (segs ++ others) = cover segs ++ cover others :=
  List.flatMap_append

theorem cover_segments (cs : List Char) : cover (segments cs) = cs := by
  induction cs using cut_induction with
  | nil => rw [segments, cover_nil]
  | text c cs hnot ih => rw [segments_text hnot, cover_cons, ih, Segment.source, List.singleton_append]
  | braces cs heq ih => rw [heq, cover_cons, ih, Segment.source, List.cons_append, List.singleton_append]
  | placeholder body key rest hkey ih =>
    rw [segments_placeholder hkey, cover_cons, ih, Segment.source]
    simp
  | unclosed cs hnone hkey => rw [segments_unclosed hnone hkey, cover_cons, cover_nil, Segment.source, List.append_nil]

theorem proper_segments (cs : List Char) : ∀ s ∈ segments cs, s.Proper := by
  induction cs using cut_induction with
  | nil => rw [segments]; simp
  | text c cs hnot ih => rw [segments_text hnot]; exact List.forall_mem_cons.2 ⟨trivial, ih⟩
  | braces cs heq ih => rw [heq]; exact List.forall_mem_cons.2 ⟨trivial, ih⟩
  | placeholder body key rest hkey ih =>
    rw [segments_placeholder hkey]
    exact List.forall_mem_cons.2 ⟨hkey, ih⟩
  | unclosed cs hnone hkey =>
    rw [segments_unclosed hnone hkey]
    exact List.forall_mem_singleton.2 ⟨hnone, hkey⟩

end Template

end CapsuleCompiler
