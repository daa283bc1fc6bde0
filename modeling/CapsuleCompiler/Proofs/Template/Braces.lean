import CapsuleCompiler.Proofs.Template.Substitution
import Mathlib.Algebra.Group.Nat.Even

/-!
# Proofs.Template.Braces — where in a run of braces a template is cut

A run of opening braces is cut into pairs from its first brace on.  So a double brace is looked at if an even number of
opening braces stands directly in front of it, unless a key before it is left open (`reached_of_even`); behind an odd
number it falls between two pairs and is text (`reached_of_odd`).  Here a template is seen as a row of letters and
placeholders (`letters`), so that a place in its text is a place in the row (`StandsAt.unique`).
-/

namespace CapsuleCompiler

/-- A text letter by letter. -/
def Segment.letters : Segment → List Segment
  | text cs => cs.map fun c => .text [c]
  | slot key spelling => [slot key spelling]
  | unclosed rest => [unclosed rest]

namespace Template

variable {c : Char} {cs pre post rest : List Char} {bindings : Dict String} {segs : List Segment}

/-! ### Runs of braces -/

/-- How many opening braces stand at the end of a text. -/
def openRun (cs : List Char) : Nat := (cs.reverse.takeWhile (· == '{')).length

theorem openRun_append_cons (h : c ≠ '{') (as bs : List Char) : openRun (as ++ c :: bs) = openRun bs := by
  have hstop : (c :: as.reverse).takeWhile (· == '{') = [] := List.takeWhile_cons_of_neg (by simpa using h)
  unfold openRun
  rw [List.reverse_append, List.reverse_cons, List.append_assoc, List.singleton_append, List.takeWhile_append, hstop,
    List.append_nil]
  split
  · next hall => exact hall.symm
  · rfl

theorem openRun_concat (cs : List Char) : openRun (cs ++ ['{']) = openRun cs + 1 := by
  unfold openRun
  rw [List.reverse_append, List.reverse_singleton, List.singleton_append, List.takeWhile_cons_of_pos rfl,
    List.length_cons]

/-- A pair of braces in front does not change whether the run at the end is even. -/
theorem even_openRun_braces (cs : List Char) : Even (openRun ('{' :: '{' :: cs)) ↔ Even (openRun cs) := by
  have hpair : ['{', '{'].takeWhile (· == '{') = ['{', '{'] := rfl
  unfold openRun
  rw [List.reverse_cons, List.reverse_cons, List.append_assoc, List.singleton_append, List.takeWhile_append, hpair]
  split
  · next hall =>
    rw [hall, List.length_append, Nat.even_add]
    exact iff_true_right (by decide : Even 2)
  · rfl

/-- Nor does a placeholder. -/
theorem even_openRun_placeholder (body cs : List Char) :
    Even (openRun ('{' :: '{' :: (body ++ '}' :: '}' :: cs))) ↔ Even (openRun cs) := by
  rw [even_openRun_braces, openRun_append_cons (by decide)]
  exact iff_of_eq (congrArg Even (openRun_append_cons (by decide) [] cs))

theorem exists_of_odd_openRun (h : ¬Even (openRun cs)) : ∃ start, cs = start ++ ['{'] ∧ Even (openRun start) := by
  rcases List.eq_nil_or_concat' cs with rfl | ⟨start, c, rfl⟩
  · exact absurd Even.zero h
  · by_cases hc : c = '{'
    · subst hc
      rw [openRun_concat, Nat.even_add_one, not_not] at h
      exact ⟨start, rfl, h⟩
    · rw [openRun_append_cons hc] at h
      exact absurd Even.zero h

/-- A character at which no double brace begins does not count for a run behind it. -/
theorem openRun_cons_of_not_opens (h : ¬Opens (c :: (pre ++ '{' :: rest))) : openRun (c :: pre) = openRun pre := by
  by_cases hc : c = '{'
  · subst hc
    cases pre with
    | nil => exact absurd ⟨rest, rfl⟩ h
    | cons d pre =>
      have hd : d ≠ '{' := by
        rintro rfl
        exact h ⟨pre ++ '{' :: rest, rfl⟩
      have hpair := openRun_append_cons hd ['{'] pre
      exact hpair.trans (openRun_append_cons hd [] pre).symm
  · exact openRun_append_cons hc [] pre

/-! ### Letters -/

def singles (cs : List Char) : List Segment := cs.map fun c => .text [c]

@[simp] theorem singles_nil : singles [] = [] := rfl

@[simp] theorem singles_cons (c : Char) (cs : List Char) : singles (c :: cs) = .text [c] :: singles cs := rfl

theorem cover_singles (cs : List Char) : cover (singles cs) = cs := by
  induction cs with
  | nil => rfl
  | cons c cs ih => rw [singles_cons, cover_cons, ih, Segment.source, List.singleton_append]

theorem fill_singles (cs : List Char) : fill bindings (singles cs) = cs := by
  induction cs with
  | nil => rfl
  | cons c cs ih => rw [singles_cons, fill_cons, ih, Segment.shown, List.singleton_append]

theorem cover_segment_letters (s : Segment) : cover s.letters = s.source := by
  cases s with
  | text cs => exact cover_singles cs
  | slot key spelling => exact List.append_nil _
  | unclosed rest => exact List.append_nil _

theorem fill_segment_letters (s : Segment) : fill bindings s.letters = s.shown bindings := by
  cases s with
  | text cs => exact fill_singles cs
  | slot key spelling => exact List.append_nil _
  | unclosed rest => exact List.append_nil _

/-- The letters and placeholders of a template. -/
def letters (cs : List Char) : List Segment := (segments cs).flatMap Segment.letters

theorem cover_letters (cs : List Char) : cover (letters cs) = cs := by
  rw [letters, cover, List.flatMap_assoc]
  exact (List.flatMap_congr fun s _ => cover_segment_letters s).trans (cover_segments cs)

theorem fill_letters (cs : List Char) : fill bindings (letters cs) = fill bindings (segments cs) := by
  rw [letters, fill, List.flatMap_assoc]
  exact List.flatMap_congr fun s _ => fill_segment_letters s

theorem letters_text (h : ¬Opens (c :: cs)) : letters (c :: cs) = .text [c] :: letters cs := by
  rw [letters, segments_text h]
  rfl

theorem letters_braces (h : segments ('{' :: '{' :: cs) = .text ['{', '{'] :: segments cs) :
    letters ('{' :: '{' :: cs) = singles ['{', '{'] ++ letters cs := by
  rw [letters, h]
  rfl

theorem letters_placeholder {body key : List Char} (h : Spells body key) (rest : List Char) :
    letters ('{' :: '{' :: (body ++ '}' :: '}' :: rest)) = .slot key body :: letters rest := by
  rw [letters, segments_placeholder h]
  rfl

theorem letters_unclosed (hnone : ¬HasClosing cs) (hkey : startsWithKey cs) :
    letters ('{' :: '{' :: cs) = [.unclosed cs] := by
  rw [letters, segments_unclosed hnone hkey]
  rfl

theorem letters_append (h : opensNothing cs) (rest : List Char) :
    letters (cs ++ rest) = singles cs ++ letters rest := by
  have hsingles : (cs.map fun c => Segment.text [c]).flatMap Segment.letters = singles cs := by
    rw [List.flatMap_map]
    exact (List.map_eq_flatMap ..).symm
  rw [letters, segments_append h, List.flatMap_append, hsingles]
  rfl

theorem opensNothing_of_notMem (h : '{' ∉ cs) : opensNothing cs := by
  fun_induction opensNothing cs with
  | case1 => rfl
  | case2 c => simpa using Ne.symm (List.ne_of_not_mem_cons h)
  | case3 c d cs ih =>
    have hc := List.ne_of_not_mem_cons h
    simp [ih (List.not_mem_of_not_mem_cons h), Ne.symm hc]

/-! ### The cut in front of a double brace -/

/-- A placeholder that begins in front of an opening brace is closed in front of it. -/
theorem exists_closed_before {body key before behind : List Char} (h : Spells body key)
    (heq : body ++ '}' :: '}' :: rest = before ++ '{' :: behind) :
    ∃ between, before = body ++ '}' :: '}' :: between ∧ rest = between ++ '{' :: behind := by
  obtain ⟨as, hbefore, has⟩ := exists_behind h.opening_notMem heq
  rcases as with - | ⟨a, - | ⟨b, between⟩⟩
  · cases has
  · cases has
  · cases has
    exact ⟨between, hbefore, rfl⟩

/-- Behind `pre` the letters go on as `on` says, or the cutting ended before at a key that is left open. -/
inductive Reached (pre behind : List Char) (on : List Segment) : Prop
  | cut (before : List Segment) (hcover : cover before = pre) (h : letters (pre ++ behind) = before ++ on)
  | ended (before : List Segment) (late : List Char) (hnone : ¬HasClosing (late ++ behind))
      (h : letters (pre ++ behind) = before ++ [.unclosed (late ++ behind)])

theorem Reached.after {between behind : List Char} {on : List Segment} (h : Reached between behind on)
    (front : List Segment) (hcover : cover front ++ between = pre)
    (hcut : letters (pre ++ behind) = front ++ letters (between ++ behind)) :
    Reached pre behind on := by
  cases h with
  | cut before hbefore hletters =>
    refine .cut (front ++ before) ?_ ?_
    · rw [cover_append, hbefore, hcover]
    · rw [hcut, hletters, List.append_assoc]
  | ended before late hnone hletters =>
    refine .ended (front ++ before) late hnone ?_
    rw [hcut, hletters, List.append_assoc]

theorem Reached.behind_placeholder {body key between behind : List Char} {on : List Segment} (hkey : Spells body key)
    (h : Reached between behind on) : Reached ('{' :: '{' :: (body ++ '}' :: '}' :: between)) behind on := by
  refine h.after [.slot key body] ?_ ?_
  · simp [Segment.source]
  · have hletters := letters_placeholder hkey (between ++ behind)
    simpa using hletters

/-- **A double brace behind an even run is looked at**, unless the cutting ends before it. -/
theorem reached_of_even (pre rest : List Char) (heven : Even (openRun pre)) :
    Reached pre ('{' :: '{' :: rest) (letters ('{' :: '{' :: rest)) := by
  induction hn : pre.length using Nat.strongRecOn generalizing pre with
  | ind n ih =>
    subst hn
    cases pre with
    | nil => exact .cut [] rfl rfl
    | cons c pre =>
      by_cases hopen : Opens (c :: (pre ++ '{' :: '{' :: rest))
      · obtain ⟨behind, heq⟩ := hopen
        obtain ⟨rfl, hbehind⟩ := List.cons.inj heq
        cases pre with
        | nil =>
          -- The pair would take the first of the two braces that are to stand behind `pre`.
          have hone : openRun ['{'] = 1 := rfl
          rw [hone] at heven
          exact absurd heven (by decide)
        | cons d pre =>
          obtain ⟨rfl, -⟩ := List.cons.inj hbehind
          cases segments_opening (pre ++ '{' :: '{' :: rest) with
          | placeholder body key after hkey hafter =>
            obtain ⟨between, rfl, rfl⟩ := exists_closed_before hkey hafter.symm
            rw [even_openRun_placeholder] at heven
            have hlt : between.length < ('{' :: '{' :: (body ++ '}' :: '}' :: between)).length := by
              simp only [List.length_cons, List.length_append]
              omega
            exact (ih _ hlt between heven rfl).behind_placeholder hkey
          | unclosed hnone hkey => exact .ended [] pre hnone (letters_unclosed hnone hkey)
          | text htext =>
            rw [even_openRun_braces] at heven
            have hlt : pre.length < ('{' :: '{' :: pre).length := by
              simp only [List.length_cons]
              omega
            exact (ih _ hlt pre heven rfl).after (singles ['{', '{']) rfl (letters_braces htext)
      · rw [openRun_cons_of_not_opens hopen] at heven
        exact (ih _ (Nat.lt_succ_self _) pre heven rfl).after (singles [c]) rfl (letters_text hopen)

theorem letters_three_braces (h : cs.head? ≠ some '{') :
    letters ('{' :: '{' :: '{' :: cs) = singles ['{', '{', '{'] ++ letters cs := by
  have hbody : ∀ body rest key, Spells body key → '{' :: cs ≠ body ++ '}' :: '}' :: rest := by
    intro body rest key hkey heq
    cases body with
    | nil => exact hkey.ne_nil rfl
    | cons c body =>
      cases heq
      exact hkey.opening_notMem List.mem_cons_self
  have hnot : ¬Opens ('{' :: cs) := by
    rintro ⟨rest, heq⟩
    exact h (by rw [(List.cons.inj heq).2]; rfl)
  rw [letters_braces (segments_braces hbody (.inr (not_startsWithKey_brace cs))), letters_text hnot]
  rfl

/-- **Behind an odd run a double brace is text**: it falls between two pairs. -/
theorem reached_of_odd {word : List Char} (pre rest : List Char) (hodd : ¬Even (openRun pre)) (hne : word ≠ [])
    (hword : '{' ∉ word) :
    Reached pre ('{' :: '{' :: (word ++ rest)) (singles ('{' :: '{' :: word) ++ letters rest) := by
  obtain ⟨start, rfl, heven⟩ := exists_of_odd_openRun hodd
  have hshift : start ++ ['{'] ++ '{' :: '{' :: (word ++ rest) = start ++ '{' :: '{' :: '{' :: (word ++ rest) := by simp
  have hhead : (word ++ rest).head? ≠ some '{' := by
    rw [List.head?_append_of_ne_nil _ hne]
    exact fun h => hword (List.mem_of_head? h)
  cases reached_of_even start ('{' :: (word ++ rest)) heven with
  | cut before hcover hletters =>
    refine .cut (before ++ singles ['{']) ?_ ?_
    · rw [cover_append, hcover, cover_singles]
    · rw [hshift, hletters, letters_three_braces hhead, letters_append (opensNothing_of_notMem hword),
        List.append_assoc]
      rfl
  | ended before late hnone hletters =>
    refine .ended before (late ++ ['{']) ?_ ?_
    · rwa [List.append_assoc]
    · rw [hshift, hletters, List.append_assoc]
      rfl

/-! ### Places -/

/-- In a template the letters and placeholders `row` stand between `pre` and `post`. -/
def StandsAt (cs pre : List Char) (row : List Segment) (post : List Char) : Prop :=
  ∃ before after, cover before = pre ∧ cover after = post ∧ letters cs = before ++ row ++ after

theorem Reached.standsAt {behind : List Char} {row : List Segment} (h : Reached pre behind (row ++ letters post))
    (hended : ∀ late, ¬HasClosing (late ++ behind) → .unclosed (late ++ behind) ∉ letters (pre ++ behind)) :
    StandsAt (pre ++ behind) pre row post := by
  cases h with
  | cut before hcover hletters =>
    refine ⟨before, letters post, hcover, cover_letters post, ?_⟩
    rw [hletters, List.append_assoc]
  | ended before late hnone hletters =>
    refine absurd ?_ (hended late hnone)
    rw [hletters]
    exact List.mem_append_right _ List.mem_cons_self

theorem source_ne_nil {s : Segment} (h : s ∈ letters cs) : s.source ≠ [] := by
  obtain ⟨whole, -, hs⟩ := List.mem_flatMap.1 h
  cases whole with
  | text ds =>
    obtain ⟨d, -, rfl⟩ := List.mem_map.1 hs
    exact List.cons_ne_nil _ _
  | slot key spelling =>
    obtain rfl := List.mem_singleton.1 hs
    exact List.cons_ne_nil _ _
  | unclosed rest =>
    obtain rfl := List.mem_singleton.1 hs
    exact List.cons_ne_nil _ _

/-- Where a row of segments is split is seen from the text in front. -/
theorem eq_of_cover_eq : ∀ {as bs as' bs' : List Segment}, as ++ bs = as' ++ bs' → cover as = cover as' →
    (∀ s ∈ as ++ bs, s.source ≠ []) → bs = bs'
  | [], _, [], _, h, _, _ => h
  | [], _, s :: as', _, h, hcover, hne => by
    rw [List.nil_append] at h
    subst h
    rw [cover_nil, cover_cons] at hcover
    exact absurd (List.append_eq_nil_iff.1 hcover.symm).1 (hne s (by simp))
  | s :: as, _, [], _, _, hcover, hne => by
    rw [cover_nil, cover_cons] at hcover
    exact absurd (List.append_eq_nil_iff.1 hcover).1 (hne s (by simp))
  | s :: as, bs, s' :: as', bs', h, hcover, hne => by
    have hhead : s = s' := (List.cons.inj h).1
    have htail : as ++ bs = as' ++ bs' := (List.cons.inj h).2
    subst hhead
    rw [cover_cons, cover_cons] at hcover
    have hrest : cover as = cover as' := List.append_cancel_left hcover
    exact eq_of_cover_eq htail hrest fun t ht => hne t (List.mem_cons_of_mem s ht)

/-- At one place stands one letter or placeholder. -/
theorem StandsAt.unique {s s' : Segment} {row row' : List Segment} {post' : List Char}
    (h : StandsAt cs pre (s :: row) post) (h' : StandsAt cs pre (s' :: row') post') : s = s' := by
  obtain ⟨before, after, hcover, -, hletters⟩ := h
  obtain ⟨before', after', hcover', -, hletters'⟩ := h'
  rw [List.append_assoc] at hletters hletters'
  have hne : ∀ t ∈ before ++ (s :: row ++ after), t.source ≠ [] := by
    intro t ht
    rw [← hletters] at ht
    exact source_ne_nil ht
  have heq := eq_of_cover_eq (hletters.symm.trans hletters') (hcover.trans hcover'.symm) hne
  exact (List.cons.inj heq).1

theorem filled_of_mem_letters {bound : String → Bool} {s : Segment} (h : ∀ s ∈ segments cs, s.Filled bound)
    (hs : s ∈ letters cs) : s.Filled bound := by
  obtain ⟨whole, hwhole, hs⟩ := List.mem_flatMap.1 hs
  cases whole with
  | text ds =>
    obtain ⟨d, -, rfl⟩ := List.mem_map.1 hs
    trivial
  | slot key spelling =>
    obtain rfl := List.mem_singleton.1 hs
    exact h _ hwhole
  | unclosed rest => exact (h _ hwhole).elim

/-- In a rendered text, `shown` stands for what is between `pre` and `post` in the template. -/
def ShownAt (bindings : Dict String) (cs text pre shown post : List Char) : Prop :=
  ∃ before row after, letters cs = before ++ row ++ after ∧ cover before = pre ∧ cover after = post ∧
    fill bindings row = shown ∧ text = fill bindings before ++ shown ++ fill bindings after

/-- What stands at a place is shown there. -/
theorem StandsAt.shownAt {t : Template} {text : String} {row : List Segment}
    (h : StandsAt t.source.toList pre row post) (hrender : t.render bindings = .ok text) :
    ShownAt bindings t.source.toList text.toList pre (fill bindings row) post := by
  obtain ⟨before, after, hpre, hpost, hletters⟩ := h
  obtain ⟨-, htext⟩ := render_eq_ok.1 hrender
  refine ⟨before, row, after, hletters, hpre, hpost, rfl, ?_⟩
  rw [← htext, ← fill_letters, hletters, fill_append, fill_append]

theorem StandsAt.filled {t : Template} {text : String} {row : List Segment}
    (h : StandsAt t.source.toList pre row post) (hrender : t.render bindings = .ok text) :
    ∀ s ∈ row, s.Filled bindings.contains := by
  obtain ⟨before, after, -, -, hletters⟩ := h
  intro s hs
  refine filled_of_mem_letters (refusal?_eq_none_iff.1 (render_eq_ok.1 hrender).1) ?_
  rw [hletters]
  simp [hs]

end Template

end CapsuleCompiler
