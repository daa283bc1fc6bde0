import CapsuleCompiler.Proofs.Text.Lines
import CapsuleCompiler.Text.Blank
import Mathlib.Data.List.TakeWhile

/-!
# Proofs.Text.Trimming — the lines of a text that is joined and trimmed

Trimming a text takes its blank lines at either end away, and the blanks at the ends of the lines that are then first
and last; reading lines takes a carriage return from the end of every other line.  So what becomes of a line is told by
the lines before and after it (`bare`), and a line that is read from the trimmed text comes from one of those it was
made of (`exists_mem_lines_trim_join_iff`).
-/

namespace CapsuleCompiler.Text

variable {cs line : List Char} {ls : List (List Char)}

/-! ### Blanks at the ends -/

/-- A text of blanks only. -/
def blank (cs : List Char) : Bool := cs.all isBlank

theorem trimStart_of_blank (h : blank cs) : trimStart cs = [] :=
  List.dropWhile_eq_nil_iff.2 (List.all_eq_true.1 h)

theorem trimStart_append (as bs : List Char) :
    trimStart (as ++ bs) = if blank as then trimStart bs else trimStart as ++ bs := by
  unfold trimStart
  rw [List.dropWhile_append]
  have hnil : (as.dropWhile isBlank).isEmpty ↔ blank as := by
    rw [List.isEmpty_iff, List.dropWhile_eq_nil_iff, blank, List.all_eq_true]
  by_cases h : blank as
  · rw [if_pos (hnil.2 h), if_pos h]
  · rw [if_neg (mt hnil.1 h), if_neg h]

theorem blank_reverse : blank cs.reverse = blank cs := List.all_reverse ..

theorem trimEnd_append (as bs : List Char) :
    trimEnd (as ++ bs) = if blank bs then trimEnd as else as ++ trimEnd bs := by
  have h := trimStart_append bs.reverse as.reverse
  unfold trimEnd
  unfold trimStart at h
  rw [List.reverse_append, h, blank_reverse]
  by_cases hb : blank bs
  · rw [if_pos hb, if_pos hb]
  · rw [if_neg hb, if_neg hb, List.reverse_append, List.reverse_reverse]

theorem trimEnd_of_blank (h : blank cs) : trimEnd cs = [] := by
  have hnil := trimEnd_append [] cs
  rw [if_pos h] at hnil
  exact hnil

theorem exists_trimStart (cs : List Char) : ∃ b, cs = b ++ trimStart cs ∧ blank b := by
  refine ⟨cs.takeWhile isBlank, List.takeWhile_append_dropWhile.symm, List.all_eq_true.2 fun c hc => ?_⟩
  exact List.mem_takeWhile_imp hc

theorem exists_trimEnd (cs : List Char) : ∃ b, cs = trimEnd cs ++ b ∧ blank b := by
  obtain ⟨b, hcs, hb⟩ := exists_trimStart cs.reverse
  refine ⟨b.reverse, ?_, by rwa [blank_reverse]⟩
  have h := congrArg List.reverse hcs
  rwa [List.reverse_reverse, List.reverse_append] at h

theorem notMem_trimStart {c : Char} (h : c ∉ cs) : c ∉ trimStart cs := by
  obtain ⟨b, hcs, -⟩ := exists_trimStart cs
  rw [hcs] at h
  exact fun hmem => h (List.mem_append_right _ hmem)

theorem notMem_trimEnd {c : Char} (h : c ∉ cs) : c ∉ trimEnd cs := by
  obtain ⟨b, hcs, -⟩ := exists_trimEnd cs
  rw [hcs] at h
  exact fun hmem => h (List.mem_append_left _ hmem)

theorem trimStart_eq_nil_or (cs : List Char) : trimStart cs = [] ∨ ∃ c rest, trimStart cs = c :: rest ∧ ¬isBlank c := by
  cases h : trimStart cs with
  | nil => exact .inl rfl
  | cons c rest =>
    have hnot := List.head?_dropWhile_not isBlank cs
    unfold trimStart at h
    rw [h] at hnot
    exact .inr ⟨c, rest, rfl, by simpa using hnot⟩

/-- The two ends of a text are trimmed independently of each other. -/
theorem trimStart_trimEnd (cs : List Char) : trimStart (trimEnd cs) = trim cs := by
  obtain ⟨b, hcs, hb⟩ := exists_trimStart cs
  unfold trim
  rcases trimStart_eq_nil_or cs with hnil | ⟨c, rest, hcons, hc⟩
  · rw [hnil, List.append_nil] at hcs
    rw [hnil, hcs, trimEnd_of_blank hb]
    rfl
  · have hstart : trimStart (trimEnd (c :: rest)) = trimEnd (c :: rest) := by
      have hfirst : trimEnd (c :: rest) = if blank rest then [c] else c :: trimEnd rest := by
        have happend := trimEnd_append [c] rest
        have hone : trimEnd [c] = [c] := by simp [trimEnd, hc]
        rwa [hone] at happend
      rw [hfirst, trimStart]
      split <;> rw [List.dropWhile_cons_of_neg hc]
    have hnot : ¬blank (c :: rest) := by simp [blank, hc]
    rw [hcons] at hcs
    rw [hcons, hcs, trimEnd_append, if_neg hnot, trimStart_append, if_pos hb, hstart]

theorem trimEnd_trimEnd (cs : List Char) : trimEnd (trimEnd cs) = trimEnd cs := by
  have h := trimStart_trimStart cs.reverse
  unfold trimStart at h
  unfold trimEnd
  rw [List.reverse_reverse, h]

theorem trimStart_trim (cs : List Char) : trimStart (trim cs) = trim cs := by
  rw [← trimStart_trimEnd, trimStart_trimStart]

theorem trim_trim (cs : List Char) : trim (trim cs) = trim cs := by
  rw [trim, trimStart_trim]
  exact trimEnd_trimEnd _

theorem trim_of_blank (h : blank cs) : trim cs = [] := by
  rw [trim, trimStart_of_blank h]
  rfl

/-! ### Lines -/

/-- What trimming leaves at the beginning of a text that stands behind some lines. -/
def opened (before : List (List Char)) (cs : List Char) : List Char :=
  if before.all blank then trimStart cs else cs

/-- What trimming and reading leave of a line among the lines of a text. -/
def bare (before after : List (List Char)) (line : List Char) : List Char :=
  if after.all blank then trimEnd (opened before line) else dropReturn (opened before line)

theorem blank_join (ls : List (List Char)) : blank (join ['\n'] ls) = ls.all blank := by
  induction ls with
  | nil => rfl
  | cons l ls ih =>
    cases ls with
    | nil => simp [join]
    | cons next ls =>
      have hfeed : blank ['\n'] = true := by decide
      rw [join, List.all_cons, ← ih, blank, List.all_append, List.all_append]
      simp only [blank] at hfeed ⊢
      rw [hfeed, Bool.and_true]
      simp

theorem blank_feed_join (ls : List (List Char)) : blank ('\n' :: join ['\n'] ls) = ls.all blank := by
  have hfeed : isBlank '\n' := by decide
  rw [← blank_join, blank, List.all_cons, hfeed, Bool.true_and]
  rfl

/-- The end of a text is in its last lines, unless they are blank. -/
theorem trimEnd_append_feed_join (h : ¬ls.all blank) (cs : List Char) :
    trimEnd (cs ++ '\n' :: join ['\n'] ls) = cs ++ '\n' :: trimEnd (join ['\n'] ls) := by
  have hbehind : trimEnd ('\n' :: join ['\n'] ls) = '\n' :: trimEnd (join ['\n'] ls) := by
    rw [← List.singleton_append, trimEnd_append, if_neg (by rwa [blank_join])]
    rfl
  rw [trimEnd_append, if_neg (by rwa [blank_feed_join]), hbehind]

theorem join_cons_of_ne_nil {sep : List Char} (h : ls ≠ []) : join sep (line :: ls) = line ++ sep ++ join sep ls := by
  cases ls with
  | nil => exact absurd rfl h
  | cons next ls => rw [join]; simp

theorem lines_singleton (hfeed : '\n' ∉ line) : lines line = if line = [] then [] else [line] := by
  have hsplit : splitOn '\n' line = [line] := by
    obtain ⟨piece, pieces, hnil, heq⟩ := splitOn_append hfeed []
    obtain ⟨rfl, rfl⟩ := List.cons_eq_cons.1 (hnil : [[]] = piece :: pieces)
    simpa using heq
  rw [lines, hsplit, closeLines]
  simp

theorem exists_split_cons {α : Type} {x : α} {xs : List α} {Q : List α → α → List α → Prop} :
    (∃ before y after, x :: xs = before ++ y :: after ∧ Q before y after) ↔
      Q [] x xs ∨ ∃ before y after, xs = before ++ y :: after ∧ Q (x :: before) y after := by
  constructor
  · rintro ⟨before, y, after, heq, h⟩
    cases before with
    | nil =>
      obtain ⟨rfl, rfl⟩ := List.cons_eq_cons.1 heq
      exact .inl h
    | cons z before =>
      obtain ⟨rfl, rfl⟩ := List.cons_eq_cons.1 heq
      exact .inr ⟨before, y, after, rfl, h⟩
  · rintro (h | ⟨before, y, after, rfl, h⟩)
    · exact ⟨[], x, xs, rfl, h⟩
    · exact ⟨x :: before, y, after, rfl, h⟩

variable {before after : List (List Char)}

theorem opened_of_blank (hline : blank line) (hbefore : before.all blank) : opened before line = [] := by
  rw [opened, if_pos hbefore, trimStart_of_blank hline]

theorem blank_opened (h : blank cs) : blank (opened before cs) := by
  by_cases hbefore : before.all blank
  · rw [opened_of_blank h hbefore]
    rfl
  · rwa [opened, if_neg hbefore]

theorem notMem_opened (h : '\n' ∉ line) : '\n' ∉ opened before line := by
  unfold opened
  split
  · exact notMem_trimStart h
  · exact h

theorem bare_of_blank (hline : blank line) (hedge : before.all blank ∨ after.all blank) :
    bare before after line = [] := by
  unfold bare
  by_cases hafter : after.all blank
  · rw [if_pos hafter]
    exact trimEnd_of_blank (blank_opened hline)
  · rw [if_neg hafter, opened_of_blank hline (hedge.resolve_right hafter)]
    rfl

/-- A blank line at the beginning goes with its line feed. -/
theorem opened_join_cons (hne : ls ≠ []) : opened before (join ['\n'] (line :: ls)) =
    if before.all blank ∧ blank line then opened (before ++ [line]) (join ['\n'] ls)
    else opened before line ++ '\n' :: join ['\n'] ls := by
  have hfeed : blank ['\n'] := by decide
  have hall : (before ++ [line]).all blank ↔ before.all blank ∧ blank line := by simp
  rw [join_cons_of_ne_nil hne, List.append_assoc, List.singleton_append]
  by_cases hboth : before.all blank ∧ blank line
  · rw [if_pos hboth, opened, if_pos hboth.1, opened, if_pos (hall.2 hboth), trimStart_append, if_pos hboth.2,
      ← List.singleton_append, trimStart_append, if_pos hfeed]
  · rw [if_neg hboth]
    unfold opened
    by_cases hbefore : before.all blank
    · rw [if_pos hbefore, if_pos hbefore, trimStart_append, if_neg fun hline => hboth ⟨hbefore, hline⟩]
    · rw [if_neg hbefore, if_neg hbefore]

/-- Where only blank lines follow, the text is what is left of its first line. -/
theorem trimEnd_opened_join_of_blank (hls : ls.all blank) :
    trimEnd (opened before (join ['\n'] (line :: ls))) = bare before ls line := by
  have hbare : bare before ls line = trimEnd (opened before line) := if_pos hls
  by_cases hne : ls = []
  · rw [hbare, hne, join]
  · have hblank : blank (join ['\n'] ls) := by rwa [blank_join]
    rw [opened_join_cons hne]
    by_cases hboth : before.all blank ∧ blank line
    · rw [if_pos hboth, bare_of_blank hboth.2 (.inl hboth.1), trimEnd_of_blank (blank_opened hblank)]
    · rw [if_neg hboth, trimEnd_append, if_pos (by rwa [blank_feed_join]), hbare]

variable {P : List Char → Prop}

/-- The induction goes from line to line; `pre` are the lines that are behind. -/
theorem exists_mem_lines_opened_iff (pre : List (List Char)) (hnil : ¬P []) (hls : ∀ l ∈ ls, '\n' ∉ l) :
    (∃ line ∈ lines (trimEnd (opened pre (join ['\n'] ls))), P line) ↔
      ∃ before line after, ls = before ++ line :: after ∧ P (bare (pre ++ before) after line) := by
  induction ls generalizing pre with
  | nil =>
    have hempty : lines (trimEnd (opened pre (join ['\n'] []))) = [] := by
      rw [trimEnd_of_blank (blank_opened (by rfl))]
      rfl
    rw [hempty]
    simp
  | cons x ls ih =>
    have hx : '\n' ∉ opened pre x := notMem_opened (hls x List.mem_cons_self)
    have hrest := ih (pre ++ [x]) fun l hl => hls l (List.mem_cons_of_mem _ hl)
    simp only [List.append_assoc, List.singleton_append] at hrest
    rw [exists_split_cons, List.append_nil]
    by_cases hlast : ls.all blank
    · -- Behind `x` there is nothing left.
      have hothers : ¬∃ before line after, ls = before ++ line :: after ∧ P (bare (pre ++ x :: before) after line) := by
        rintro ⟨before, line, after, rfl, h⟩
        rw [List.all_append, List.all_cons, Bool.and_eq_true, Bool.and_eq_true] at hlast
        rw [bare_of_blank hlast.2.1 (.inr hlast.2.2)] at h
        exact hnil h
      have hbare : '\n' ∉ bare pre ls x := by
        rw [bare, if_pos hlast]
        exact notMem_trimEnd hx
      rw [trimEnd_opened_join_of_blank hlast, lines_singleton hbare, or_iff_left hothers]
      split
      · next hempty => simp [hempty, hnil]
      · simp
    · have hne : ls ≠ [] := by
        rintro rfl
        exact hlast rfl
      rw [opened_join_cons hne]
      by_cases hboth : pre.all blank ∧ blank x
      · -- The blank line `x` is not there any more.
        rw [if_pos hboth, hrest, bare_of_blank hboth.2 (.inl hboth.1), or_iff_right hnil]
      · have hopened : opened (pre ++ [x]) (join ['\n'] ls) = join ['\n'] ls := by
          refine if_neg fun h => hboth ?_
          simpa using h
        have hbare : bare pre ls x = dropReturn (opened pre x) := if_neg hlast
        rw [if_neg hboth, trimEnd_append_feed_join hlast, lines_append_cons hx, List.exists_mem_cons_iff, hbare,
          ← hrest, hopened]

/-- The lines that are read from a text of lines, once it is trimmed. -/
theorem exists_mem_lines_trim_join_iff (hnil : ¬P []) (hls : ∀ l ∈ ls, '\n' ∉ l) :
    (∃ line ∈ lines (trim (join ['\n'] ls)), P line) ↔
      ∃ before line after, ls = before ++ line :: after ∧ P (bare before after line) :=
  exists_mem_lines_opened_iff [] hnil hls

/-- The trimmed text begins with the first line that is not blank. -/
theorem trim_join_of_first {first : List Char} (hbefore : before.all blank) (hfirst : ¬blank first) :
    trim (join ['\n'] (before ++ first :: after)) =
      if after.all blank then trim first else trimStart first ++ '\n' :: trimEnd (join ['\n'] after) := by
  induction before with
  | nil =>
    have hnone : ¬(([] : List (List Char)).all blank ∧ blank first) := fun h => hfirst h.2
    have hopened (cs : List Char) : trimStart cs = opened [] cs := rfl
    rw [List.nil_append, trim, hopened]
    by_cases hafter : after.all blank
    · rw [trimEnd_opened_join_of_blank hafter, bare, if_pos hafter, if_pos hafter]
      rfl
    · have hne : after ≠ [] := by
        rintro rfl
        exact hafter rfl
      rw [opened_join_cons hne, if_neg hnone, if_neg hafter, trimEnd_append_feed_join hafter]
      rfl
  | cons b before ih =>
    rw [List.all_cons, Bool.and_eq_true] at hbefore
    have hb : [b].all blank := by simpa using hbefore.1
    have hopened : opened [] (join ['\n'] (b :: (before ++ first :: after))) =
        opened [b] (join ['\n'] (before ++ first :: after)) := by
      rw [opened_join_cons (by simp), if_pos ⟨rfl, hbefore.1⟩, List.nil_append]
    rw [← ih hbefore.2, trim, List.cons_append]
    refine congrArg trimEnd (hopened.trans ?_)
    rw [opened, if_pos hb]

theorem exists_first (h : ¬ls.all blank) : ∃ before first after,
    ls = before ++ first :: after ∧ before.all blank ∧ ¬blank first := by
  induction ls with
  | nil => exact absurd rfl h
  | cons x ls ih =>
    by_cases hx : blank x
    · have hls : ¬ls.all blank := fun hall => h (by rw [List.all_cons, Bool.and_eq_true]; exact ⟨hx, hall⟩)
      obtain ⟨before, first, after, rfl, hbefore, hfirst⟩ := ih hls
      refine ⟨x :: before, first, after, rfl, ?_, hfirst⟩
      rw [List.all_cons, Bool.and_eq_true]
      exact ⟨hx, hbefore⟩
    · exact ⟨[], x, ls, rfl, rfl, hx⟩

end CapsuleCompiler.Text
