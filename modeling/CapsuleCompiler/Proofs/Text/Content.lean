import CapsuleCompiler.Proofs.Text.Trimming

/-!
# Proofs.Text.Content — the lines of a text that are not blank

Joining, trimming and cutting move blanks and line ends about, and leave the rest as it is.  What they leave is the
content of a text: its lines that are not blank, each without the blanks at its ends.  Two texts with a line feed
between them have their contents one behind the other (`content_lines_append_feed`), so the content of a text that is
put together is that of its parts.
-/

namespace CapsuleCompiler.Text

variable {cs line : List Char} {ls : List (List Char)} {c : Char}

/-! ### Trimming what has blanks at its ends -/

theorem trim_blank_append {b : List Char} (hb : blank b) (cs : List Char) : trim (b ++ cs) = trim cs := by
  rw [trim, trimStart_append, if_pos hb]
  rfl

theorem trim_append_blank {b : List Char} (hb : blank b) (cs : List Char) : trim (cs ++ b) = trim cs := by
  rw [← trimStart_trimEnd, trimEnd_append, if_pos hb, trimStart_trimEnd]

theorem trim_eq_nil_iff : trim cs = [] ↔ blank cs := by
  refine ⟨fun h => ?_, trim_of_blank⟩
  obtain ⟨b, hcs, hb⟩ := exists_trimStart cs
  obtain ⟨e, hstart, he⟩ := exists_trimEnd (trimStart cs)
  have hnil : trimEnd (trimStart cs) = [] := h
  rw [hnil, List.nil_append] at hstart
  rw [hcs, hstart, blank, List.all_append, Bool.and_eq_true]
  exact ⟨hb, he⟩

theorem not_blank_append {as bs : List Char} (h : ¬blank as) : ¬blank (as ++ bs) := by
  rw [blank, List.all_append, Bool.and_eq_true]
  exact fun hall => h hall.1

theorem blank_trim : blank (trim cs) = blank cs := by
  rw [Bool.eq_iff_iff, ← trim_eq_nil_iff, trim_trim, trim_eq_nil_iff]

/-- A text that has no blank at either end. -/
theorem trim_eq_self {a b : Char} (ha : ¬isBlank a) (hb : ¬isBlank b) (cs : List Char) :
    trim (a :: cs ++ [b]) = a :: cs ++ [b] := by
  have hlast : trimEnd [b] = [b] := by simp [trimEnd, hb]
  have hnot : ¬blank [b] := by simpa [blank] using hb
  rw [trim, trimStart, List.cons_append, List.dropWhile_cons_of_neg ha, ← List.cons_append, trimEnd_append, if_neg hnot,
    hlast]

/-! ### Content -/

/-- The lines that are not blank, each without the blanks at its ends. -/
def content (ls : List (List Char)) : List (List Char) := (ls.map trim).filter (· ≠ [])

@[simp] theorem content_nil : content [] = [] := rfl

@[simp] theorem content_append (ls ms : List (List Char)) : content (ls ++ ms) = content ls ++ content ms := by
  simp [content]

theorem content_cons (line : List Char) (ls : List (List Char)) : content (line :: ls) = content [line] ++ content ls :=
  content_append [line] ls

theorem content_singleton (line : List Char) : content [line] = if blank line then [] else [trim line] := by
  unfold content
  by_cases h : blank line
  · rw [if_pos h, List.map_singleton, trim_of_blank h]
    rfl
  · have hne : trim line ≠ [] := mt trim_eq_nil_iff.1 h
    rw [if_neg h, List.map_singleton, List.filter_singleton]
    simp [hne]

theorem content_singleton_of_trim {other : List Char} (h : trim line = trim other) :
    content [line] = content [other] := by
  unfold content
  rw [List.map_singleton, List.map_singleton, h]

theorem content_eq_nil_iff : content ls = [] ↔ ls.all blank := by
  unfold content
  rw [List.filter_eq_nil_iff, List.all_eq_true]
  simp only [List.mem_map, decide_eq_true_eq, not_not, forall_exists_index, and_imp, forall_apply_eq_imp_iff₂,
    trim_eq_nil_iff]

theorem content_of_forall_not_blank (h : ∀ l ∈ ls, ¬blank l) : content ls = ls.map trim := by
  refine List.filter_eq_self.2 fun cs hcs => ?_
  obtain ⟨l, hl, rfl⟩ := List.mem_map.1 hcs
  exact decide_eq_true (mt trim_eq_nil_iff.1 (h l hl))

/-! ### Content of a text -/

theorem splitOn_append_feed {sep : Char} (as bs : List Char) :
    splitOn sep (as ++ sep :: bs) = splitOn sep as ++ splitOn sep bs := by
  induction as with
  | nil => simp [splitOn]
  | cons c as ih =>
    obtain ⟨piece, pieces, heq⟩ := List.exists_cons_of_ne_nil (splitOn_ne_nil sep as)
    rw [List.cons_append, splitOn, splitOn, ih, heq]
    split <;> rfl

theorem trim_dropReturn (line : List Char) : trim (dropReturn line) = trim line := by
  obtain ⟨b, hline, hb⟩ := exists_dropReturn line
  have hb : blank b := by rcases hb with rfl | rfl <;> decide
  conv_rhs => rw [hline]
  exact (trim_append_blank hb _).symm

theorem content_map_dropReturn (ls : List (List Char)) : content (ls.map dropReturn) = content ls := by
  unfold content
  rw [List.map_map]
  exact congrArg (List.filter _) (List.map_congr_left fun line _ => trim_dropReturn line)

theorem content_closeLines (ls : List (List Char)) : content (closeLines ls) = content ls := by
  induction ls with
  | nil => rfl
  | cons line ls ih =>
    cases ls with
    | nil =>
      rw [closeLines]
      split
      · next h => rw [List.isEmpty_iff.1 h]; rfl
      · rfl
    | cons next ls =>
      rw [closeLines, content_cons, content_cons line, ih, content_singleton_of_trim (trim_dropReturn line)]
      exact List.cons_ne_nil _ _

theorem content_lines (cs : List Char) : content (lines cs) = content (splitOn '\n' cs) :=
  content_closeLines _

/-- The contents of two texts stand one behind the other. -/
theorem content_lines_append_feed (as bs : List Char) :
    content (lines (as ++ '\n' :: bs)) = content (lines as) ++ content (lines bs) := by
  rw [content_lines, splitOn_append_feed, content_append, ← content_lines, ← content_lines]

theorem content_lines_of_notMem (h : '\n' ∉ line) : content (lines line) = content [line] := by
  rw [lines_singleton h]
  split
  · next hnil => rw [hnil]; rfl
  · rfl

theorem content_lines_of_blank (h : blank cs) : content (lines cs) = [] := by
  rw [content_lines, content_eq_nil_iff, ← blank_join, join_splitOn]
  exact h

theorem content_lines_cons_blank (hc : isBlank c) (cs : List Char) :
    content (lines (c :: cs)) = content (lines cs) := by
  by_cases hfeed : c = '\n'
  · rw [hfeed]
    exact content_lines_append_feed [] cs
  · have hmem : '\n' ∉ [c] := by simpa using Ne.symm hfeed
    obtain ⟨piece, pieces, hcs, hcons⟩ := splitOn_append hmem cs
    have hblank : blank [c] := by simpa [blank] using hc
    rw [content_lines, content_lines, ← List.singleton_append, hcons, hcs, content_cons, content_cons piece,
      content_singleton_of_trim (trim_blank_append hblank piece)]

theorem content_lines_blank_append {b : List Char} (hb : blank b) (cs : List Char) :
    content (lines (b ++ cs)) = content (lines cs) := by
  induction b with
  | nil => rfl
  | cons c b ih =>
    rw [blank, List.all_cons, Bool.and_eq_true] at hb
    rw [List.cons_append, content_lines_cons_blank hb.1, ih hb.2]

/-- A text has no line feed, or a line in front of one. -/
theorem feed_induction {P : List Char → Prop} (hline : ∀ line, '\n' ∉ line → P line)
    (hfeed : ∀ line rest, '\n' ∉ line → P rest → P (line ++ '\n' :: rest)) (cs : List Char) : P cs := by
  by_cases h : '\n' ∈ cs
  · obtain ⟨line, rest, heq, hnot⟩ := List.eq_append_cons_of_mem h
    have hlt : rest.length < cs.length := by
      rw [heq, List.length_append, List.length_cons]
      omega
    exact heq ▸ hfeed line rest hnot (feed_induction hline hfeed rest)
  · exact hline cs h
termination_by cs.length

theorem content_lines_append_blank {b : List Char} (hb : blank b) (cs : List Char) :
    content (lines (cs ++ b)) = content (lines cs) := by
  induction cs using feed_induction with
  | hline line hnot =>
    by_cases hfeed : '\n' ∈ b
    · obtain ⟨pre, rest, rfl, hpre⟩ := List.eq_append_cons_of_mem hfeed
      have hsplit : blank pre ∧ blank rest := by simpa [blank, isBlank] using hb
      have hline : '\n' ∉ line ++ pre := by simp [hnot, hpre]
      rw [← List.append_assoc, content_lines_append_feed, content_lines_of_blank hsplit.2, List.append_nil,
        content_lines_of_notMem hline, content_lines_of_notMem hnot,
        content_singleton_of_trim (trim_append_blank hsplit.1 line)]
    · have hline : '\n' ∉ line ++ b := by simp [hnot, hfeed]
      rw [content_lines_of_notMem hline, content_lines_of_notMem hnot,
        content_singleton_of_trim (trim_append_blank hb line)]
  | hfeed line rest hnot ih =>
    rw [List.append_assoc, List.cons_append, content_lines_append_feed, content_lines_append_feed, ih]

theorem content_lines_trimStart (cs : List Char) : content (lines (trimStart cs)) = content (lines cs) := by
  obtain ⟨b, hcs, hb⟩ := exists_trimStart cs
  conv_rhs => rw [hcs]
  exact (content_lines_blank_append hb _).symm

theorem content_lines_trim (cs : List Char) : content (lines (trim cs)) = content (lines cs) := by
  obtain ⟨b, hcs, hb⟩ := exists_trimEnd (trimStart cs)
  rw [← content_lines_trimStart cs]
  conv_rhs => rw [hcs]
  exact (content_lines_append_blank hb _).symm

theorem content_lines_join (hls : ∀ l ∈ ls, '\n' ∉ l) : content (lines (join ['\n'] ls)) = content ls := by
  induction ls with
  | nil => rfl
  | cons line ls ih =>
    have hline := content_lines_of_notMem (hls line List.mem_cons_self)
    cases ls with
    | nil => exact hline
    | cons next ls =>
      have hrest := ih fun l hl => hls l (List.mem_cons_of_mem _ hl)
      rw [join_cons_of_ne_nil (List.cons_ne_nil _ _), List.append_assoc, List.singleton_append,
        content_lines_append_feed, hline, hrest, ← content_cons]

end CapsuleCompiler.Text
