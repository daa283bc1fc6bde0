import CapsuleCompiler.Text.Lines
import Mathlib.Data.List.Basic

/-!
# Proofs.Text.Lines — the lines of a text that is put together from lines

Lines without line feeds and carriage returns, each with a line feed behind it, are the lines of their text, whatever
follows them.
-/

namespace CapsuleCompiler.Text

variable {sep : Char} {line pre rest : List Char}

/-- A text that ends no line. -/
def InLine (cs : List Char) : Prop := '\n' ∉ cs ∧ '\r' ∉ cs

instance (cs : List Char) : Decidable (InLine cs) := inferInstanceAs (Decidable (_ ∧ _))

theorem InLine.append {cs ds : List Char} (hc : InLine cs) (hd : InLine ds) : InLine (cs ++ ds) :=
  ⟨fun h => (List.mem_append.1 h).elim hc.1 hd.1, fun h => (List.mem_append.1 h).elim hc.2 hd.2⟩

theorem inLine_flatMap {α : Type} {xs : List α} {f : α → List Char} (h : ∀ x ∈ xs, InLine (f x)) :
    InLine (xs.flatMap f) := by
  refine ⟨fun hmem => ?_, fun hmem => ?_⟩
  all_goals obtain ⟨x, hx, hmem⟩ := List.mem_flatMap.1 hmem
  · exact (h x hx).1 hmem
  · exact (h x hx).2 hmem

theorem splitOn_append_cons (h : sep ∉ line) :
    splitOn sep (line ++ sep :: rest) = line :: splitOn sep rest := by
  induction line with
  | nil => simp [splitOn]
  | cons c line ih =>
    rw [List.mem_cons, not_or] at h
    rw [List.cons_append, splitOn, if_neg (Ne.symm h.1), ih h.2]

/-- What stands in front of the first separator belongs to the first piece. -/
theorem splitOn_append (h : sep ∉ pre) (rest : List Char) :
    ∃ piece pieces, splitOn sep rest = piece :: pieces ∧ splitOn sep (pre ++ rest) = (pre ++ piece) :: pieces := by
  induction pre with
  | nil =>
    obtain ⟨piece, pieces, heq⟩ := List.exists_cons_of_ne_nil (splitOn_ne_nil sep rest)
    exact ⟨piece, pieces, heq, heq⟩
  | cons c pre ih =>
    rw [List.mem_cons, not_or] at h
    obtain ⟨piece, pieces, hrest, heq⟩ := ih h.2
    exact ⟨piece, pieces, hrest, by rw [List.cons_append, splitOn, if_neg (Ne.symm h.1), heq]; rfl⟩

theorem splitOn_append_sep (sep : Char) (as bs : List Char) :
    splitOn sep (as ++ sep :: bs) = splitOn sep as ++ splitOn sep bs := by
  induction as with
  | nil => simp [splitOn]
  | cons c as ih =>
    rw [List.cons_append, splitOn, splitOn, ih]
    split
    · rfl
    · obtain ⟨piece, pieces, hsplit⟩ := List.exists_cons_of_ne_nil (splitOn_ne_nil sep as)
      rw [hsplit]
      rfl

theorem dropReturn_append (h : '\r' ∉ pre) (rest : List Char) :
    dropReturn (pre ++ rest) = pre ++ dropReturn rest := by
  induction pre with
  | nil => rfl
  | cons c pre ih =>
    rw [List.mem_cons, not_or] at h
    rw [List.cons_append, dropReturn, ih h.2, List.cons_append]
    rintro rfl
    exact absurd rfl h.1

theorem dropReturn_eq_self (h : '\r' ∉ line) : dropReturn line = line := by
  simpa [dropReturn] using dropReturn_append h []

theorem lines_append_cons (h : '\n' ∉ line) : lines (line ++ '\n' :: rest) = dropReturn line :: lines rest := by
  obtain ⟨piece, pieces, hrest⟩ := List.exists_cons_of_ne_nil (splitOn_ne_nil '\n' rest)
  rw [lines, splitOn_append_cons h, lines, hrest, closeLines]
  exact List.cons_ne_nil _ _

/-- Lines that are written one below the other are read back, without carriage returns at their ends. -/
theorem lines_flatMap_feed {ls : List (List Char)} (h : ∀ l ∈ ls, '\n' ∉ l) (rest : List Char) :
    lines (ls.flatMap (· ++ ['\n']) ++ rest) = ls.map dropReturn ++ lines rest := by
  induction ls with
  | nil => rfl
  | cons l ls ih =>
    have hassoc : (l :: ls).flatMap (· ++ ['\n']) ++ rest = l ++ '\n' :: (ls.flatMap (· ++ ['\n']) ++ rest) := by
      simp
    rw [hassoc, lines_append_cons (h l List.mem_cons_self), ih fun l hl => h l (List.mem_cons_of_mem _ hl),
      List.map_cons, List.cons_append]

theorem map_dropReturn {ls : List (List Char)} (h : ∀ l ∈ ls, InLine l) : ls.map dropReturn = ls :=
  (List.map_congr_left fun l hl => dropReturn_eq_self (h l hl).2).trans (List.map_id' ls)

theorem lines_flatMap {ls : List (List Char)} (h : ∀ l ∈ ls, InLine l) (rest : List Char) :
    lines (ls.flatMap (· ++ ['\n']) ++ rest) = ls ++ lines rest := by
  rw [lines_flatMap_feed fun l hl => (h l hl).1, map_dropReturn h]

/-- The first line begins as the text does, up to its first line end. -/
theorem lines_append (h : InLine pre) (hne : pre ≠ []) (rest : List Char) :
    ∃ line more, lines (pre ++ rest) = line :: more ∧ pre <+: line := by
  obtain ⟨piece, pieces, -, heq⟩ := splitOn_append h.1 rest
  rw [lines, heq]
  cases pieces with
  | nil =>
    refine ⟨pre ++ piece, [], ?_, List.prefix_append ..⟩
    simp [closeLines, hne]
  | cons next pieces =>
    refine ⟨pre ++ dropReturn piece, closeLines (next :: pieces), ?_, List.prefix_append ..⟩
    rw [closeLines, dropReturn_append h.2]
    exact List.cons_ne_nil _ _

/-! ### Texts that are joined -/

theorem toList_intercalate_cons (sep x : String) (xs : List String) :
    (sep.intercalate (x :: xs)).toList = x.toList ++ xs.flatMap fun y => sep.toList ++ y.toList := by
  induction xs generalizing x with
  | nil => simp
  | cons y ys ih =>
    rw [String.intercalate_cons_cons, String.toList_append, String.toList_append, ih, List.flatMap_cons]
    simp only [List.append_assoc]

/-- Lines that are joined, with an empty one behind them. -/
theorem toList_intercalate_newline {ls : List String} (h : ls ≠ []) :
    ("\n".intercalate ls ++ "\n\n").toList = ((ls ++ [""]).map String.toList).flatMap (· ++ ['\n']) := by
  induction ls with
  | nil => exact absurd rfl h
  | cons l ls ih =>
    cases ls with
    | nil => simp
    | cons l' ls =>
      have ih := ih (List.cons_ne_nil _ _)
      rw [String.intercalate_cons_cons, String.append_assoc, String.toList_append, ih]
      simp

/-! ### No line feed inside a line -/

theorem notMem_of_mem_splitOn {cs piece : List Char} (h : piece ∈ splitOn sep cs) : sep ∉ piece := by
  induction cs generalizing piece with
  | nil =>
    rw [List.mem_singleton.1 h]
    exact List.not_mem_nil
  | cons c cs ih =>
    obtain ⟨first, pieces, heq⟩ := List.exists_cons_of_ne_nil (splitOn_ne_nil sep cs)
    rw [splitOn, heq] at h
    rw [heq] at ih
    by_cases hc : c = sep
    · rw [if_pos hc] at h
      rcases List.mem_cons.1 h with rfl | h
      · exact List.not_mem_nil
      · exact ih h
    · rw [if_neg hc] at h
      rcases List.mem_cons.1 h with rfl | h
      · rw [List.mem_cons, not_or]
        exact ⟨Ne.symm hc, ih List.mem_cons_self⟩
      · exact ih (List.mem_cons_of_mem _ h)

/-- A line loses a carriage return at its end, or nothing. -/
theorem exists_dropReturn (cs : List Char) : ∃ b, cs = dropReturn cs ++ b ∧ (b = [] ∨ b = ['\r']) := by
  induction cs with
  | nil => exact ⟨[], rfl, .inl rfl⟩
  | cons c cs ih =>
    by_cases h : c = '\r' ∧ cs = []
    · rw [h.1, h.2]
      exact ⟨['\r'], rfl, .inr rfl⟩
    · obtain ⟨b, hcs, hb⟩ := ih
      have hkeep : dropReturn (c :: cs) = c :: dropReturn cs := by
        rw [dropReturn]
        exact fun hc hnil => h ⟨hc, hnil⟩
      exact ⟨b, by rw [hkeep, List.cons_append, ← hcs], hb⟩

theorem dropReturn_subset (cs : List Char) : dropReturn cs ⊆ cs := by
  obtain ⟨b, hcs, -⟩ := exists_dropReturn cs
  conv_rhs => rw [hcs]
  exact List.subset_append_left _ _

theorem exists_piece_of_mem_closeLines {pieces : List (List Char)} (h : line ∈ closeLines pieces) :
    ∃ piece ∈ pieces, line ⊆ piece := by
  induction pieces with
  | nil => cases h
  | cons piece pieces ih =>
    cases pieces with
    | nil =>
      rw [closeLines] at h
      split at h
      · cases h
      · exact ⟨piece, List.mem_cons_self, List.mem_singleton.1 h ▸ List.Subset.refl _⟩
    | cons next pieces =>
      rw [closeLines] at h
      · rcases List.mem_cons.1 h with rfl | h
        · exact ⟨piece, List.mem_cons_self, dropReturn_subset piece⟩
        · obtain ⟨found, hfound, hsub⟩ := ih h
          exact ⟨found, List.mem_cons_of_mem _ hfound, hsub⟩
      · exact List.cons_ne_nil _ _

theorem notMem_of_mem_lines {cs : List Char} (h : line ∈ lines cs) : '\n' ∉ line := by
  obtain ⟨piece, hpiece, hsub⟩ := exists_piece_of_mem_closeLines h
  exact fun hmem => notMem_of_mem_splitOn hpiece (hsub hmem)

end CapsuleCompiler.Text
