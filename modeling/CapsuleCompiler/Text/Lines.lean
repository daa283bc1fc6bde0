/-!
# Text.Lines — cutting a text at a character, and its lines

`splitOn` cuts at every occurrence of one character, so a text with `n` of them has `n + 1` pieces and
joining the pieces gives the text back. `lines` are the pieces at the line feed, except that a line feed
takes the carriage return before it along, and that nothing follows a final line feed.
-/

namespace CapsuleCompiler.Text

/-- The pieces of a text between the occurrences of a character. -/
def splitOn (sep : Char) : List Char → List (List Char)
  | [] => [[]]
  | c :: cs =>
    if c = sep then [] :: splitOn sep cs
    else
      match splitOn sep cs with
      | [] => [[c]]
      | piece :: pieces => (c :: piece) :: pieces

/-- The text in which a separator stands between neighbours. -/
def join (sep : List Char) : List (List Char) → List Char
  | [] => []
  | [piece] => piece
  | piece :: pieces => piece ++ sep ++ join sep pieces

/-- A carriage return at the end of a line belongs to the line feed behind it. -/
def dropReturn : List Char → List Char
  | [] => []
  | ['\r'] => []
  | c :: cs => c :: dropReturn cs

/-- The last piece is a line only if it has a character, and keeps its carriage return. -/
def closeLines : List (List Char) → List (List Char)
  | [] => []
  | [last] => if last.isEmpty then [] else [last]
  | line :: rest => dropReturn line :: closeLines rest

def lines (cs : List Char) : List (List Char) := closeLines (splitOn '\n' cs)

/-- Every text has one more line feed cut than it has line feeds. -/
def cutCount (cs : List Char) : Nat := cs.count '\n' + 1

/-! ### Small laws -/

theorem splitOn_ne_nil (sep : Char) (cs : List Char) : splitOn sep cs ≠ [] := by
  induction cs with
  | nil => simp [splitOn]
  | cons c cs ih =>
    simp only [splitOn]
    split
    · simp
    · split <;> simp

theorem join_splitOn (sep : Char) (cs : List Char) : join [sep] (splitOn sep cs) = cs := by
  induction cs with
  | nil => rfl
  | cons c cs ih =>
    simp only [splitOn]
    have hne := splitOn_ne_nil sep cs
    split
    · next h =>
      subst h
      cases hs : splitOn c cs with
      | nil => exact absurd hs hne
      | cons p ps => rw [hs] at ih; simp [join, ih]
    · cases hs : splitOn sep cs with
      | nil => exact absurd hs hne
      | cons p ps =>
        rw [hs] at ih
        cases ps with
        | nil => simp_all [join]
        | cons q qs => simp_all [join]

theorem length_splitOn (sep : Char) (cs : List Char) :
    (splitOn sep cs).length = cs.count sep + 1 := by
  induction cs with
  | nil => rfl
  | cons c cs ih =>
    simp only [splitOn]
    by_cases h : c = sep
    · simp [h, ih]
    · have hne := splitOn_ne_nil sep cs
      rw [if_neg h]
      cases hs : splitOn sep cs with
      | nil => exact absurd hs hne
      | cons p ps => rw [hs] at ih; simp_all

end CapsuleCompiler.Text
