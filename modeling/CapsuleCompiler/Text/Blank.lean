/-!
# Text.Blank — white space and trimming

`isBlank` is the Unicode property White_Space, which is wider than the blanks of any one format: it has
the no-break space and the line separators, but neither the zero width space nor the byte order mark.
Trimming removes such characters from the ends of a text and nothing between.
-/

namespace CapsuleCompiler.Text

/-- The characters with the Unicode property White_Space. -/
def isBlank (c : Char) : Bool :=
  let n := c.toNat
  (9 ≤ n && n ≤ 13) || n == 0x20 || n == 0x85 || n == 0xA0 || n == 0x1680 ||
    (0x2000 ≤ n && n ≤ 0x200A) || n == 0x2028 || n == 0x2029 || n == 0x202F || n == 0x205F ||
    n == 0x3000

def trimStart (cs : List Char) : List Char := cs.dropWhile isBlank

def trimEnd (cs : List Char) : List Char := (cs.reverse.dropWhile isBlank).reverse

def trim (cs : List Char) : List Char := trimEnd (trimStart cs)

/-! ### Small laws -/

theorem isBlank_of_isWhitespace {c : Char} (h : c.isWhitespace = true) : isBlank c = true := by
  simp only [Char.isWhitespace, Bool.or_eq_true, decide_eq_true_eq] at h
  rcases h with ((h | h) | h) | h <;> subst h <;> decide

theorem trimStart_trimStart (cs : List Char) : trimStart (trimStart cs) = trimStart cs := by
  induction cs with
  | nil => rfl
  | cons c cs ih =>
    simp only [trimStart, List.dropWhile_cons] at ih ⊢
    split
    · exact ih
    · next h => simp [h]

end CapsuleCompiler.Text
