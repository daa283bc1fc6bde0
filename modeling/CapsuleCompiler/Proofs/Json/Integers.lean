import CapsuleCompiler.Json.Number
import CapsuleCompiler.Proofs.Fallible
import CapsuleCompiler.Proofs.Json.Printer

/-!
# Proofs.Json.Integers — a printed integer is read back

The digits of a printed integer end where its text does, and have no zero in front, so they are read as one numeral
(`Numeral.read_natText`).  What 64 bits hold is taken for an integer and everything else for a float, so an integer is
read back exactly if it can be read at all (`Number.read_integerChars`, `Number.isWord_of_read`).
-/

namespace CapsuleCompiler.Json

open Decimal (IsDigits)
open Decimal.Layout (natText natText_ne_nil)

variable {cs rest : List Char}

/-- Behind a value the text is at its end, or it goes on with a comma or a closing bracket. -/
def Ended (rest : List Char) : Prop := ∀ c ∈ rest.head?, c = ',' ∨ c = ']' ∨ c = '\x7d'

theorem ended_nil : Ended [] := by simp [Ended]

/-- The integers that 64 bits hold, with a sign or without. -/
def IsWord (n : Int) : Prop := -2 ^ 63 ≤ n ∧ n < 2 ^ 64

/-! ### Numerals -/

theorem head?_natText_ne_zero {n : Nat} (h : n ≠ 0) : (natText n).head? ≠ some '0' := by
  induction n using Nat.strongRecOn with
  | ind n ih =>
    by_cases hn : n < 10
    · rw [natText, Nat.toDigits_of_lt_base hn]
      interval_cases n
      · exact absurd rfl h
      all_goals decide
    · have hdiv : n / 10 ≠ 0 := by omega
      rw [natText, Nat.toDigits_of_base_le (by omega) (by omega), ← natText,
        List.head?_append_of_ne_nil _ (natText_ne_nil _)]
      exact ih (n / 10) (by omega) hdiv

namespace Numeral

variable {atEnd : Fault}

theorem someDigits_append {ds : List Char} (hdigits : IsDigits ds) (hne : ds ≠ []) (hrest : Ended rest) :
    someDigits atEnd (ds ++ rest) = .ok (ds, rest) := by
  have hend : rest.takeWhile Char.isDigit = [] ∧ rest.dropWhile Char.isDigit = rest := by
    cases rest with
    | nil => exact ⟨rfl, rfl⟩
    | cons c cs => rcases hrest c rfl with rfl | rfl | rfl <;> exact ⟨rfl, rfl⟩
  unfold someDigits
  rw [List.takeWhile_append_of_pos hdigits, List.dropWhile_append_of_pos hdigits, hend.1, hend.2, List.append_nil]
  cases ds with
  | nil => exact absurd rfl hne
  | cons d ds => rfl

theorem wholePart_natText (n : Nat) (hrest : Ended rest) :
    wholePart atEnd (natText n ++ rest) = .ok (natText n, rest) := by
  by_cases hn : n = 0
  · subst hn
    cases rest with
    | nil => rfl
    | cons c cs => rcases hrest c rfl with rfl | rfl | rfl <;> rfl
  · have hdigits : someDigits atEnd (natText n ++ rest) = .ok (natText n, rest) :=
      someDigits_append (Decimal.isDigits_natText n) (natText_ne_nil n) hrest
    unfold wholePart
    split
    · next heq =>
      have hhead : (natText n ++ rest).head? = some '0' := by rw [heq]; rfl
      rw [List.head?_append_of_ne_nil _ (natText_ne_nil n)] at hhead
      exact absurd hhead (head?_natText_ne_zero hn)
    · exact hdigits

theorem read_natText (n : Nat) (hrest : Ended rest) :
    read atEnd (natText n ++ rest) = .ok (⟨natText n, [], none⟩, rest) := by
  have hfraction : fractionPart atEnd rest = .ok ([], rest) := by
    cases rest with
    | nil => rfl
    | cons c cs => rcases hrest c rfl with rfl | rfl | rfl <;> rfl
  have hexponent : exponentPart atEnd rest = .ok (none, rest) := by
    cases rest with
    | nil => rfl
    | cons c cs => rcases hrest c rfl with rfl | rfl | rfl <;> rfl
  exact bind_eq_ok.2 ⟨_, wholePart_natText n hrest, bind_eq_ok.2 ⟨_, hfraction, bind_eq_ok.2 ⟨_, hexponent, rfl⟩⟩⟩

theorem toNumber_natText {n : Int} (h : IsWord n) :
    toNumber (decide (n < 0)) ⟨natText n.natAbs, [], none⟩ = .ok (.integer n) := by
  obtain ⟨hlow, hhigh⟩ := h
  have hvalue : digitsValue (natText n.natAbs) = n.natAbs := Decimal.digitsValue_natText n.natAbs
  unfold toNumber
  by_cases hneg : n < 0
  · have hfits : 0 < n.natAbs ∧ n.natAbs ≤ Nat.pow 2 63 := by
      show _ ∧ _ ≤ 2 ^ 63
      omega
    simp [hvalue, hneg, hfits, abs_of_neg hneg]
  · have hfits : n.natAbs < Nat.pow 2 64 := by
      show _ < 2 ^ 64
      omega
    simp [hvalue, hneg, hfits, abs_of_nonneg (not_lt.1 hneg)]

theorem toFloat_ne_integer (negative : Bool) (x : Numeral) (n : Int) : toFloat negative x ≠ .ok (.integer n) := by
  intro h
  unfold toFloat at h
  obtain ⟨m, -, heq⟩ := bind_eq_ok.1 h
  cases heq

/-- An integer that does not fit is read as a float. -/
theorem isWord_of_toNumber {negative : Bool} {x : Numeral} {n : Int} (h : toNumber negative x = .ok (.integer n)) :
    IsWord n := by
  cases negative with
  | false =>
    by_cases hfits : x.fraction.isEmpty && x.exponent.isNone && decide (digitsValue x.whole < Nat.pow 2 64)
    · have heq : toNumber false x = .ok (.integer (digitsValue x.whole)) := if_pos hfits
      cases heq.symm.trans h
      have hhigh : digitsValue x.whole < 2 ^ 64 := of_decide_eq_true (Bool.and_eq_true_iff.1 hfits).2
      exact ⟨by omega, by omega⟩
    · have heq : toNumber false x = toFloat false x := if_neg hfits
      exact absurd (heq.symm.trans h) (toFloat_ne_integer _ _ _)
  | true =>
    by_cases hfits : x.fraction.isEmpty && x.exponent.isNone &&
        (decide (0 < digitsValue x.whole) && decide (digitsValue x.whole ≤ Nat.pow 2 63))
    · have heq : toNumber true x = .ok (.integer (-(digitsValue x.whole : Int))) := if_pos hfits
      cases heq.symm.trans h
      have hlow : digitsValue x.whole ≤ 2 ^ 63 :=
        of_decide_eq_true (Bool.and_eq_true_iff.1 (Bool.and_eq_true_iff.1 hfits).2).2
      exact ⟨by omega, by omega⟩
    · have heq : toNumber true x = toFloat true x := if_neg hfits
      exact absurd (heq.symm.trans h) (toFloat_ne_integer _ _ _)

end Numeral

/-! ### Numbers -/

namespace Number

theorem read_signed {negative : Bool} {ds : List Char} (h : Unsigned ds) (rest : List Char) :
    read (signed negative ds ++ rest) = do
      let (numeral, rest) ← Numeral.read .eofValue (ds ++ rest)
      return (← numeral.toNumber negative, rest) := by
  cases negative with
  | true => rfl
  | false =>
    have hhead := h.head?_ne
    cases ds with
    | nil => obtain ⟨c, hc, -⟩ := h.head; cases hc
    | cons d ds =>
      have hd : d ≠ '-' := fun heq => hhead (congrArg some heq)
      show read (d :: (ds ++ rest)) = _
      unfold read
      split
      next heq =>
      split at heq
      · next hminus => exact absurd (List.cons.inj hminus).1 hd
      · cases heq
        rfl

/-- A printed integer is read back, if it fits. -/
theorem read_integerChars {n : Int} (h : IsWord n) (hrest : Ended rest) :
    read (integerChars n ++ rest) = .ok (.integer n, rest) := by
  have hnumeral : Numeral.read .eofValue (natText n.natAbs ++ rest) = .ok (⟨natText n.natAbs, [], none⟩, rest) :=
    Numeral.read_natText n.natAbs hrest
  rw [integerChars_eq, read_signed (unsigned_natText _)]
  exact bind_eq_ok.2 ⟨_, hnumeral, bind_eq_ok.2 ⟨_, Numeral.toNumber_natText h, rfl⟩⟩

theorem isWord_of_read {n : Int} (h : read cs = .ok (.integer n, rest)) : IsWord n := by
  unfold read at h
  obtain ⟨⟨numeral, after⟩, -, h⟩ := bind_eq_ok.1 h
  obtain ⟨x, hx, heq⟩ := bind_eq_ok.1 h
  cases heq
  exact Numeral.isWord_of_toNumber hx

end Number

theorem exists_integerChars_append_eq_cons (n : Int) (rest : List Char) :
    ∃ c cs, integerChars n ++ rest = c :: cs ∧ (c = '-' ∨ c.isDigit) := by
  rw [integerChars_eq]
  by_cases hneg : n < 0
  · rw [decide_eq_true hneg]
    exact ⟨'-', _, rfl, .inl rfl⟩
  · rw [decide_eq_false hneg]
    obtain ⟨c, hhead, hdigit⟩ := (unsigned_natText n.natAbs).head
    obtain ⟨cs, hcs⟩ := List.head?_eq_some_iff.1 hhead
    exact ⟨c, cs ++ rest, by rw [signed, if_neg (by decide), hcs]; rfl, .inr hdigit⟩

end CapsuleCompiler.Json
