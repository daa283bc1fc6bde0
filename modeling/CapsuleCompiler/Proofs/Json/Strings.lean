import CapsuleCompiler.Json.Printer
import CapsuleCompiler.Json.Token
import Mathlib.Tactic.IntervalCases

/-!
# Proofs.Json.Strings — a printed string is read back

Each character of a string is printed as itself or as an escape, and either is read as this character
(`stringFrom_charChars`).  So the reader of strings takes a printed string off any text that starts with it, and what a
text starts with is one string at most.
-/

namespace CapsuleCompiler.Json

variable {c : Char} {s t : String} {rest other : List Char}

theorem escape_controlChars (h : c < ' ') (rest : List Char) :
    escape ((controlChars c).tail ++ rest) = .ok (c, rest) := by
  have hall : ∀ n < 32, escape ((controlChars (.ofNat n)).tail ++ rest) = .ok (.ofNat n, rest) := by
    intro n hn
    interval_cases n <;> rfl
  have hc : c.toNat < 32 := h
  have := hall c.toNat hc
  rwa [Char.ofNat_toNat] at this

theorem controlChars_eq_cons (c : Char) : controlChars c = '\\' :: (controlChars c).tail := by
  simp only [controlChars]
  split_ifs <;> rfl

theorem stringFrom_escape {code : List Char} (h : escape (code ++ rest) = .ok (c, rest)) (seen : List Char) :
    stringFrom seen ('\\' :: code ++ rest) = stringFrom (c :: seen) rest := by
  rw [List.cons_append, stringFrom, if_neg (by decide), if_pos rfl]
  split
  · next h' => cases h.symm.trans h'
  · next h' => cases h.symm.trans h'; rfl

/-- What is printed for a character is read as this character. -/
theorem stringFrom_charChars (seen : List Char) (c : Char) (rest : List Char) :
    stringFrom seen (charChars c ++ rest) = stringFrom (c :: seen) rest := by
  rw [charChars]
  split_ifs with hquote hbackslash hcontrol
  · subst hquote
    exact stringFrom_escape rfl seen
  · subst hbackslash
    exact stringFrom_escape rfl seen
  · rw [controlChars_eq_cons]
    exact stringFrom_escape (escape_controlChars hcontrol rest) seen
  · rw [List.singleton_append, stringFrom, if_neg hquote, if_neg hbackslash, if_neg hcontrol]

theorem stringFrom_bodyChars (cs : List Char) (seen rest : List Char) :
    stringFrom seen (bodyChars cs ++ '"' :: rest) = .ok (seen.reverse ++ cs, rest) := by
  induction cs generalizing seen with
  | nil => simp [bodyChars, stringFrom]
  | cons c cs ih =>
    rw [bodyChars, List.flatMap_cons, List.append_assoc, stringFrom_charChars, ← bodyChars, ih]
    simp

/-- **A printed string is read back**, whatever follows its closing quote. -/
theorem stringBody_bodyChars (s : String) (rest : List Char) :
    stringBody (bodyChars s.toList ++ '"' :: rest) = .ok (s, rest) := by
  rw [stringBody, stringFrom_bodyChars]
  simp

theorem stringChars_append (s : String) (rest : List Char) :
    stringChars s ++ rest = '"' :: (bodyChars s.toList ++ '"' :: rest) := by
  simp [stringChars]

theorem eq_of_stringChars_append_eq (h : stringChars s ++ rest = stringChars t ++ other) : s = t ∧ rest = other := by
  rw [stringChars_append, stringChars_append, List.cons.injEq] at h
  have hs := stringBody_bodyChars s rest
  rw [h.2, stringBody_bodyChars] at hs
  cases hs
  exact ⟨rfl, rfl⟩

end CapsuleCompiler.Json
