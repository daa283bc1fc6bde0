import CapsuleCompiler.Proofs.Decimal.Notation
import CapsuleCompiler.Proofs.Json.Strings

/-!
# Proofs.Json.Printer — the compact form tells values apart

A text starts with the compact form of one value at most (`eq_of_chars_append_eq`): its first character gives the kind
of the value, a string ends at its own quote, an array and an object at their own bracket, and a number where no
numeral character follows.
-/

namespace CapsuleCompiler.Json

open Decimal (Binary64 IsDigits Layout)
open Decimal.Layout (isNumeralChar natText)

/-! ### Numbers -/

/-- A text that does not go on with a numeral. -/
def Closing (rest : List Char) : Prop := ∀ c ∈ rest.head?, isNumeralChar c = false

theorem closing_nil : Closing [] := by simp [Closing]

/-- Where a numeral ends is seen from what follows it. -/
theorem eq_of_numeral_append_eq {cs ds r s : List Char} (hc : ∀ c ∈ cs, isNumeralChar c)
    (hd : ∀ c ∈ ds, isNumeralChar c) (hr : Closing r) (hs : Closing s) (h : cs ++ r = ds ++ s) :
    cs = ds ∧ r = s := by
  have hend : ∀ {r : List Char}, Closing r → r.takeWhile isNumeralChar = [] := by
    intro r hr
    cases r with
    | nil => rfl
    | cons c r => simp [hr c rfl]
  have hcs : (cs ++ r).takeWhile isNumeralChar = cs ++ r.takeWhile isNumeralChar := List.takeWhile_append_of_pos hc
  rw [h, List.takeWhile_append_of_pos hd, hend hr, hend hs, List.append_nil, List.append_nil] at hcs
  subst hcs
  exact ⟨rfl, List.append_cancel_left h⟩

def signed (negative : Bool) (digits : List Char) : List Char := if negative then '-' :: digits else digits

theorem floatChars_eq (negative : Bool) (m : Binary64) :
    floatChars negative m = signed negative (floatLayout.text m.shortest) := rfl

theorem integerChars_eq (n : Int) : integerChars n = signed (decide (n < 0)) (natText n.natAbs) := by
  cases n with
  | ofNat n => rfl
  | negSucc n => simp [integerChars, signed, natText, Int.negSucc_lt_zero]

/-- Digits, point and exponent behind a sign start with a digit. -/
structure Unsigned (cs : List Char) : Prop where
  numeral : ∀ c ∈ cs, isNumeralChar c
  head : ∃ c ∈ cs.head?, c.isDigit

theorem unsigned_text (m : Binary64) : Unsigned (floatLayout.text m.shortest) :=
  ⟨fun _ h => Layout.isNumeralChar_of_mem_text h, Layout.head?_text_isDigit _ _⟩

theorem unsigned_natText (n : Nat) : Unsigned (natText n) := by
  have hdigits := Decimal.isDigits_natText n
  refine ⟨fun c hc => by simp [isNumeralChar, hdigits c hc], ?_⟩
  have hne := Layout.natText_ne_nil n
  exact ⟨(natText n).head hne, List.head?_eq_some_head hne, hdigits _ (List.head_mem hne)⟩

theorem Unsigned.head?_ne {cs : List Char} (h : Unsigned cs) : cs.head? ≠ some '-' := by
  obtain ⟨c, hc, hdigit⟩ := h.head
  rw [hc]
  rintro heq
  cases heq
  simp at hdigit

theorem eq_of_signed_eq {a b : Bool} {cs ds : List Char} (hc : Unsigned cs) (hd : Unsigned ds)
    (h : signed a cs = signed b ds) : a = b ∧ cs = ds := by
  cases a <;> cases b
  · exact ⟨rfl, h⟩
  · exact absurd (congrArg List.head? h) hc.head?_ne
  · exact absurd (congrArg List.head? h).symm hd.head?_ne
  · exact ⟨rfl, (List.cons.inj h).2⟩

theorem isNumeralChar_of_mem_signed {a : Bool} {cs : List Char} (hc : Unsigned cs) :
    ∀ c ∈ signed a cs, isNumeralChar c := by
  cases a
  · exact hc.numeral
  · exact List.forall_mem_cons.2 ⟨rfl, hc.numeral⟩

theorem eq_of_integerChars_eq {m n : Int} (h : integerChars m = integerChars n) : m = n := by
  rw [integerChars_eq, integerChars_eq] at h
  obtain ⟨hsign, hdigits⟩ := eq_of_signed_eq (unsigned_natText _) (unsigned_natText _) h
  have habs : m.natAbs = n.natAbs := by
    rw [← Decimal.digitsValue_natText m.natAbs, hdigits, Decimal.digitsValue_natText]
  have hneg : m < 0 ↔ n < 0 := decide_eq_decide.1 hsign
  omega

theorem eq_of_floatChars_eq {a b : Bool} {m n : Binary64} (h : floatChars a m = floatChars b n) : a = b ∧ m = n := by
  rw [floatChars_eq, floatChars_eq] at h
  obtain ⟨hsign, htext⟩ := eq_of_signed_eq (unsigned_text m) (unsigned_text n) h
  exact ⟨hsign, Binary64.eq_of_shortest_value_eq (Layout.value_eq_of_text_eq htext)⟩

/-- A float shows a point or an exponent, which an integer has not. -/
theorem integerChars_ne_floatChars (n : Int) (a : Bool) (m : Binary64) : integerChars n ≠ floatChars a m := by
  rw [integerChars_eq, floatChars_eq]
  intro h
  obtain ⟨-, htext⟩ := eq_of_signed_eq (unsigned_natText _) (unsigned_text m) h
  exact Layout.not_isDigits_text rfl (htext ▸ Decimal.isDigits_natText _)

theorem isNumeralChar_of_mem_integerChars (n : Int) : ∀ c ∈ integerChars n, isNumeralChar c := by
  rw [integerChars_eq]
  exact isNumeralChar_of_mem_signed (unsigned_natText _)

theorem isNumeralChar_of_mem_floatChars (a : Bool) (m : Binary64) : ∀ c ∈ floatChars a m, isNumeralChar c := by
  rw [floatChars_eq]
  exact isNumeralChar_of_mem_signed (unsigned_text m)

/-! ### The first character -/

inductive Kind
  | null
  | bool
  | number
  | string
  | array
  | object
deriving DecidableEq

def kind : Json → Kind
  | null => .null
  | bool _ => .bool
  | integer _ => .number
  | float _ _ => .number
  | string _ => .string
  | array _ => .array
  | object _ => .object

/-- The kind of the values that start with a character. -/
def kindOf? (c : Char) : Option Kind :=
  if c = 'n' then some .null
  else if c = 't' ∨ c = 'f' then some .bool
  else if c = '"' then some .string
  else if c = '[' then some .array
  else if c = '\x7b' then some .object
  else if c = '-' ∨ c.isDigit then some .number
  else none

theorem kindOf?_of_isDigit {c : Char} (h : c.isDigit) : kindOf? c = some .number := by
  have hne : ∀ d : Char, d.isDigit = false → c ≠ d := fun d hd heq => by simp [heq, hd] at h
  rw [kindOf?, if_neg (hne _ rfl), if_neg (not_or.2 ⟨hne _ rfl, hne _ rfl⟩), if_neg (hne _ rfl),
    if_neg (hne _ rfl), if_neg (hne _ rfl), if_pos (.inr h)]

theorem head?_signed {a : Bool} {cs : List Char} (h : Unsigned cs) (rest : List Char) :
    ∃ c, (signed a cs ++ rest).head? = some c ∧ kindOf? c = some .number := by
  cases a
  · obtain ⟨c, hc, hdigit⟩ := h.head
    exact ⟨c, by rw [signed, if_neg (by decide), List.head?_append, hc]; rfl, kindOf?_of_isDigit hdigit⟩
  · exact ⟨'-', rfl, rfl⟩

theorem head?_chars (x : Json) (rest : List Char) : ∃ c, (chars x ++ rest).head? = some c ∧ kindOf? c = some x.kind := by
  cases x with
  | null => exact ⟨'n', by rw [chars]; rfl, rfl⟩
  | bool b => cases b <;> exact ⟨_, by rw [chars]; rfl, rfl⟩
  | integer n =>
    rw [chars, integerChars_eq]
    exact head?_signed (unsigned_natText _) rest
  | float a m =>
    rw [chars, floatChars_eq]
    exact head?_signed (unsigned_text m) rest
  | string s => exact ⟨'"', by rw [chars]; rfl, rfl⟩
  | array xs => exact ⟨'[', by rw [chars]; rfl, rfl⟩
  | object xs => exact ⟨_, by rw [chars]; rfl, rfl⟩

theorem kind_eq_of_chars_append_eq {x y : Json} {r s : List Char} (h : chars x ++ r = chars y ++ s) :
    x.kind = y.kind := by
  obtain ⟨c, hc, hx⟩ := head?_chars x r
  obtain ⟨d, hd, hy⟩ := head?_chars y s
  rw [h, hd] at hc
  cases hc
  exact Option.some.inj (hx.symm.trans hy)

/-! ### Values -/

theorem closing_itemChars (xs : List Json) (rest : List Char) : Closing (itemChars false xs ++ rest) := by
  cases xs <;> rw [itemChars] <;> rintro c ⟨⟩ <;> rfl

theorem closing_memberChars (xs : List (String × Json)) (rest : List Char) :
    Closing (memberChars false xs ++ rest) := by
  rcases xs with - | ⟨⟨k, x⟩, xs⟩ <;> rw [memberChars] <;> rintro c ⟨⟩ <;> rfl

/-- An element is never mistaken for the closing bracket. -/
theorem itemChars_cons_ne (first : Bool) (x : Json) (xs : List Json) (r s : List Char) :
    itemChars first (x :: xs) ++ r ≠ ']' :: s := by
  rw [itemChars]
  intro h
  cases first with
  | false => cases h
  | true =>
    obtain ⟨c, hc, hkind⟩ := head?_chars x (itemChars false xs ++ r)
    rw [if_pos rfl, List.nil_append, List.append_assoc] at h
    rw [h] at hc
    cases hc
    cases hkind

theorem memberChars_cons_ne (first : Bool) (m : String × Json) (xs : List (String × Json)) (r s : List Char) :
    memberChars first (m :: xs) ++ r ≠ '\x7d' :: s := by
  rw [memberChars]
  cases first <;> rintro ⟨⟩

mutual

/-- **A text starts with the compact form of one value at most.** -/
theorem eq_of_chars_append_eq : ∀ (x y : Json) {r s : List Char}, Closing r → Closing s →
    chars x ++ r = chars y ++ s → x = y ∧ r = s
  | null, y, r, s, _, _, h => by
    have hkind := kind_eq_of_chars_append_eq h
    cases y <;> cases hkind
    rw [chars] at h
    exact ⟨rfl, List.append_cancel_left h⟩
  | bool a, y, r, s, _, _, h => by
    have hkind := kind_eq_of_chars_append_eq h
    cases y <;> cases hkind
    next b =>
    cases a <;> cases b <;> simp only [chars] at h <;> cases h <;> exact ⟨rfl, rfl⟩
  | integer m, y, r, s, hr, hs, h => by
    have hkind := kind_eq_of_chars_append_eq h
    cases y <;> cases hkind <;> rw [chars, chars] at h
    next n =>
      obtain ⟨hdigits, hrest⟩ := eq_of_numeral_append_eq (isNumeralChar_of_mem_integerChars m)
        (isNumeralChar_of_mem_integerChars n) hr hs h
      exact ⟨congrArg integer (eq_of_integerChars_eq hdigits), hrest⟩
    next b n =>
      have hdigits := (eq_of_numeral_append_eq (isNumeralChar_of_mem_integerChars m)
        (isNumeralChar_of_mem_floatChars b n) hr hs h).1
      exact absurd hdigits (integerChars_ne_floatChars m b n)
  | float a m, y, r, s, hr, hs, h => by
    have hkind := kind_eq_of_chars_append_eq h
    cases y <;> cases hkind <;> rw [chars, chars] at h
    next n =>
      have hdigits := (eq_of_numeral_append_eq (isNumeralChar_of_mem_floatChars a m)
        (isNumeralChar_of_mem_integerChars n) hr hs h).1
      exact absurd hdigits.symm (integerChars_ne_floatChars n a m)
    next b n =>
      obtain ⟨hdigits, hrest⟩ := eq_of_numeral_append_eq (isNumeralChar_of_mem_floatChars a m)
        (isNumeralChar_of_mem_floatChars b n) hr hs h
      obtain ⟨rfl, rfl⟩ := eq_of_floatChars_eq hdigits
      exact ⟨rfl, hrest⟩
  | string t, y, r, s, _, _, h => by
    have hkind := kind_eq_of_chars_append_eq h
    cases y <;> cases hkind
    rw [chars, chars] at h
    obtain ⟨rfl, hrest⟩ := eq_of_stringChars_append_eq h
    exact ⟨rfl, hrest⟩
  | array xs, y, r, s, _, _, h => by
    have hkind := kind_eq_of_chars_append_eq h
    cases y <;> cases hkind
    next ys =>
    rw [chars, chars, List.cons_append, List.cons_append, List.cons.injEq] at h
    obtain ⟨rfl, hrest⟩ := eq_of_itemChars_append_eq true xs ys h.2
    exact ⟨rfl, hrest⟩
  | object xs, y, r, s, _, _, h => by
    have hkind := kind_eq_of_chars_append_eq h
    cases y <;> cases hkind
    next ys =>
    rw [chars, chars, List.cons_append, List.cons_append, List.cons.injEq] at h
    obtain ⟨rfl, hrest⟩ := eq_of_memberChars_append_eq true xs ys h.2
    exact ⟨rfl, hrest⟩

theorem eq_of_itemChars_append_eq : ∀ (first : Bool) (xs ys : List Json) {r s : List Char},
    itemChars first xs ++ r = itemChars first ys ++ s → xs = ys ∧ r = s
  | _, [], [], _, _, h => by
    rw [itemChars] at h
    exact ⟨rfl, List.append_cancel_left h⟩
  | first, [], y :: ys, r, s, h => absurd h.symm (by
    rw [itemChars.eq_1]
    exact itemChars_cons_ne first y ys s r)
  | first, x :: xs, [], r, s, h => absurd h (by
    rw [itemChars.eq_1]
    exact itemChars_cons_ne first x xs r s)
  | first, x :: xs, y :: ys, r, s, h => by
    rw [itemChars, itemChars, List.append_assoc, List.append_assoc, List.append_assoc, List.append_assoc] at h
    obtain ⟨rfl, hrest⟩ := eq_of_chars_append_eq x y (closing_itemChars xs r) (closing_itemChars ys s)
      (List.append_cancel_left h)
    obtain ⟨rfl, hend⟩ := eq_of_itemChars_append_eq false xs ys hrest
    exact ⟨rfl, hend⟩

theorem eq_of_memberChars_append_eq : ∀ (first : Bool) (xs ys : List (String × Json)) {r s : List Char},
    memberChars first xs ++ r = memberChars first ys ++ s → xs = ys ∧ r = s
  | _, [], [], _, _, h => by
    rw [memberChars] at h
    exact ⟨rfl, List.append_cancel_left h⟩
  | first, [], m :: ys, r, s, h => absurd h.symm (by
    rw [memberChars.eq_1]
    exact memberChars_cons_ne first m ys s r)
  | first, m :: xs, [], r, s, h => absurd h (by
    rw [memberChars.eq_1]
    exact memberChars_cons_ne first m xs r s)
  | first, (k, x) :: xs, (l, y) :: ys, r, s, h => by
    simp only [memberChars, List.append_assoc, List.cons_append] at h
    obtain ⟨rfl, hvalue⟩ := eq_of_stringChars_append_eq (List.append_cancel_left h)
    obtain ⟨rfl, hrest⟩ := eq_of_chars_append_eq x y (closing_memberChars xs r) (closing_memberChars ys s)
      (List.cons.inj hvalue).2
    obtain ⟨rfl, hend⟩ := eq_of_memberChars_append_eq false xs ys hrest
    exact ⟨rfl, hend⟩

end

/-- **Different values have different compact forms.** -/
theorem text_injective : Function.Injective text := by
  intro x y h
  have hchars : chars x ++ [] = chars y ++ [] := by
    rw [List.append_nil, List.append_nil]
    exact String.ofList_injective h
  exact (eq_of_chars_append_eq x y closing_nil closing_nil hchars).1

end CapsuleCompiler.Json
