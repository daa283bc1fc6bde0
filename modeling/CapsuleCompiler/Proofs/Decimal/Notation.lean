import CapsuleCompiler.Decimal.Layout
import CapsuleCompiler.Proofs.Decimal.Shortest
import Mathlib.Data.List.TakeWhile

/-!
# Proofs.Decimal.Notation — a written decimal shows its value

`numeralValue` reads a numeral: digits, a point between them, an exponent behind `e`.  Whichever way a layout writes a
decimal, this reads its value (`numeralValue_text`).  The text of a decimal starts with a digit and has numeral
characters only.
-/

namespace CapsuleCompiler.Decimal

/-! ### Reading a numeral -/

/-- What stands before the first separator, and what stands behind it. -/
def cut (sep : Char) (cs : List Char) : List Char × List Char :=
  (cs.takeWhile (· != sep), (cs.dropWhile (· != sep)).tail)

theorem cut_append_cons {sep : Char} {pre : List Char} (h : sep ∉ pre) (rest : List Char) :
    cut sep (pre ++ sep :: rest) = (pre, rest) := by
  have hpre : ∀ c ∈ pre, (c != sep) = true := fun c hc => bne_iff_ne.2 fun heq => h (heq ▸ hc)
  rw [cut, List.takeWhile_append_of_pos hpre, List.dropWhile_append_of_pos hpre]
  simp

theorem cut_of_notMem {sep : Char} {cs : List Char} (h : sep ∉ cs) : cut sep cs = (cs, []) := by
  have hcs : ∀ c ∈ cs, (c != sep) = true := fun c hc => bne_iff_ne.2 fun heq => h (heq ▸ hc)
  rw [cut, List.takeWhile_eq_self_iff.2 hcs, List.dropWhile_eq_nil_iff.2 hcs, List.tail_nil]

def digitsValue (ds : List Char) : Nat := Nat.ofDigitChars 10 ds 0

/-- Digits with or without a point. -/
def pointValue (cs : List Char) : ℚ :=
  let (whole, fraction) := cut '.' cs
  digitsValue (whole ++ fraction) / 10 ^ fraction.length

/-- A sign and digits; nothing at all is zero. -/
def exponentValue : List Char → ℤ
  | [] => 0
  | sign :: ds => if sign = '-' then -digitsValue ds else digitsValue ds

def numeralValue (cs : List Char) : ℚ :=
  let (significand, exponent) := cut 'e' cs
  pointValue significand * 10 ^ exponentValue exponent

/-! ### Digits -/

def IsDigits (cs : List Char) : Prop := ∀ c ∈ cs, c.isDigit

theorem IsDigits.append {cs ds : List Char} (hc : IsDigits cs) (hd : IsDigits ds) : IsDigits (cs ++ ds) :=
  fun c h => (List.mem_append.1 h).elim (hc c) (hd c)

theorem IsDigits.notMem {cs : List Char} (h : IsDigits cs) {c : Char} (hc : c.isDigit = false) : c ∉ cs :=
  fun hmem => absurd (h c hmem) (by simp [hc])

theorem IsDigits.take {cs : List Char} (h : IsDigits cs) (k : Nat) : IsDigits (cs.take k) :=
  fun c hc => h c (List.mem_of_mem_take hc)

theorem IsDigits.drop {cs : List Char} (h : IsDigits cs) (k : Nat) : IsDigits (cs.drop k) :=
  fun c hc => h c (List.mem_of_mem_drop hc)

theorem isDigits_natText (n : Nat) : IsDigits (Layout.natText n) :=
  fun _ h => Nat.isDigit_of_mem_toDigits (by decide) (by decide) h

theorem isDigits_zeros (k : Nat) : IsDigits (List.replicate k '0') :=
  fun c h => by rw [List.eq_of_mem_replicate h]; rfl

@[simp] theorem digitsValue_natText (n : Nat) : digitsValue (Layout.natText n) = n :=
  Nat.ofDigitChars_ten_toDigits

theorem digitsValue_append_zeros (ds : List Char) (k : Nat) :
    digitsValue (ds ++ List.replicate k '0') = digitsValue ds * 10 ^ k := by
  rw [digitsValue, Nat.ofDigitChars_append, Nat.ofDigitChars_replicate_zero, mul_comm, digitsValue]

theorem digitsValue_zeros_append (k : Nat) (ds : List Char) :
    digitsValue (List.replicate k '0' ++ ds) = digitsValue ds := by
  rw [digitsValue, Nat.ofDigitChars_append, Nat.ofDigitChars_replicate_zero, mul_zero, digitsValue]

theorem pointValue_digits {ds : List Char} (h : IsDigits ds) : pointValue ds = digitsValue ds := by
  rw [pointValue, cut_of_notMem (h.notMem rfl)]
  simp

theorem pointValue_point {ws fs : List Char} (h : IsDigits ws) :
    pointValue (ws ++ '.' :: fs) = digitsValue (ws ++ fs) / 10 ^ fs.length := by
  rw [pointValue, cut_append_cons (h.notMem rfl)]

theorem numeralValue_of_notMem {cs : List Char} (h : 'e' ∉ cs) : numeralValue cs = pointValue cs := by
  rw [numeralValue, cut_of_notMem h]
  simp [exponentValue]

/-! ### Significands -/

/-- Digits that may have a point behind the first of them or later. -/
inductive Significand : List Char → Prop
  | whole {ws : List Char} (hw : IsDigits ws) (hne : ws ≠ []) : Significand ws
  | point {ws fs : List Char} (hw : IsDigits ws) (hne : ws ≠ []) (hf : IsDigits fs) : Significand (ws ++ '.' :: fs)

namespace Significand

variable {cs : List Char}

theorem head?_isDigit (h : Significand cs) : ∃ c ∈ cs.head?, c.isDigit := by
  cases h with
  | whole hw hne => exact ⟨cs.head hne, List.head?_eq_some_head hne, hw _ (List.head_mem hne)⟩
  | @point ws fs hw hne hf =>
    exact ⟨ws.head hne, by rw [List.head?_append_of_ne_nil _ hne, List.head?_eq_some_head hne]; rfl,
      hw _ (List.head_mem hne)⟩

theorem isDigit_or_eq (h : Significand cs) : ∀ c ∈ cs, c.isDigit ∨ c = '.' := by
  intro c hc
  cases h with
  | whole hw _ => exact .inl (hw c hc)
  | point hw _ hf =>
    rw [List.mem_append, List.mem_cons] at hc
    rcases hc with hc | rfl | hc
    · exact .inl (hw c hc)
    · exact .inr rfl
    · exact .inl (hf c hc)

theorem notMem_exponentMark (h : Significand cs) : 'e' ∉ cs :=
  fun hmem => by rcases h.isDigit_or_eq _ hmem with h | h <;> simp at h

end Significand

/-! ### The two notations -/

namespace Layout

theorem natText_ne_nil (n : Nat) : natText n ≠ [] := Nat.toDigits_ne_nil

section Places

/-- Digits with zeros in front, so that there is one before the point. -/
def padded (s : Scientific) : List Char :=
  List.replicate (s.exponent.natAbs + 1 - (natText s.digits).length) '0' ++ natText s.digits

/-- The digits of a whole decimal with the zeros that its exponent stands for. -/
def wholeText (s : Scientific) : List Char :=
  if s.digits = 0 then natText s.digits else natText s.digits ++ List.replicate s.exponent.toNat '0'

variable {s : Scientific}

theorem places_of_nonneg (h : 0 ≤ s.exponent) (pointZero : Bool) :
    places pointZero s = if pointZero then wholeText s ++ '.' :: ['0'] else wholeText s := by
  rw [places, if_pos h]
  rfl

theorem places_of_neg (h : s.exponent < 0) (pointZero : Bool) :
    places pointZero s =
      (padded s).take ((padded s).length - s.exponent.natAbs) ++
        '.' :: (padded s).drop ((padded s).length - s.exponent.natAbs) := by
  rw [places, if_neg (by omega)]
  rfl

theorem isDigits_wholeText (s : Scientific) : IsDigits (wholeText s) := by
  rw [wholeText]
  split
  · exact isDigits_natText _
  · exact (isDigits_natText _).append (isDigits_zeros _)

theorem wholeText_ne_nil (s : Scientific) : wholeText s ≠ [] := by
  rw [wholeText]
  split <;> simp [natText_ne_nil]

theorem isDigits_padded (s : Scientific) : IsDigits (padded s) := (isDigits_zeros _).append (isDigits_natText _)

theorem natAbs_lt_length_padded (s : Scientific) : s.exponent.natAbs < (padded s).length := by
  rw [padded, List.length_append, List.length_replicate]
  have := List.length_pos_iff.2 (natText_ne_nil s.digits)
  omega

theorem digitsValue_wholeText (h : 0 ≤ s.exponent) : (digitsValue (wholeText s) : ℚ) = s.value := by
  have hexp : s.exponent = s.exponent.toNat := (Int.toNat_of_nonneg h).symm
  rw [wholeText, Scientific.value]
  split
  · next h0 => simp [h0]
  · rw [digitsValue_append_zeros, digitsValue_natText, hexp, zpow_natCast]
    push_cast
    rfl

theorem significand_places (pointZero : Bool) (s : Scientific) : Significand (places pointZero s) := by
  rcases lt_or_ge s.exponent 0 with h | h
  · rw [places_of_neg h]
    refine .point ((isDigits_padded s).take _) ?_ ((isDigits_padded s).drop _)
    have := natAbs_lt_length_padded s
    rw [← List.length_pos_iff, List.length_take]
    omega
  · rw [places_of_nonneg h]
    cases pointZero
    · exact .whole (isDigits_wholeText s) (wholeText_ne_nil s)
    · exact .point (isDigits_wholeText s) (wholeText_ne_nil s) (isDigits_zeros 1)

theorem pointValue_places (pointZero : Bool) (s : Scientific) : pointValue (places pointZero s) = s.value := by
  rcases lt_or_ge s.exponent 0 with h | h
  · rw [places_of_neg h, pointValue_point ((isDigits_padded s).take _), List.take_append_drop, padded,
      digitsValue_zeros_append, digitsValue_natText, ← padded, List.length_drop, Scientific.value]
    have := natAbs_lt_length_padded s
    have hexp : s.exponent = -(s.exponent.natAbs : ℤ) := by omega
    rw [hexp, zpow_neg, zpow_natCast, div_eq_mul_inv]
    congr 3
    omega
  · rw [places_of_nonneg h]
    cases pointZero
    · exact (pointValue_digits (isDigits_wholeText s)).trans (digitsValue_wholeText h)
    · have hzero : digitsValue (wholeText s ++ ['0']) = digitsValue (wholeText s) * 10 ^ 1 :=
        digitsValue_append_zeros (wholeText s) 1
      rw [if_pos rfl, pointValue_point (isDigits_wholeText s), ← digitsValue_wholeText h, hzero]
      simp

end Places

section Exponent

theorem exponentValue_exponentText (e : ℤ) : exponentValue (exponentText e).tail = e := by
  rw [exponentText, List.tail_cons, exponentValue, digitsValue_natText]
  by_cases h : e < 0
  · rw [if_pos h, if_pos rfl]
    omega
  · rw [if_neg h, if_neg (by decide)]
    omega

theorem numeralValue_append_exponentText {cs : List Char} (h : Significand cs) (e : ℤ) :
    numeralValue (cs ++ exponentText e) = pointValue cs * 10 ^ e := by
  have hcut : cut 'e' (cs ++ exponentText e) = (cs, (exponentText e).tail) :=
    cut_append_cons h.notMem_exponentMark _
  rw [numeralValue, hcut]
  exact congrArg (fun k => pointValue cs * (10 : ℚ) ^ k) (exponentValue_exponentText e)

/-- The digits of a decimal with a point behind the first one, and the exponent that goes with them. -/
theorem scientific_eq (s : Scientific) : ∃ cs e, Significand cs ∧ scientific s = cs ++ exponentText e ∧
    pointValue cs * 10 ^ e = s.value := by
  obtain ⟨d, ds, hds⟩ := List.exists_cons_of_ne_nil (natText_ne_nil s.digits)
  have hdigits : IsDigits (d :: ds) := hds ▸ isDigits_natText s.digits
  have hfirst : IsDigits [d] := hdigits.take 1
  have hrest : IsDigits ds := hdigits.drop 1
  have hvalue : digitsValue (d :: ds) = s.digits := by rw [← hds, digitsValue_natText]
  rw [scientific, hds]
  dsimp only
  cases ds with
  | nil =>
    refine ⟨[d], s.exponent, .whole hfirst (by simp), by simp, ?_⟩
    rw [pointValue_digits hfirst, hvalue, Scientific.value]
  | cons d' ds =>
    refine ⟨[d] ++ '.' :: d' :: ds, s.exponent + (d' :: ds).length, .point hfirst (by simp) hrest, by simp, ?_⟩
    rw [pointValue_point hfirst, List.singleton_append, hvalue, Scientific.value, zpow_add₀ (by norm_num),
      zpow_natCast]
    field_simp

end Exponent

/-! ### Both together -/

variable {layout : Layout} {s t : Scientific}

/-- A decimal is written as a significand, or as one with an exponent behind it. -/
theorem text_cases (layout : Layout) (s : Scientific) :
    layout.text s = places layout.pointZero s ∨ layout.text s = scientific s := by
  rw [text]
  split
  · exact .inl rfl
  · exact .inr rfl

/-- **The text of a decimal shows its value.** -/
theorem numeralValue_text (layout : Layout) (s : Scientific) : numeralValue (layout.text s) = s.value := by
  rcases text_cases layout s with h | h <;> rw [h]
  · rw [numeralValue_of_notMem (significand_places _ s).notMem_exponentMark, pointValue_places]
  · obtain ⟨cs, e, hcs, heq, hvalue⟩ := scientific_eq s
    rw [heq, numeralValue_append_exponentText hcs, hvalue]

theorem value_eq_of_text_eq (h : layout.text s = layout.text t) : s.value = t.value := by
  rw [← numeralValue_text layout s, h, numeralValue_text]

theorem head?_text_isDigit (layout : Layout) (s : Scientific) : ∃ c ∈ (layout.text s).head?, c.isDigit := by
  rcases text_cases layout s with h | h <;> rw [h]
  · exact (significand_places _ s).head?_isDigit
  · obtain ⟨cs, e, hcs, heq, -⟩ := scientific_eq s
    obtain ⟨c, hc, hdigit⟩ := hcs.head?_isDigit
    exact ⟨c, by rw [heq, List.head?_append, hc]; rfl, hdigit⟩

/-- The characters of numerals. -/
def isNumeralChar (c : Char) : Bool := c.isDigit || c == '.' || c == 'e' || c == '+' || c == '-'

theorem isNumeralChar_of_mem_text {c : Char} (h : c ∈ layout.text s) : isNumeralChar c := by
  have hsign : ∀ {cs : List Char}, Significand cs → c ∈ cs → isNumeralChar c := fun hcs hc => by
    rcases hcs.isDigit_or_eq c hc with h | rfl <;> simp [isNumeralChar, *]
  rcases text_cases layout s with heq | heq <;> rw [heq] at h
  · exact hsign (significand_places _ s) h
  · obtain ⟨cs, e, hcs, heq, -⟩ := scientific_eq s
    rw [heq, exponentText, List.mem_append, List.mem_cons, List.mem_cons] at h
    rcases h with h | rfl | rfl | h
    · exact hsign hcs h
    · rfl
    · split <;> rfl
    · simp [isNumeralChar, isDigits_natText _ c h]

/-- With `.0` behind whole decimals, every text has a point or an exponent. -/
theorem not_isDigits_text (hzero : layout.pointZero) : ¬ IsDigits (layout.text s) := by
  rcases text_cases layout s with heq | heq <;> rw [heq]
  · rcases lt_or_ge s.exponent 0 with h | h
    · rw [places_of_neg h]
      exact fun hdigits => absurd (hdigits '.' (by simp)) (by decide)
    · rw [places_of_nonneg h, if_pos hzero]
      exact fun hdigits => absurd (hdigits '.' (by simp)) (by decide)
  · obtain ⟨cs, e, -, heq, -⟩ := scientific_eq s
    rw [heq, exponentText]
    exact fun hdigits => absurd (hdigits 'e' (by simp)) (by decide)

end Layout

end CapsuleCompiler.Decimal
