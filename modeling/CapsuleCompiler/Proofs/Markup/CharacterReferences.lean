import CapsuleCompiler.Json.Token
import CapsuleCompiler.Markup.Attribute

/-!
# Proofs.Markup.CharacterReferences — what markup makes of an ampersand

In quoted text an ampersand begins a character reference if the text up to the next semicolon is a number or one of the
names that markup knows; it then stands for one character (`decode`).  Which names these are is left open here: a table
`names` has them.  Whatever the table, decoding keeps a text as it is only if no reference stands in it
(`decode_eq_self_iff`).
-/

namespace CapsuleCompiler.Markup

variable {names : List Char → Option Char} {c : Char} {cs body rest : List Char}

/-! ### References -/

/-- The number that digits write in a base, sixteen at most. -/
def number? (base : Nat) (digits : List Char) : Option Nat :=
  if digits.isEmpty then none
  else digits.foldlM (fun n c => do
    let digit ← Json.hexValue? c
    if digit < base then some (n * base + digit) else none) 0

/-- The character with a number; a number that no character has gives the replacement character. -/
def numbered (n : Nat) : Char := if n.isValidChar then .ofNat n else '\ufffd'

/-- What the text between an ampersand and a semicolon refers to. -/
def reference? (names : List Char → Option Char) : List Char → Option Char
  | '#' :: 'x' :: digits => (number? 16 digits).map numbered
  | '#' :: digits => (number? 10 digits).map numbered
  | name => names name

/-- The names of the characters that markup itself uses. -/
def basicNames (name : List Char) : Option Char :=
  [("amp".toList, '&'), ("lt".toList, '<'), ("gt".toList, '>'), ("quot".toList, '"')].lookup name

/-- What stands before the first `c`, and behind it. -/
def upTo? (c : Char) : List Char → Option (List Char × List Char)
  | [] => none
  | d :: cs => if d = c then some ([], cs) else (upTo? c cs).map fun p => (d :: p.1, p.2)

/-- The character reference at the front of a text, and what stands behind it. -/
def referenceAt? (names : List Char → Option Char) : List Char → Option (Char × List Char)
  | '&' :: cs => do
    let (body, rest) ← upTo? ';' cs
    let c ← reference? names body
    return (c, rest)
  | _ => none

theorem upTo?_eq_some_iff : upTo? c cs = some (body, rest) ↔ cs = body ++ c :: rest ∧ c ∉ body := by
  induction cs generalizing body with
  | nil => simp [upTo?]
  | cons d cs ih =>
    rw [upTo?]
    by_cases hd : d = c
    · subst hd
      rw [if_pos rfl, Option.some.injEq, Prod.mk.injEq]
      constructor
      · rintro ⟨rfl, rfl⟩
        exact ⟨rfl, List.not_mem_nil⟩
      · rintro ⟨heq, hbody⟩
        cases body with
        | nil => exact ⟨rfl, (List.cons.inj heq).2⟩
        | cons e body => exact absurd ((List.cons.inj heq).1 ▸ List.mem_cons_self) hbody
    · rw [if_neg hd, Option.map_eq_some_iff]
      constructor
      · rintro ⟨⟨before, behind⟩, hfound, heq⟩
        cases heq
        obtain ⟨rfl, hbefore⟩ := ih.1 hfound
        exact ⟨rfl, List.not_mem_cons_of_ne_of_not_mem (Ne.symm hd) hbefore⟩
      · rintro ⟨heq, hbody⟩
        cases body with
        | nil => exact absurd (List.cons.inj heq).1 hd
        | cons e body =>
          obtain ⟨rfl, hcs⟩ := List.cons.inj heq
          exact ⟨(body, rest), ih.2 ⟨hcs, List.not_mem_of_not_mem_cons hbody⟩, rfl⟩

theorem referenceAt?_eq_some_iff : referenceAt? names cs = some (c, rest) ↔
    ∃ body, cs = '&' :: (body ++ ';' :: rest) ∧ ';' ∉ body ∧ reference? names body = some c := by
  constructor
  · intro h
    unfold referenceAt? at h
    split at h
    · next cs =>
      obtain ⟨⟨body, behind⟩, hfound, h⟩ := Option.bind_eq_some_iff.1 h
      obtain ⟨d, hd, heq⟩ := Option.bind_eq_some_iff.1 h
      cases heq
      obtain ⟨rfl, hbody⟩ := upTo?_eq_some_iff.1 hfound
      exact ⟨body, rfl, hbody, hd⟩
    · cases h
  · rintro ⟨body, rfl, hbody, hc⟩
    refine Option.bind_eq_some_iff.2 ⟨(body, rest), upTo?_eq_some_iff.2 ⟨rfl, hbody⟩, ?_⟩
    exact Option.bind_eq_some_iff.2 ⟨c, hc, rfl⟩

theorem length_of_referenceAt? {d : Char} (h : referenceAt? names (c :: cs) = some (d, rest)) :
    rest.length < cs.length := by
  obtain ⟨body, heq, -, -⟩ := referenceAt?_eq_some_iff.1 h
  rw [(List.cons.inj heq).2, List.length_append, List.length_cons]
  omega

/-- A character reference stands somewhere in a text. -/
def HasReference (names : List Char → Option Char) (cs : List Char) : Prop :=
  ∃ front body back, cs = front ++ '&' :: (body ++ ';' :: back) ∧ ';' ∉ body ∧ (reference? names body).isSome

/-! ### Decoding -/

/-- A text with the characters for the references in it. -/
def decode (names : List Char → Option Char) : List Char → List Char
  | [] => []
  | c :: cs =>
    match h : referenceAt? names (c :: cs) with
    | none => c :: decode names cs
    | some (d, rest) =>
      have := length_of_referenceAt? h
      d :: decode names rest
termination_by cs => cs.length

@[simp] theorem decode_nil : decode names [] = [] := by
  rw [decode]

theorem decode_text (h : referenceAt? names (c :: cs) = none) : decode names (c :: cs) = c :: decode names cs := by
  rw [decode]
  split
  · rfl
  · next hsome => cases h.symm.trans hsome

theorem decode_reference {d : Char} (h : referenceAt? names cs = some (d, rest)) :
    decode names cs = d :: decode names rest := by
  cases cs with
  | nil => cases h
  | cons c cs =>
    rw [decode]
    split
    · next hnone => cases h.symm.trans hnone
    · next hsome =>
      cases h.symm.trans hsome
      rfl

/-- From character to character, and past a reference as a whole. -/
theorem decode_induction (names : List Char → Option Char) {P : List Char → Prop} (nil : P [])
    (text : ∀ c cs, referenceAt? names (c :: cs) = none → P cs → P (c :: cs))
    (reference : ∀ c cs d rest, referenceAt? names (c :: cs) = some (d, rest) → P rest → P (c :: cs))
    (cs : List Char) : P cs := by
  fun_induction decode names cs with
  | case1 => exact nil
  | case2 c cs hnone ih => exact text c cs hnone ih
  | case3 c cs d rest hsome _ ih => exact reference c cs d rest hsome ih

theorem length_decode_le (names : List Char → Option Char) (cs : List Char) : (decode names cs).length ≤ cs.length := by
  induction cs using decode_induction names with
  | nil => exact decode_nil.symm ▸ Nat.le_refl _
  | text c cs hnone ih =>
    rw [decode_text hnone, List.length_cons, List.length_cons]
    omega
  | reference c cs d rest hsome ih =>
    have hlt := length_of_referenceAt? hsome
    rw [decode_reference hsome, List.length_cons, List.length_cons]
    omega

theorem HasReference.of_cons (h : HasReference names (c :: cs)) (hnone : referenceAt? names (c :: cs) = none) :
    HasReference names cs := by
  obtain ⟨front, body, back, heq, hbody, hsome⟩ := h
  cases front with
  | nil =>
    obtain ⟨d, hd⟩ := Option.isSome_iff_exists.1 hsome
    cases hnone.symm.trans (referenceAt?_eq_some_iff.2 ⟨body, heq, hbody, hd⟩)
  | cons e front => exact ⟨front, body, back, (List.cons.inj heq).2, hbody, hsome⟩

/-- Where a reference stands, decoding makes the text shorter. -/
theorem length_decode_lt (h : HasReference names cs) : (decode names cs).length < cs.length := by
  induction cs using decode_induction names with
  | nil =>
    obtain ⟨front, body, back, heq, -, -⟩ := h
    simp at heq
  | text c cs hnone ih =>
    rw [decode_text hnone]
    exact Nat.succ_lt_succ (ih (h.of_cons hnone))
  | reference c cs d rest hsome ih =>
    -- It need not be the reference of `h` that stands here; one is enough, as what follows gets no longer.
    have hlt := length_of_referenceAt? hsome
    have hle := length_decode_le names rest
    rw [decode_reference hsome, List.length_cons, List.length_cons]
    omega

theorem decode_of_not_hasReference (h : ¬HasReference names cs) : decode names cs = cs := by
  induction cs using decode_induction names with
  | nil => exact decode_nil
  | text c cs hnone ih =>
    rw [decode_text hnone, ih]
    rintro ⟨front, body, back, rfl, hbody, hsome⟩
    exact h ⟨c :: front, body, back, rfl, hbody, hsome⟩
  | reference c cs d rest hsome ih =>
    obtain ⟨body, heq, hbody, hd⟩ := referenceAt?_eq_some_iff.1 hsome
    exact absurd ⟨[], body, rest, heq, hbody, Option.isSome_iff_exists.2 ⟨d, hd⟩⟩ h

/-- **Decoding changes exactly the texts in which a reference stands.** -/
theorem decode_eq_self_iff : decode names cs = cs ↔ ¬HasReference names cs := by
  refine ⟨fun heq h => ?_, decode_of_not_hasReference⟩
  have hlt := length_decode_lt h
  rw [heq] at hlt
  exact Nat.lt_irrefl _ hlt

end CapsuleCompiler.Markup
