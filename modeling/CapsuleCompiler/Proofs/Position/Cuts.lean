import Mathlib.Data.String.Basic

/-!
# Proofs.Position.Cuts — cutting a text at a byte

A position in a text counts the bytes before it.  A text can be cut at a position where a character begins and at its
end; beyond the end and inside a character there is no cut, and so the functions here have no result.  The cuts that a
text has are its divisions into two texts (`cutAt?_eq_some_iff`), so a position that comes from a search in the text is
a place to cut it.
-/

namespace CapsuleCompiler.Text

open String (utf8Len)

/-! ### Cuts -/

/-- What stands before a position, and from it on. -/
def cutAt? : List Char → Nat → Option (List Char × List Char)
  | cs, 0 => some ([], cs)
  | [], _ + 1 => none
  | c :: cs, n + 1 =>
    if c.utf8Size ≤ n + 1 then (cutAt? cs (n + 1 - c.utf8Size)).map fun p => (c :: p.1, p.2) else none

def upTo? (cs : List Char) (n : Nat) : Option (List Char) := (cutAt? cs n).map (·.1)

def fromOn? (cs : List Char) (n : Nat) : Option (List Char) := (cutAt? cs n).map (·.2)

/-- What stands between two positions, of which the second must not be before the first. -/
def slice? (cs : List Char) (start stop : Nat) : Option (List Char) :=
  if start ≤ stop then (upTo? cs stop).bind (fromOn? · start) else none

/-- A difference of natural numbers, where it is one. -/
def minus? (m n : Nat) : Option Nat := if n ≤ m then some (m - n) else none

variable {cs before behind : List Char} {n : Nat}

theorem cutAt?_append (before behind : List Char) :
    cutAt? (before ++ behind) (utf8Len before) = some (before, behind) := by
  induction before with
  | nil => rw [List.nil_append, String.utf8Len_nil, cutAt?]
  | cons c before ih =>
    have hpos := c.utf8Size_pos
    obtain ⟨n, hn⟩ : ∃ n, utf8Len (c :: before) = n + 1 := ⟨utf8Len (c :: before) - 1, by simp; omega⟩
    have hrest : n + 1 - c.utf8Size = utf8Len before := by
      rw [← hn, String.utf8Len_cons, Nat.add_sub_cancel]
    have hle : c.utf8Size ≤ n + 1 := hn ▸ Nat.le_add_left ..
    rw [hn, List.cons_append, cutAt?, if_pos hle, hrest, ih]
    rfl

/-- The cuts of a text are its divisions into two texts. -/
theorem cutAt?_eq_some_iff : cutAt? cs n = some (before, behind) ↔ cs = before ++ behind ∧ n = utf8Len before := by
  constructor
  · intro h
    fun_induction cutAt? cs n generalizing before with
    | case1 cs =>
      cases h
      exact ⟨rfl, rfl⟩
    | case2 => cases h
    | case3 c cs n hle ih =>
      obtain ⟨⟨b, r⟩, hcut, heq⟩ := Option.map_eq_some_iff.1 h
      cases heq
      obtain ⟨hcs, hn⟩ := ih hcut
      refine ⟨congrArg (c :: ·) hcs, ?_⟩
      rw [String.utf8Len_cons, ← hn]
      omega
    | case4 => cases h
  · rintro ⟨rfl, rfl⟩
    exact cutAt?_append before behind

/-- There is a cut exactly at the positions that are valid in the text. -/
theorem isSome_cutAt?_iff : (cutAt? cs n).isSome ↔ String.Pos.Raw.IsValid (.ofList cs) ⟨n⟩ := by
  rw [String.Pos.Raw.isValid_ofList, Option.isSome_iff_exists]
  constructor
  · rintro ⟨⟨before, behind⟩, h⟩
    obtain ⟨rfl, rfl⟩ := cutAt?_eq_some_iff.1 h
    exact ⟨before.length, by rw [List.take_left', String.utf8ByteSize_ofList]; rfl⟩
  · rintro ⟨i, hi⟩
    rw [String.utf8ByteSize_ofList] at hi
    exact ⟨(cs.take i, cs.drop i), cutAt?_eq_some_iff.2 ⟨(List.take_append_drop i cs).symm, hi⟩⟩

example : cutAt? ['ü', '!'] 1 = none := by decide

theorem upTo?_append (before behind : List Char) : upTo? (before ++ behind) (utf8Len before) = some before := by
  rw [upTo?, cutAt?_append]
  rfl

theorem fromOn?_append (before behind : List Char) : fromOn? (before ++ behind) (utf8Len before) = some behind := by
  rw [fromOn?, cutAt?_append]
  rfl

theorem slice?_append (before between behind : List Char) :
    slice? (before ++ between ++ behind) (utf8Len before) (utf8Len (before ++ between)) = some between := by
  have hle : utf8Len before ≤ utf8Len (before ++ between) := by
    rw [String.utf8Len_append]
    exact Nat.le_add_right ..
  rw [slice?, if_pos hle, upTo?_append]
  exact fromOn?_append before between

/-- Of two parts at the front of a text, the one with fewer bytes is a front part of the other. -/
theorem prefix_of_utf8Len_le {front back : List Char} (h : before ++ behind = front ++ back)
    (hle : utf8Len before ≤ utf8Len front) : before <+: front := by
  rcases List.prefix_or_prefix_of_prefix (List.prefix_append before behind) (h ▸ List.prefix_append front back) with
    hfront | ⟨between, rfl⟩
  · exact hfront
  · rw [String.utf8Len_append] at hle
    obtain rfl : between = [] := String.utf8Len_eq_zero.1 (by omega)
    exact ⟨[], by rw [List.append_nil, List.append_nil]⟩

/-- The slices of a text are its parts between two others. -/
theorem slice?_eq_some_iff {start stop : Nat} {between : List Char} : slice? cs start stop = some between ↔
    ∃ before behind, cs = before ++ between ++ behind ∧ start = utf8Len before ∧
      stop = utf8Len (before ++ between) := by
  constructor
  · intro h
    rw [slice?] at h
    split at h
    · obtain ⟨front, hfront, hback⟩ := Option.bind_eq_some_iff.1 h
      obtain ⟨⟨_, behind⟩, hstop, rfl⟩ := Option.map_eq_some_iff.1 hfront
      obtain ⟨⟨before, _⟩, hstart, rfl⟩ := Option.map_eq_some_iff.1 hback
      obtain ⟨hcs, hlen⟩ := cutAt?_eq_some_iff.1 hstop
      obtain ⟨rfl, hlen'⟩ := cutAt?_eq_some_iff.1 hstart
      exact ⟨before, behind, hcs, hlen', hlen⟩
    · cases h
  · rintro ⟨before, behind, rfl, rfl, rfl⟩
    exact slice?_append before between behind

/-- Two positions that are in order and valid are the ends of a slice, and others are not. -/
theorem isSome_slice?_iff {start stop : Nat} : (slice? cs start stop).isSome ↔
    start ≤ stop ∧ String.Pos.Raw.IsValid (.ofList cs) ⟨start⟩ ∧ String.Pos.Raw.IsValid (.ofList cs) ⟨stop⟩ := by
  rw [← isSome_cutAt?_iff, ← isSome_cutAt?_iff, Option.isSome_iff_exists, Option.isSome_iff_exists,
    Option.isSome_iff_exists]
  constructor
  · rintro ⟨between, hslice⟩
    obtain ⟨before, behind, rfl, rfl, rfl⟩ := slice?_eq_some_iff.1 hslice
    refine ⟨?_, ⟨(before, between ++ behind), ?_⟩, ⟨_, cutAt?_append (before ++ between) behind⟩⟩
    · rw [String.utf8Len_append]
      exact Nat.le_add_right ..
    · rw [List.append_assoc]
      exact cutAt?_append before (between ++ behind)
  · rintro ⟨hle, ⟨⟨before, _⟩, hstart⟩, ⟨⟨front, behind⟩, hstop⟩⟩
    obtain ⟨hcs, rfl⟩ := cutAt?_eq_some_iff.1 hstart
    obtain ⟨rfl, rfl⟩ := cutAt?_eq_some_iff.1 hstop
    obtain ⟨between, rfl⟩ := prefix_of_utf8Len_le hcs.symm hle
    exact ⟨between, slice?_append before between behind⟩

/-! ### Searches -/

/-- The position at which a text first has another one in it. -/
def offsetOf? (needle : List Char) : List Char → Option Nat
  | [] => if needle = [] then some 0 else none
  | c :: cs => if needle.isPrefixOf (c :: cs) then some 0 else (offsetOf? needle cs).map (· + c.utf8Size)

/-- The position of the first character of a kind. -/
def offsetWhere? (p : Char → Bool) : List Char → Option Nat
  | [] => none
  | c :: cs => if p c then some 0 else (offsetWhere? p cs).map (· + c.utf8Size)

/-- A search for the end of a run comes to where the run can be cut off. -/
theorem getD_offsetWhere? (p : Char → Bool) (cs : List Char) :
    (offsetWhere? (fun c => !p c) cs).getD (utf8Len cs) = utf8Len (cs.takeWhile p) := by
  induction cs with
  | nil => rfl
  | cons c cs ih =>
    rw [offsetWhere?, List.takeWhile_cons]
    cases p c with
    | false => rfl
    | true =>
      rw [Bool.not_true, if_neg Bool.false_ne_true, if_pos rfl, String.utf8Len_cons, String.utf8Len_cons, ← ih]
      cases offsetWhere? (fun c => !p c) cs <;> rfl

end CapsuleCompiler.Text
