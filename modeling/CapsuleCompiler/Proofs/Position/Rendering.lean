import CapsuleCompiler.Proofs.Position.Cuts
import CapsuleCompiler.Proofs.Template.Substitution

/-!
# Proofs.Position.Rendering — rendering with positions

One pass over a template can be made with positions: it searches for the next double brace, cuts the text there and two
bytes on, and does the same with the double brace that closes.  What is found at a position is two bytes long, so both
cuts are there and give what stands before and behind the braces (`roundAt?_eq`).
-/

namespace CapsuleCompiler.Template

open String (utf8Len)
open Text (fromOn? offsetOf? offsetWhere? upTo?)

/-! ### Rounds with positions -/

/-- Whether a key begins a text, up to a blank or the end, told by the position where the key ends. -/
def startsWithKeyAt? (cs : List Char) : Option Bool :=
  let text := Text.trimStart cs
  let keyEnd := (offsetWhere? (fun c => !isKeyChar c) text).getD (utf8Len text)
  if 0 < keyEnd then (fromOn? text keyEnd).map fun behind => behind.head?.all Text.isBlank else some false

/-- One round: to the next double brace, and past the placeholder that it opens, or past the brace. -/
def roundAt? (bindings : Dict String) (scan : Scan) : Option Round :=
  match offsetOf? ['{', '{'] scan.left with
  | none => some (.last (.ok (scan.written ++ scan.left)))
  | some start => do
    let written := scan.written ++ (← upTo? scan.left start)
    let behind ← fromOn? scan.left (start + 2)
    match offsetOf? ['}', '}'] behind with
    | none =>
      if ← startsWithKeyAt? behind then
        return .last (.error (.unterminated (.ofList (behind.take excerptLength))))
      else return .again ⟨written ++ ['{', '{'], behind⟩
    | some stop =>
      let key := Text.trim (← upTo? behind stop)
      if isKey key then
        match bindings.get? (.ofList key) with
        | none => return .last (.error (.unbound (.ofList key)))
        | some value => return .again ⟨written ++ value.toList, ← fromOn? behind (stop + 2)⟩
      else return .again ⟨written ++ ['{', '{'], behind⟩

def roundsAt? (bindings : Dict String) : Nat → Scan → Option Round
  | 0, scan => some (.again scan)
  | n + 1, scan => do
    match ← roundAt? bindings scan with
    | .again next => roundsAt? bindings n next
    | .last result => return .last result

/-! ### Where the braces stand -/

variable {b : Char}

/-- What stands before the first double `b`, and behind it. -/
def upToDouble? (b : Char) : List Char → Option (List Char × List Char)
  | [] => none
  | [_] => none
  | c :: d :: cs =>
    if c = b ∧ d = b then some ([], cs)
    else (upToDouble? b (d :: cs)).map fun p => (c :: p.1, p.2)

theorem upToOpening?_eq : ∀ cs : List Char, upToOpening? cs = upToDouble? '{' cs
  | [] => rfl
  | [_] => rfl
  | c :: d :: cs => by rw [upToOpening?, upToDouble?, upToOpening?_eq (d :: cs)]

theorem upToClosing?_eq : ∀ cs : List Char, upToClosing? cs = upToDouble? '}' cs
  | [] => rfl
  | [_] => rfl
  | c :: d :: cs => by rw [upToClosing?, upToDouble?, upToClosing?_eq (d :: cs)]

theorem offsetOf?_double (b : Char) (cs : List Char) :
    offsetOf? [b, b] cs = (upToDouble? b cs).map fun p => utf8Len p.1 := by
  fun_induction upToDouble? b cs with
  | case1 => rfl
  | case2 c => simp [offsetOf?]
  | case3 c d cs h =>
    obtain ⟨rfl, rfl⟩ := h
    simp [offsetOf?]
  | case4 c d cs hnot ih =>
    have hprefix : ¬[b, b].isPrefixOf (c :: d :: cs) := fun h => by
      obtain ⟨tail, htail⟩ := List.isPrefixOf_iff_prefix.1 h
      cases htail
      exact hnot ⟨rfl, rfl⟩
    rw [offsetOf?, if_neg hprefix, ih, Option.map_map, Option.map_map]
    rfl

/-- Behind a double brace the text goes on two bytes after where the brace begins. -/
theorem fromOn?_double (hb : b.utf8Size = 1) (before behind : List Char) :
    fromOn? (before ++ b :: b :: behind) (utf8Len before + 2) = some behind := by
  have hlen : utf8Len before + 2 = utf8Len (before ++ [b, b]) := by simp [hb]
  rw [hlen, List.append_cons, List.append_cons, List.append_assoc before]
  exact Text.fromOn?_append _ behind

/-! ### Rounds -/

theorem startsWithKeyAt?_eq (cs : List Char) : startsWithKeyAt? cs = some (startsWithKey cs) := by
  generalize htext : Text.trimStart cs = text
  have hcut : fromOn? text (utf8Len (text.takeWhile isKeyChar)) = some (text.dropWhile isKeyChar) := by
    have := Text.fromOn?_append (text.takeWhile isKeyChar) (text.dropWhile isKeyChar)
    rwa [List.takeWhile_append_dropWhile] at this
  rw [startsWithKeyAt?, startsWithKey, htext, Text.getD_offsetWhere?, hcut]
  cases hkey : text.takeWhile isKeyChar with
  | nil => rfl
  | cons c key =>
    have hpos : 0 < utf8Len (c :: key) := Nat.add_pos_right _ c.utf8Size_pos
    rw [if_pos hpos]
    rfl

theorem roundAt?_eq (bindings : Dict String) (scan : Scan) : roundAt? bindings scan = some (round bindings scan) := by
  rw [roundAt?, round, offsetOf?_double, ← upToOpening?_eq]
  cases hopen : upToOpening? scan.left with
  | none => rfl
  | some split =>
    obtain ⟨before, behind⟩ := split
    -- the text is the parts that the search has found, so the cuts are at their ends
    rw [(segments_of_upToOpening? hopen).1]
    simp only [Option.map_some, Text.upTo?_append, fromOn?_double (by decide : '{'.utf8Size = 1), Option.bind_eq_bind,
      Option.bind_some]
    rw [offsetOf?_double, ← upToClosing?_eq]
    cases hclose : upToClosing? behind with
    | none =>
      simp only [Option.map_none, startsWithKeyAt?_eq, Option.bind_some, Option.pure_def]
      cases startsWithKey behind <;> rfl
    | some found =>
      obtain ⟨body, rest⟩ := found
      rw [eq_of_upToClosing? hclose]
      simp only [Option.map_some, Text.upTo?_append, fromOn?_double (by decide : '}'.utf8Size = 1), Option.bind_some,
        Option.pure_def]
      cases isKey (Text.trim body) with
      | false => rfl
      | true => cases bindings.get? (.ofList (Text.trim body)) <;> rfl

theorem roundsAt?_eq (bindings : Dict String) (n : Nat) (scan : Scan) :
    roundsAt? bindings n scan = some (rounds bindings n scan) := by
  induction n generalizing scan with
  | zero => rfl
  | succ n ih =>
    rw [roundsAt?, rounds, roundAt?_eq]
    show (match round bindings scan with
      | .again next => roundsAt? bindings n next
      | .last result => some (.last result)) = _
    cases round bindings scan with
    | again next => exact ih next
    | last result => rfl

/-- **A pass with positions ends with what rendering gives**, and no cut is missing on the way. -/
theorem roundsAt?_eq_render (t : Template) (bindings : Dict String) :
    roundsAt? bindings (t.source.toList.length + 1) ⟨[], t.source.toList⟩ =
      some (.last ((t.render bindings).map String.toList)) := by
  refine (roundsAt?_eq ..).trans (congrArg some ((rounds_eq_last (Nat.lt_succ_self _)).trans ?_))
  unfold Scan.result render
  cases renderSegments bindings (segments t.source.toList) with
  | error fault => rfl
  | ok cs =>
    show Round.last (.ok ([] ++ cs)) = .last (.ok (String.ofList cs).toList)
    rw [List.nil_append, String.toList_ofList]

end CapsuleCompiler.Template
