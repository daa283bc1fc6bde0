import CapsuleCompiler.Module
import CapsuleCompiler.Proofs.Position.Kebab
import CapsuleCompiler.Proofs.Position.Marks
import CapsuleCompiler.Proofs.Position.Rendering

/-!
# Proofs.Position.InRange — no position is out of range

A directive is told by what stands between its quotes, which is cut out from the second byte to the last but one.  A
text that begins and ends with one quote and is longer than two bytes has the two quotes at different places, so this
is a slice of it (`isDirectiveAt?_eq`).  With that, the positions at which the compiler looks into texts, templates,
names and graphs are all in range (`positions_in_range`).
-/

namespace CapsuleCompiler

namespace Module

open String (utf8Len)
open Text (minus? slice?)

/-! ### Directives -/

/-- The same quote stands first and last, which may be one place. -/
def isQuoted (cs : List Char) : Bool :=
  (cs.head? == some '\'' && cs.getLast? == some '\'') || (cs.head? == some '"' && cs.getLast? == some '"')

/-- What stands between the first byte and the last. -/
def innerAt? (cs : List Char) : Option (List Char) := do
  slice? cs 1 (← minus? (utf8Len cs) 1)

/-- Whether a first line, trimmed, is a directive, told by the slice between its quotes. -/
def isDirectiveAt? (line : List Char) : Option Bool :=
  let candidate := (line.reverse.dropWhile (· == ';')).reverse
  if isQuoted candidate && 2 < utf8Len candidate then
    (innerAt? candidate).map fun inner => "use ".toList.isPrefixOf inner
  else some false

def splitDirectiveAt? (body : List Char) : Option (Option (List Char) × List Char) := do
  let line := Text.trim (body.takeWhile (· ≠ '\n'))
  if ← isDirectiveAt? line then return (some line, Text.trimStart ((body.dropWhile (· ≠ '\n')).drop 1))
  else return (none, body)

theorem innerAt?_eq {q r : Char} (hq : q.utf8Size = 1) (hr : r.utf8Size = 1) (between : List Char) :
    innerAt? (q :: between ++ [r]) = some between := by
  have hstart : utf8Len [q] = 1 := by simp [hq]
  have hminus : minus? (utf8Len (q :: between ++ [r])) 1 = some (utf8Len (q :: between)) := by
    simp [minus?, hr]
  have hslice := Text.slice?_append [q] between [r]
  rw [hstart] at hslice
  rw [innerAt?, hminus]
  exact hslice

theorem isQuoted_eq (q r : Char) (between : List Char) :
    isQuoted (q :: between ++ [r]) = ((q == '\'' || q == '"') && r == q) := by
  have hlast : (q :: between ++ [r]).getLast? = some r := List.getLast?_concat
  rw [isQuoted, hlast, Bool.eq_iff_iff]
  simp only [List.cons_append, List.head?_cons, Bool.or_eq_true, Bool.and_eq_true, beq_iff_eq, Option.some.injEq]
  grind

theorem utf8Size_quote {q : Char} (h : (q == '\'' || q == '"') = true) : q.utf8Size = 1 := by
  rw [Bool.or_eq_true, beq_iff_eq, beq_iff_eq] at h
  rcases h with rfl | rfl <;> decide

/-- A single quote is first and last, but too short. -/
theorem not_long_of_isQuoted (q : Char) : (isQuoted [q] && 2 < utf8Len [q]) = false := by
  have hquoted : isQuoted [q] = (q == '\'' || q == '"') := by simp [isQuoted]
  rw [hquoted]
  cases hq : q == '\'' || q == '"' with
  | false => rfl
  | true => simp [utf8Size_quote hq]

theorem isDirectiveAt?_eq (line : List Char) : isDirectiveAt? line = some (isDirective line) := by
  rw [isDirectiveAt?, isDirective]
  generalize (line.reverse.dropWhile (· == ';')).reverse = candidate
  cases candidate with
  | nil => rfl
  | cons q rest =>
    cases rest using List.reverseRecOn with
    | nil =>
      dsimp only
      rw [not_long_of_isQuoted]
      simp
    | append_singleton between r =>
      have hlast : (between ++ [r]).getLast? = some r := List.getLast?_concat
      have hdrop : (between ++ [r]).dropLast = between := List.dropLast_concat
      dsimp only
      rw [← List.cons_append, isQuoted_eq, hlast, hdrop, Option.some_beq_some]
      cases hquoted : (q == '\'' || q == '"') && r == q with
      | false => rfl
      | true =>
        obtain ⟨hq, hr⟩ := Bool.and_eq_true_iff.1 hquoted
        obtain rfl := beq_iff_eq.1 hr
        have hsize := utf8Size_quote hq
        rw [Bool.true_and, Bool.true_and, innerAt?_eq hsize hsize]
        cases between with
        | nil => simp [hsize]
        | cons c between =>
          have hlong : 2 < utf8Len (r :: c :: between ++ [r]) := by
            have := c.utf8Size_pos
            simp [hsize]
            omega
          rw [if_pos (decide_eq_true hlong)]
          rfl

theorem splitDirectiveAt?_eq (body : List Char) : splitDirectiveAt? body = some (splitDirective body) := by
  rw [splitDirectiveAt?, splitDirective, isDirectiveAt?_eq]
  cases isDirective (Text.trim (body.takeWhile (· ≠ '\n'))) <;> rfl

end Module

/-! ### All positions -/

/-- **No position is out of range.**  A text is cut and sliced at valid positions only.  With every cut, slice,
difference and place in a list checked, the kebab form, the recognition of a directive, the rendering of a template
and the search for cycles have a result for every text, template and graph, and it is the one without positions: so no
check fails. -/
theorem positions_in_range :
    (∀ cs n, (Text.cutAt? cs n).isSome ↔ String.Pos.Raw.IsValid (.ofList cs) ⟨n⟩) ∧
    (∀ cs start stop, (Text.slice? cs start stop).isSome ↔ start ≤ stop ∧
      String.Pos.Raw.IsValid (.ofList cs) ⟨start⟩ ∧ String.Pos.Raw.IsValid (.ofList cs) ⟨stop⟩) ∧
    (∀ text : String, Naming.kebabAt? text.toList = some (Naming.kebab text).toList) ∧
    (∀ body : List Char, Module.splitDirectiveAt? body = some (Module.splitDirective body)) ∧
    (∀ (t : Template) (bindings : Dict String),
      Template.roundsAt? bindings (t.source.toList.length + 1) ⟨[], t.source.toList⟩ =
        some (.last ((t.render bindings).map String.toList))) ∧
    ∀ steps : List DependencyGraph.Step,
      (DependencyGraph.build steps).findCyclesAt? = some (DependencyGraph.build steps).findCycles := by
  refine ⟨fun _ _ => Text.isSome_cutAt?_iff, fun _ _ _ => Text.isSome_slice?_iff, fun text => ?_,
    Module.splitDirectiveAt?_eq, Template.roundsAt?_eq_render,
    fun steps => DependencyGraph.findCyclesAt?_eq (DependencyGraph.sound_build steps)⟩
  rw [Naming.kebabAt?_eq, Naming.kebab, String.toList_ofList]

end CapsuleCompiler
