import CapsuleCompiler.Proofs.Position.Cuts
import CapsuleCompiler.Proofs.Text.Recovery
import Mathlib.Data.List.DropRight

/-!
# Proofs.Position.Kebab — the kebab form character by character

The kebab form can be written by going through the characters with their numbers and asking, before a capital, for the
character numbered one less.  It is asked for only when something has been written that does not end with a hyphen;
then a letter or a digit has just been read, so there is such a character, and it is the one that `kebabFrom` carries
along (`Reached`).  Hyphens behind the last word are taken away at the end.
-/

namespace CapsuleCompiler.Naming

/-! ### One character after the other -/

/-- Something has been written, and no hyphen last. -/
def endsInWord (out : List Char) : Bool := !out.isEmpty && out.getLast? != some '-'

/-- What has been written when the character `c`, with the number `i`, has been read. -/
def kebabStep? (chars out : List Char) (c : Char) (i : Nat) : Option (List Char) :=
  if !c.isAlphanum then some (if endsInWord out then out ++ ['-'] else out)
  else if c.isUpper && endsInWord out then do
    let prev ← chars[← Text.minus? i 1]?
    return (if opensWord prev c chars[i + 1]? then out ++ ['-'] else out) ++ [c.toLower]
  else some (out ++ [c.toLower])

def dropHyphens (out : List Char) : List Char := out.rdropWhile (· == '-')

def kebabAt? (chars : List Char) : Option (List Char) :=
  (chars.zipIdx.foldlM (fun out p => kebabStep? chars out p.1 p.2) []).map dropHyphens

/-! ### The place in the reading -/

/-- What has been read and written at a place. -/
def Reached : Place → List Char → List Char → Prop
  | .start, _, out => out = []
  | .between, _, out => ∃ word, endsInWord word ∧ out = word ++ ['-']
  | .within prev, read, out => read.getLast? = some prev ∧ endsInWord out

variable {place : Place} {read rest out : List Char} {c : Char}

theorem endsInWord_iff : endsInWord out ↔ ∃ before last, out = before ++ [last] ∧ last ≠ '-' := by
  cases out using List.reverseRecOn with
  | nil => simp [endsInWord]
  | append_singleton before last => simp [endsInWord]

theorem endsInWord_concat (out : List Char) (hc : c.isAlphanum) : endsInWord (out ++ [c.toLower]) :=
  endsInWord_iff.2 ⟨out, _, rfl, ne_hyphen_of_isSmall (isSmall_toLower hc)⟩

theorem not_endsInWord_hyphen (word : List Char) : ¬endsInWord (word ++ ['-']) := by
  simp [endsInWord]

theorem dropHyphens_of_endsInWord (h : endsInWord out) : dropHyphens out = out := by
  obtain ⟨before, last, rfl, hlast⟩ := endsInWord_iff.1 h
  exact List.rdropWhile_concat_neg _ _ _ (by simpa using hlast)

theorem dropHyphens_hyphen (h : endsInWord out) : dropHyphens (out ++ ['-']) = out :=
  (List.rdropWhile_concat_pos _ _ _ (by decide)).trans (dropHyphens_of_endsInWord h)

/-- Behind a character of a word the one before is asked for, and it is there. -/
theorem kebabStep?_of_within {prev : Char} (h : Reached (.within prev) read out) (hc : c.isAlphanum) :
    kebabStep? (read ++ c :: rest) out c read.length =
      some ((if opensWord prev c rest.head? then out ++ ['-'] else out) ++ [c.toLower]) := by
  obtain ⟨hprev, hout⟩ := h
  obtain ⟨before, rfl⟩ := List.getLast?_eq_some_iff.1 hprev
  have hminus : Text.minus? (before ++ [prev]).length 1 = some before.length := by simp [Text.minus?]
  have hbehind : (before ++ [prev] ++ c :: rest)[before.length]? = some prev := by simp
  have hahead : (before ++ [prev] ++ c :: rest)[(before ++ [prev]).length + 1]? = rest.head? := by
    rw [List.getElem?_append_right (Nat.le_add_right _ 1), Nat.add_sub_cancel_left, List.getElem?_cons_succ,
      List.head?_eq_getElem?]
  cases hupper : c.isUpper with
  | false => simp [kebabStep?, hc, hupper, opensWord]
  | true => simp only [kebabStep?, hc, hupper, hout, hminus, hbehind, hahead, Option.bind_eq_bind, Option.bind_some,
      Bool.not_true, Bool.and_true, if_true, Bool.false_eq_true, if_false, Option.pure_def]

/-- Reading `c` has a result, and leads to a place from which the kebab form goes on as from the place before. -/
def Reached.Steps (place : Place) (read out : List Char) (c : Char) (rest : List Char) : Prop :=
  ∃ next out', kebabStep? (read ++ c :: rest) out c read.length = some out' ∧ Reached next (read ++ [c]) out' ∧
    dropHyphens out ++ kebabFrom place (c :: rest) = dropHyphens out' ++ kebabFrom next rest

theorem Reached.separator (h : Reached place read out) (hc : ¬c.isAlphanum) (rest : List Char) :
    Reached.Steps place read out c rest := by
  have hstep : kebabStep? (read ++ c :: rest) out c read.length =
      some (if endsInWord out then out ++ ['-'] else out) := by
    simp [kebabStep?, hc]
  cases place with
  | start =>
    obtain rfl : out = [] := h
    exact ⟨.start, [], hstep, rfl, by rw [kebabFrom, if_neg hc]⟩
  | between =>
    obtain ⟨word, hword, rfl⟩ := h
    rw [if_neg (not_endsInWord_hyphen word)] at hstep
    exact ⟨.between, _, hstep, ⟨word, hword, rfl⟩, by rw [kebabFrom, if_neg hc]⟩
  | within prev =>
    rw [if_pos h.2] at hstep
    refine ⟨.between, _, hstep, ⟨out, h.2, rfl⟩, ?_⟩
    rw [kebabFrom, if_neg hc, dropHyphens_hyphen h.2, dropHyphens_of_endsInWord h.2]

theorem Reached.letter (h : Reached place read out) (hc : c.isAlphanum) (rest : List Char) :
    Reached.Steps place read out c rest := by
  have hwithin (out : List Char) : Reached (.within c) (read ++ [c]) (out ++ [c.toLower]) :=
    ⟨List.getLast?_concat, endsInWord_concat out hc⟩
  have hdrop (out : List Char) : dropHyphens (out ++ [c.toLower]) = out ++ [c.toLower] :=
    dropHyphens_of_endsInWord (endsInWord_concat out hc)
  cases place with
  | start =>
    obtain rfl : out = [] := h
    refine ⟨.within c, [] ++ [c.toLower], by simp [kebabStep?, hc, endsInWord], hwithin [], ?_⟩
    rw [kebabFrom, if_pos hc, hdrop]
    rfl
  | between =>
    -- the hyphen was written with the first separator and is not written again
    obtain ⟨word, hword, rfl⟩ := h
    refine ⟨.within c, word ++ ['-'] ++ [c.toLower], ?_, hwithin _, ?_⟩
    · simp [kebabStep?, hc, not_endsInWord_hyphen]
    · rw [kebabFrom, if_pos hc, hdrop, dropHyphens_hyphen hword]
      simp
  | within prev =>
    refine ⟨.within c, (if opensWord prev c rest.head? then out ++ ['-'] else out) ++ [c.toLower],
      kebabStep?_of_within h hc, hwithin _, ?_⟩
    rw [kebabFrom, if_pos hc, hdrop, dropHyphens_of_endsInWord h.2]
    cases opensWord prev c rest.head? <;> simp

theorem Reached.step (h : Reached place read out) (c : Char) (rest : List Char) :
    Reached.Steps place read out c rest := by
  by_cases hc : c.isAlphanum
  · exact h.letter hc rest
  · exact h.separator hc rest

/-- Reading goes on to the end from every place. -/
theorem Reached.run (h : Reached place read out) (rest : List Char) :
    ∃ out', (rest.zipIdx read.length).foldlM (fun out p => kebabStep? (read ++ rest) out p.1 p.2) out = some out' ∧
      dropHyphens out' = dropHyphens out ++ kebabFrom place rest := by
  induction rest generalizing read out place with
  | nil => exact ⟨out, rfl, by rw [kebabFrom, List.append_nil]⟩
  | cons c rest ih =>
    obtain ⟨next, written, hstep, hnext, hgoes⟩ := h.step c rest
    obtain ⟨out', hrun, hdrop⟩ := ih hnext
    rw [List.length_append, List.length_singleton, List.append_assoc, List.singleton_append] at hrun
    refine ⟨out', ?_, by rw [hgoes, hdrop]⟩
    rw [List.zipIdx_cons, List.foldlM_cons, hstep]
    exact hrun

/-- **The character before is there** whenever it is asked for, and what is written is the kebab form. -/
theorem kebabAt?_eq (chars : List Char) : kebabAt? chars = some (kebabFrom .start chars) := by
  have hstart : Reached .start [] [] := rfl
  obtain ⟨out, hrun, hdrop⟩ := hstart.run chars
  refine (congrArg (Option.map dropHyphens) hrun).trans ?_
  exact congrArg some hdrop

end CapsuleCompiler.Naming
