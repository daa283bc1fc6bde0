import CapsuleCompiler.Proofs.Fallible
import CapsuleCompiler.Proofs.Generation.Rendering

/-!
# Proofs.Template.Substitution — rendering puts values between fixed texts

Whether a template is refused, and why, is told by its segments and the keys that have values (`refusal?`); what it is
rendered to is its segments with the values in place (`fill`).  Rendering can also be done in one pass that goes from
double brace to double brace and writes as it goes (`round`): each round reads on in the template and leaves the result
as it was (`sound_round`), so the pass ends, with the same result, and never looks at what it has written
(`render_substitutes`).
-/

namespace CapsuleCompiler

/-- What stands for a segment in the rendered text. -/
def Segment.shown (bindings : Dict String) : Segment → List Char
  | text cs => cs
  | slot key _ => ((bindings.get? (.ofList key)).getD "").toList
  | unclosed rest => (unclosed rest).source

/-- Nothing keeps a segment from being shown, where `bound` has the keys with values. -/
def Segment.Filled (bound : String → Bool) : Segment → Prop
  | text _ => True
  | slot key _ => bound (.ofList key)
  | unclosed _ => False

namespace Template

variable {bindings : Dict String} {segs : List Segment}

/-! ### Refusals -/

def fill (bindings : Dict String) (segs : List Segment) : List Char := segs.flatMap (Segment.shown bindings)

@[simp] theorem fill_nil : fill bindings [] = [] := rfl

@[simp] theorem fill_cons (s : Segment) (segs : List Segment) :
    fill bindings (s :: segs) = s.shown bindings ++ fill bindings segs := rfl

@[simp] theorem fill_append (segs others : List Segment) :
    fill bindings (segs ++ others) = fill bindings segs ++ fill bindings others := List.flatMap_append

/-- Why segments cannot be rendered, where `bound` has the keys with values. -/
def refusal? (bound : String → Bool) : List Segment → Option GenerationFault
  | [] => none
  | .text _ :: segs => refusal? bound segs
  | .slot key _ :: segs => if bound (.ofList key) then refusal? bound segs else some (.unbound (.ofList key))
  | .unclosed rest :: _ => some (.unterminated (.ofList (rest.take excerptLength)))

/-- **What rendering gives**, said without the order in which it goes through the segments. -/
theorem renderSegments_eq (bindings : Dict String) (segs : List Segment) :
    renderSegments bindings segs =
      match refusal? bindings.contains segs with
      | some fault => .error fault
      | none => .ok (fill bindings segs) := by
  induction segs with
  | nil => rfl
  | cons s segs ih =>
    cases s with
    | text cs =>
      rw [renderSegments, ih, refusal?, fill_cons, Segment.shown]
      cases refusal? bindings.contains segs <;> rfl
    | slot key spelling =>
      rw [renderSegments, refusal?, fill_cons, Segment.shown, Dict.contains]
      cases hvalue : bindings.get? (.ofList key) with
      | none => rfl
      | some value =>
        rw [Option.isSome_some, if_pos rfl]
        show (do return value.toList ++ (← renderSegments bindings segs)) = _
        rw [ih]
        cases refusal? bindings.contains segs <;> rfl
    | unclosed rest => rfl

theorem renderSegments_eq_ok {cs : List Char} : renderSegments bindings segs = .ok cs ↔
    refusal? bindings.contains segs = none ∧ fill bindings segs = cs := by
  rw [renderSegments_eq]
  cases refusal? bindings.contains segs <;> simp

theorem renderSegments_eq_error {fault : GenerationFault} : renderSegments bindings segs = .error fault ↔
    refusal? bindings.contains segs = some fault := by
  rw [renderSegments_eq]
  cases refusal? bindings.contains segs <;> simp

theorem render_eq_ok {t : Template} {text : String} : t.render bindings = .ok text ↔
    refusal? bindings.contains (segments t.source.toList) = none ∧
      fill bindings (segments t.source.toList) = text.toList := by
  rw [← renderSegments_eq_ok]
  unfold render
  rw [bind_eq_ok]
  constructor
  · rintro ⟨cs, hcs, heq⟩
    obtain rfl : String.ofList cs = text := Except.ok.inj heq
    rw [hcs, String.toList_ofList]
  · intro h
    exact ⟨_, h, congrArg Except.ok String.ofList_toList⟩

theorem render_eq_error {t : Template} {fault : GenerationFault} : t.render bindings = .error fault ↔
    refusal? bindings.contains (segments t.source.toList) = some fault := by
  rw [← renderSegments_eq_error]
  unfold render
  exact bind_pure_eq_error

theorem refusal?_eq_none_iff {bound : String → Bool} :
    refusal? bound segs = none ↔ ∀ s ∈ segs, s.Filled bound := by
  induction segs with
  | nil => simp [refusal?]
  | cons s segs ih =>
    rw [List.forall_mem_cons, ← ih]
    cases s with
    | text cs => exact (and_iff_right trivial).symm
    | slot key spelling =>
      rw [refusal?, Segment.Filled]
      by_cases hbound : bound (.ofList key)
      · rw [if_pos hbound]
        exact (and_iff_right hbound).symm
      · rw [if_neg hbound]
        exact iff_of_false (Option.some_ne_none _) fun h => hbound h.1
    | unclosed rest => exact iff_of_false (Option.some_ne_none _) fun h => h.1

theorem forall_filled_iff {bound : String → Bool} : (∀ s ∈ segs, s.Filled bound) ↔
    (∀ key spelling, .slot key spelling ∈ segs → bound (.ofList key)) ∧ ∀ rest, .unclosed rest ∉ segs := by
  constructor
  · intro h
    exact ⟨fun key spelling hmem => h _ hmem, fun rest hmem => h _ hmem⟩
  · rintro ⟨hslot, hclosed⟩ s hs
    cases s with
    | text cs => trivial
    | slot key spelling => exact hslot key spelling hs
    | unclosed rest => exact hclosed rest hs

/-- For every key of the segments there can be a value. -/
theorem exists_bindings (segs : List Segment) :
    ∃ bindings : Dict String, ∀ key spelling, .slot key spelling ∈ segs → bindings.contains (.ofList key) := by
  let entry : Segment → Option (String × String)
    | .slot key _ => some (.ofList key, "")
    | _ => none
  refine ⟨.ofList (segs.filterMap entry), fun key spelling hmem => ?_⟩
  have hentry : (String.ofList key, "") ∈ segs.filterMap entry := List.mem_filterMap.2 ⟨_, hmem, rfl⟩
  exact (Dict.mem_keys_iff _ _).1 (Dict.mem_keys_ofList.2 (List.mem_map_of_mem hentry))

/-! ### One pass -/

/-- What stands before the first double opening brace, and behind it. -/
def upToOpening? : List Char → Option (List Char × List Char)
  | [] => none
  | [_] => none
  | c :: d :: cs =>
    if c = '{' ∧ d = '{' then some ([], cs)
    else (upToOpening? (d :: cs)).map fun p => (c :: p.1, p.2)

/-- What has been written, and what is left of the template. -/
structure Scan where
  written : List Char
  left : List Char

inductive Round
  | again (scan : Scan)
  | last (result : Except GenerationFault (List Char))

/-- One round: to the next double brace, and past the placeholder that it opens, or past the brace. -/
def round (bindings : Dict String) (scan : Scan) : Round :=
  match upToOpening? scan.left with
  | none => .last (.ok (scan.written ++ scan.left))
  | some (before, behind) =>
    match upToClosing? behind with
    | none =>
      if startsWithKey behind then .last (.error (.unterminated (.ofList (behind.take excerptLength))))
      else .again ⟨scan.written ++ before ++ ['{', '{'], behind⟩
    | some (body, rest) =>
      if isKey (Text.trim body) then
        match bindings.get? (.ofList (Text.trim body)) with
        | none => .last (.error (.unbound (.ofList (Text.trim body))))
        | some value => .again ⟨scan.written ++ before ++ value.toList, rest⟩
      else .again ⟨scan.written ++ before ++ ['{', '{'], behind⟩

def rounds (bindings : Dict String) : Nat → Scan → Round
  | 0, scan => .again scan
  | n + 1, scan =>
    match round bindings scan with
    | .again scan => rounds bindings n scan
    | .last result => .last result

/-- What a pass that has come so far will end with. -/
def Scan.result (bindings : Dict String) (scan : Scan) : Except GenerationFault (List Char) :=
  (renderSegments bindings (segments scan.left)).map (scan.written ++ ·)

/-- A round leaves the result as it was, and if it is not the last it has read on. -/
def Round.Sound (bindings : Dict String) (scan : Scan) : Round → Prop
  | again next => next.result bindings = scan.result bindings ∧ ∃ read, read ≠ [] ∧ scan.left = read ++ next.left
  | last result => result = scan.result bindings

theorem segments_of_upToOpening?_eq_none {cs : List Char} (h : upToOpening? cs = none) :
    segments cs = cs.map fun c => .text [c] := by
  fun_induction upToOpening? cs with
  | case1 => rw [segments]; rfl
  | case2 c => rw [segments]; rfl
  | case3 => cases h
  | case4 c d cs hnot ih =>
    rw [segments, if_neg hnot, ih (Option.map_eq_none_iff.1 h)]
    rfl

theorem segments_of_upToOpening? {cs before behind : List Char} (h : upToOpening? cs = some (before, behind)) :
    cs = before ++ '{' :: '{' :: behind ∧
      segments cs = before.map (fun c => .text [c]) ++ segments ('{' :: '{' :: behind) := by
  fun_induction upToOpening? cs generalizing before with
  | case1 => cases h
  | case2 => cases h
  | case3 c d cs hopen =>
    obtain ⟨rfl, rfl⟩ := hopen
    cases h
    exact ⟨rfl, rfl⟩
  | case4 c d cs hnot ih =>
    obtain ⟨⟨b, r⟩, hb, heq⟩ := Option.map_eq_some_iff.1 h
    cases heq
    obtain ⟨hcs, hsegments⟩ := ih hb
    rw [segments, if_neg hnot, hsegments]
    exact ⟨congrArg (c :: ·) hcs, rfl⟩

theorem renderSegments_text (cs : List Char) (segs : List Segment) :
    renderSegments bindings (.text cs :: segs) = (renderSegments bindings segs).map (cs ++ ·) := by
  rw [renderSegments]
  cases renderSegments bindings segs <;> rfl

theorem Scan.result_eq (bindings : Dict String) {scan : Scan} {before behind : List Char}
    (h : upToOpening? scan.left = some (before, behind)) :
    scan.result bindings =
      (renderSegments bindings (segments ('{' :: '{' :: behind))).map (scan.written ++ before ++ ·) := by
  unfold result
  rw [(segments_of_upToOpening? h).2, renderSegments_append]
  cases renderSegments bindings (segments ('{' :: '{' :: behind)) with
  | error fault => rfl
  | ok cs => exact congrArg Except.ok (List.append_assoc ..).symm

/-- Past a double brace that is text. -/
theorem sound_again_braces {scan : Scan} {before behind : List Char}
    (hopen : upToOpening? scan.left = some (before, behind))
    (h : segments ('{' :: '{' :: behind) = .text ['{', '{'] :: segments behind) :
    (Round.again ⟨scan.written ++ before ++ ['{', '{'], behind⟩).Sound bindings scan := by
  refine ⟨?_, before ++ ['{', '{'], by simp, ?_⟩
  · rw [Scan.result_eq bindings hopen, h, renderSegments_text]
    unfold Scan.result
    cases renderSegments bindings (segments behind) with
    | error fault => rfl
    | ok cs => exact congrArg Except.ok (List.append_assoc ..)
  · rw [(segments_of_upToOpening? hopen).1, List.append_assoc]
    rfl

theorem sound_round (bindings : Dict String) (scan : Scan) : (round bindings scan).Sound bindings scan := by
  unfold round
  cases hopen : upToOpening? scan.left with
  | none =>
    show Except.ok _ = scan.result bindings
    have hleft : renderSegments bindings (scan.left.map (fun c => .text [c]) ++ []) = _ :=
      renderSegments_append scan.left []
    rw [List.append_nil] at hleft
    unfold Scan.result
    rw [segments_of_upToOpening?_eq_none hopen, hleft, renderSegments]
    show _ = Except.ok (scan.written ++ (scan.left ++ []))
    rw [List.append_nil]
  | some split =>
    obtain ⟨before, behind⟩ := split
    have hresult := Scan.result_eq bindings hopen
    have hleft := (segments_of_upToOpening? hopen).1
    dsimp only
    cases hclose : upToClosing? behind with
    | none =>
      have hnone := upToClosing?_eq_none_iff.1 hclose
      by_cases hkey : startsWithKey behind
      · rw [segments_unclosed hnone hkey] at hresult
        rw [if_pos hkey]
        exact hresult.symm
      · rw [if_neg hkey]
        refine sound_again_braces hopen (segments_braces (fun body rest key _ heq => ?_) (.inr ?_))
        · exact hnone ⟨body, rest, heq⟩
        · exact Bool.not_eq_true _ ▸ hkey
    | some found =>
      obtain ⟨body, rest⟩ := found
      have hbehind := eq_of_upToClosing? hclose
      dsimp only
      by_cases hkey : isKey (Text.trim body)
      · have hspells : Spells body (Text.trim body) := spells_iff.2 ⟨rfl, hkey⟩
        rw [hbehind, segments_placeholder hspells] at hresult
        rw [if_pos hkey]
        cases hvalue : bindings.get? (.ofList (Text.trim body)) with
        | none =>
          rw [renderSegments, hvalue] at hresult
          exact hresult.symm
        | some value =>
          rw [renderSegments_slot hvalue] at hresult
          refine ⟨?_, before ++ '{' :: '{' :: (body ++ ['}', '}']), by simp, ?_⟩
          · rw [hresult]
            unfold Scan.result
            cases renderSegments bindings (segments rest) with
            | error fault => rfl
            | ok cs => exact congrArg Except.ok (List.append_assoc ..)
          · rw [hleft, hbehind]
            simp
      · rw [if_neg hkey]
        refine sound_again_braces hopen (segments_braces (fun other rest' key hspells heq => ?_) (.inl ?_))
        · have hother := upToClosing?_append hspells.closing_notMem rest'
          rw [← heq, hclose] at hother
          cases hother
          exact hkey (hspells.trim.symm ▸ hspells.1)
        · exact ⟨body, rest, hbehind⟩

/-- A pass ends, as every round of it reads on. -/
theorem rounds_eq_last {n : Nat} {scan : Scan} (h : scan.left.length < n) :
    rounds bindings n scan = .last (scan.result bindings) := by
  induction n generalizing scan with
  | zero => omega
  | succ n ih =>
    have hsound := sound_round bindings scan
    rw [rounds]
    cases hround : round bindings scan with
    | last result =>
      rw [hround] at hsound
      exact congrArg Round.last hsound
    | again next =>
      rw [hround] at hsound
      obtain ⟨hresult, read, hread, hleft⟩ := hsound
      have hpos := List.length_pos_iff.2 hread
      rw [hleft, List.length_append] at h
      dsimp only
      rw [ih (by omega), hresult]

/-- What a pass has still to read is the end of what it was to read at first. -/
theorem left_suffix_of_rounds {n : Nat} {scan next : Scan} (h : rounds bindings n scan = .again next) :
    next.left <:+ scan.left := by
  induction n generalizing scan with
  | zero =>
    cases h
    exact List.suffix_rfl
  | succ n ih =>
    have hsound := sound_round bindings scan
    rw [rounds] at h
    cases hround : round bindings scan with
    | last result =>
      rw [hround] at h
      cases h
    | again between =>
      rw [hround] at h hsound
      obtain ⟨-, read, -, hleft⟩ := hsound
      exact (ih h).trans ⟨read, hleft.symm⟩

/-! ### Texts and placeholders -/

/-- A text that is shown as it stands, or a placeholder with the key that is spelled in it. -/
def IsPart : Segment → Prop
  | .text _ => True
  | .slot key spelling => Spells spelling key
  | .unclosed _ => False

/-- A placeholder that is not closed is text. -/
def settled : Segment → Segment
  | .unclosed rest => .text (Segment.unclosed rest).source
  | s => s

theorem isPart_settled {s : Segment} (h : s.Proper) : IsPart (settled s) := by
  cases s with
  | text cs => trivial
  | slot key spelling => exact h
  | unclosed rest => trivial

theorem source_settled (s : Segment) : (settled s).source = s.source := by
  cases s <;> rfl

theorem shown_settled (s : Segment) : (settled s).shown bindings = s.shown bindings := by
  cases s <;> rfl

theorem slot_mem_settled_iff {key spelling : List Char} :
    .slot key spelling ∈ segs.map settled ↔ .slot key spelling ∈ segs := by
  refine ⟨fun h => ?_, fun h => List.mem_map.2 ⟨_, h, rfl⟩⟩
  obtain ⟨s, hs, heq⟩ := List.mem_map.1 h
  cases s with
  | text cs => cases heq
  | slot key' spelling' => exact heq ▸ hs
  | unclosed rest => cases heq

theorem contains_eq_of_keys_eq {b b' : Dict String} (h : b.keys = b'.keys) : b.contains = b'.contains := by
  funext key
  unfold Dict.contains
  rw [Bool.eq_iff_iff, ← Dict.mem_keys_iff, ← Dict.mem_keys_iff, h]

/-- **Rendering is substitution.**  The template is a row of texts and placeholders; by the keys that have values it is
refused, with one fault, or rendered to this row with the values in place of the placeholders.  It is rendered if every
placeholder has a value and no key is left open.  One pass comes to the same result after at most as many rounds as the
template has characters, and one more; all that it looks at is the rest of the template. -/
theorem render_substitutes (t : Template) :
    (∃ parts : List Segment, cover parts = t.source.toList ∧ (∀ s ∈ parts, IsPart s) ∧
      ∃ refusal : (String → Bool) → Option GenerationFault,
        (∀ bound, refusal bound = none ↔ (∀ key spelling, .slot key spelling ∈ parts → bound (.ofList key)) ∧
          ∀ rest, .unclosed rest ∉ segments t.source.toList) ∧
        ∀ bindings : Dict String,
          (∀ fault, refusal bindings.contains = some fault → t.render bindings = .error fault) ∧
          (refusal bindings.contains = none → t.render bindings = .ok (.ofList (fill bindings parts)))) ∧
    (∀ b b' : Dict String, b.keys = b'.keys → ∀ fault, t.render b = .error fault ↔ t.render b' = .error fault) ∧
    ∀ bindings : Dict String,
      rounds bindings (t.source.toList.length + 1) ⟨[], t.source.toList⟩ =
        .last ((t.render bindings).map String.toList) ∧
      ∀ n scan, rounds bindings n ⟨[], t.source.toList⟩ = .again scan → scan.left <:+ t.source.toList := by
  refine ⟨⟨(segments t.source.toList).map settled, ?_, ?_, fun bound => refusal? bound (segments t.source.toList),
    fun bound => ?_, fun bindings => ⟨fun fault h => render_eq_error.2 h, fun h => render_eq_ok.2 ⟨h, ?_⟩⟩⟩, ?_, ?_⟩
  · have hcover := cover_segments t.source.toList
    rwa [cover, List.flatMap_map, funext source_settled]
  · exact List.forall_mem_map.2 fun s hs => isPart_settled (proper_segments _ s hs)
  · simp only [slot_mem_settled_iff]
    exact refusal?_eq_none_iff.trans forall_filled_iff
  · rw [String.toList_ofList, fill, fill, List.flatMap_map, funext shown_settled]
  · intro b b' hkeys fault
    rw [render_eq_error, render_eq_error, contains_eq_of_keys_eq hkeys]
  · refine fun bindings => ⟨?_, fun n scan => left_suffix_of_rounds⟩
    refine (rounds_eq_last (Nat.lt_succ_self _)).trans ?_
    unfold Scan.result render
    cases renderSegments bindings (segments t.source.toList) with
    | error fault => rfl
    | ok cs =>
      show Round.last (.ok ([] ++ cs)) = .last (.ok (String.ofList cs).toList)
      rw [List.nil_append, String.toList_ofList]

end Template

end CapsuleCompiler
