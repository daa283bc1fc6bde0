import CapsuleCompiler.Config
import CapsuleCompiler.Proofs.Unit.Extraction
import Mathlib.Data.List.Sort

/-!
# Proofs.Unit.Gathering — what an extraction is, and of which capsules

An extraction is described without the loop that makes it (`Describes`): the capsules that the lines of a source name,
in the order of the first lines, what is gathered for each of them, and a warning for each that is not known.  The
description fits one extraction only (`describes_iff`).  A segment without letters and digits names the capsule without
a name, so references are of canonical capsules as long as no line has such a segment (`canonical_references_iff`).
-/

namespace CapsuleCompiler

namespace Extraction

variable {rule : ReferenceRule} {known : CapsuleId → Bool} {consumer : CapsuleId} {source : String}

/-! ### Numbered lines -/

/-- The lines of a source that make a reference, with their numbers. -/
def numberedReferences (rule : ReferenceRule) (source : String) : List (Nat × Reference) :=
  ((Text.lines source.toList).zipIdx 1).filterMap fun line => (rule.parseLine? line.1).map (line.2, ·)

theorem referenceLines_eq (rule : ReferenceRule) (number : Nat) (lines : List (List Char)) :
    referenceLines rule number lines =
      (lines.zipIdx number).filterMap fun line => (rule.parseLine? line.1).map (line.2, ·) := by
  induction lines generalizing number with
  | nil => rfl
  | cons line lines ih =>
    rw [referenceLines, List.zipIdx_cons, List.filterMap_cons, ih]
    cases rule.parseLine? line <;> rfl

theorem references_ofSource (rule : ReferenceRule) (known : CapsuleId → Bool) (consumer : CapsuleId) (source : String) :
    (ofSource rule known consumer source).references = collect (numberedReferences rule source) :=
  congrArg collect (referenceLines_eq ..)

theorem pairwise_numberedReferences (rule : ReferenceRule) (source : String) :
    (numberedReferences rule source).Pairwise (·.1 < ·.1) := by
  have hnumbers : ((Text.lines source.toList).zipIdx 1).Pairwise (·.2 < ·.2) := by
    rw [← List.pairwise_map (f := Prod.snd) (R := (· < ·)), List.zipIdx_map_snd]
    exact List.pairwise_lt_range' ..
  refine List.pairwise_filterMap.2 (hnumbers.imp fun hlt f hf g hg => ?_)
  obtain ⟨_, -, rfl⟩ := Option.map_eq_some_iff.1 hf
  obtain ⟨_, -, rfl⟩ := Option.map_eq_some_iff.1 hg
  exact hlt

/-- References stand in the order of their first lines. -/
theorem pairwise_collect {found : List (Nat × Reference)} (h : found.Pairwise (·.1 < ·.1)) :
    (collect found).Pairwise (·.line < ·.line) := by
  rw [← List.pairwise_map (f := Dependency.line) (R := (· < ·))]
  induction found using List.reverseRecOn with
  | nil => exact .nil
  | append_singleton found f ih =>
    obtain ⟨hfound, -, hlast⟩ := List.pairwise_append.1 h
    rw [collect_concat, map_addReference fun _ _ => rfl]
    split_ifs
    · exact ih hfound
    · refine List.pairwise_append.2 ⟨ih hfound, List.pairwise_singleton .., fun line hline => ?_⟩
      obtain ⟨d, hd, rfl⟩ := List.mem_map.1 hline
      obtain ⟨first, more, hfilter, -, heq, -⟩ := gathers_of_mem_collect hd
      have hfirst : first ∈ found := List.mem_of_mem_filter (hfilter ▸ List.mem_cons_self)
      rw [heq, List.forall_mem_singleton]
      exact hlast first hfirst f List.mem_cons_self

/-! ### The description -/

/-- The warning about a reference says which capsule misses which, and where. -/
structure Warns (consumer : CapsuleId) (d : Dependency) (w : Diagnostic) : Prop where
  severity : w.severity = .warning
  kind : w.kind = .missingDependency
  affected : w.affected = [consumer.text, d.capsule.text]
  message : w.message =
    "capsule \"" ++ consumer.text ++ "\" references unknown capsule \"" ++ d.capsule.text ++ "\" (" ++
      d.modulePath ++ " line " ++ toString d.line ++ ")"

/-- What the extraction of a source holds. -/
structure Describes (rule : ReferenceRule) (known : CapsuleId → Bool) (consumer : CapsuleId) (source : String)
    (e : Extraction) : Prop where
  nodup : e.ids.Nodup
  mem_ids : ∀ id, id ∈ e.ids ↔ ∃ f ∈ numberedReferences rule source, f.2.capsule = id
  ordered : e.references.Pairwise (·.line < ·.line)
  gathers : ∀ d ∈ e.references, Gathers (numberedReferences rule source) d
  locals : ∀ d ∈ e.references, ∀ name, name ∈ d.bindings.locals ↔
    ∃ f ∈ numberedReferences rule source, f.2.capsule = d.capsule ∧ name ∈ f.2.bindings.locals
  warned : List.Forall₂ (Warns consumer) (e.references.filter (!known ·.capsule)) e.diagnostics

theorem warns_iff {d : Dependency} {w : Diagnostic} : Warns consumer d w ↔ missing consumer d = w := by
  constructor
  · rintro ⟨hseverity, hkind, haffected, hmessage⟩
    obtain ⟨severity, kind, message, affected⟩ := w
    cases hseverity
    cases hkind
    cases haffected
    cases hmessage
    rfl
  · rintro rfl
    exact ⟨rfl, rfl, rfl, rfl⟩

theorem forall₂_warns_iff {ds : List Dependency} {ws : List Diagnostic} :
    List.Forall₂ (Warns consumer) ds ws ↔ ds.map (missing consumer) = ws := by
  have heq : Warns consumer = fun d w => missing consumer d = w := funext₂ fun _ _ => propext warns_iff
  rw [heq, ← List.forall₂_map_left_iff (f := missing consumer) (R := (· = ·)), List.forall₂_eq_eq_eq]

theorem describes_ofSource (rule : ReferenceRule) (known : CapsuleId → Bool) (consumer : CapsuleId) (source : String) :
    Describes rule known consumer source (ofSource rule known consumer source) := by
  have hreferences := references_ofSource rule known consumer source
  have hgathers : ∀ d ∈ (ofSource rule known consumer source).references,
      Gathers (numberedReferences rule source) d := fun d hd => gathers_of_mem_collect (hreferences ▸ hd)
  have hmap : (numberedReferences rule source).map (·.2) = lineReferences rule source := by
    rw [numberedReferences, ← referenceLines_eq, map_snd_referenceLines]
    rfl
  refine ⟨nodup_ids .., fun id => ?_, ?_, hgathers, fun d hd name => ?_, forall₂_warns_iff.2 rfl⟩
  · rw [ids_ofSource, List.mem_eraseDups, ← hmap, List.map_map, List.mem_map]
    rfl
  · rw [hreferences]
    exact pairwise_collect (pairwise_numberedReferences rule source)
  · rw [mem_locals_iff hd, ← hmap]
    simp only [List.mem_map, exists_exists_and_eq_and]

theorem Gathers.unique {found : List (Nat × Reference)} {d d' : Dependency} (h : Gathers found d)
    (h' : Gathers found d') (hcapsule : d.capsule = d'.capsule) : d = d' := by
  obtain ⟨first, more, hfilter, hpath, hline, hbindings⟩ := h
  obtain ⟨first', more', hfilter', hpath', hline', hbindings'⟩ := h'
  rw [hcapsule, hfilter'] at hfilter
  obtain ⟨rfl, rfl⟩ := List.cons.inj hfilter
  obtain ⟨capsule, modulePath, bindings, line⟩ := d
  obtain ⟨capsule', modulePath', bindings', line'⟩ := d'
  simp_all

theorem Describes.subset {e e' : Extraction} (h : Describes rule known consumer source e)
    (h' : Describes rule known consumer source e') : e.references ⊆ e'.references := by
  intro d hd
  have hid : d.capsule ∈ e.ids := List.mem_map_of_mem hd
  rw [h.mem_ids, ← h'.mem_ids] at hid
  obtain ⟨d', hd', hcapsule⟩ := List.mem_map.1 hid
  exact (h'.gathers d' hd').unique (h.gathers d hd) hcapsule ▸ hd'

theorem Describes.references_eq {e e' : Extraction} (h : Describes rule known consumer source e)
    (h' : Describes rule known consumer source e') : e.references = e'.references := by
  have hirrefl : Std.Irrefl fun d d' : Dependency => d.line < d'.line := ⟨fun _ => Nat.lt_irrefl _⟩
  have hantisymm : Std.Antisymm fun d d' : Dependency => d.line < d'.line :=
    ⟨fun _ _ hlt hgt => absurd hgt (Nat.lt_asymm hlt)⟩
  exact h.ordered.eq_of_mem_iff h'.ordered fun d => ⟨fun hd => h.subset h' hd, fun hd => h'.subset h hd⟩

/-- **References of a source.**  The extraction of a source has one reference for each capsule that a line names, in the
order in which they are named first.  A reference has the number and the path of the first line that names its capsule,
and its bindings are those of all these lines, taken together from the left, so that it binds what one of them binds.
There is one warning for each reference to an unknown capsule, in the same order.  All this leaves no choice. -/
theorem describes_iff {e : Extraction} :
    Describes rule known consumer source e ↔ e = ofSource rule known consumer source := by
  constructor
  · intro h
    have hsource := describes_ofSource rule known consumer source
    have hreferences := h.references_eq hsource
    have hdiagnostics : e.diagnostics = (ofSource rule known consumer source).diagnostics := by
      rw [← forall₂_warns_iff.1 h.warned, ← forall₂_warns_iff.1 hsource.warned, hreferences]
    obtain ⟨references, diagnostics⟩ := e
    exact congrArg₂ mk hreferences hdiagnostics
  · rintro rfl
    exact describes_ofSource ..

/-- Two lines name one capsule, in two spellings, and a line between them names another. -/
example : (ofSource (.ofPrefixes ["~/"]) (fun _ => true) ⟨"page"⟩ ("// parts\nimport Tile from '~/MoonTile.tsx'\n" ++
      "import Sun from '~/sky/sun'\nimport \x7b Moon \x7d from '~/moon_tile'")).references =
    [⟨⟨"moon-tile"⟩, "~/MoonTile.tsx", ⟨some "Tile", [], [⟨"Moon", "Moon"⟩]⟩, 2⟩,
      ⟨⟨"sun"⟩, "~/sky/sun", ⟨some "Sun", [], []⟩, 3⟩] := by decide +kernel

end Extraction

/-! ### Capsules without a name -/

namespace Reference

/-- The segment has a letter or a digit. -/
def Worded (r : Reference) : Prop := r.segment.toList.any Char.isAlphanum

instance (r : Reference) : Decidable r.Worded := inferInstanceAs (Decidable (_ = true))

variable {r : Reference}

theorem isCanonical_capsule_iff : r.capsule.isCanonical ↔ r.Worded := CapsuleId.isCanonical_ofSegment_iff

theorem capsule_eq_unnamed_iff : r.capsule = .unnamed ↔ ¬r.Worded := by
  rw [← isCanonical_capsule_iff]
  constructor
  · intro h
    rw [h]
    decide
  · exact (CapsuleId.isCanonical_ofSegment r.segment).resolve_left

end Reference

namespace Extraction

/-- **Capsules of references.**  A reference is of a canonical capsule or of the one without a name.  All of them are of
canonical capsules exactly if each line that makes a reference has a letter or a digit in its segment.  The lines
without one are all taken for the same capsule, and one reference takes their bindings together. -/
theorem canonical_references_iff (rule : ReferenceRule) (known : CapsuleId → Bool) (consumer : CapsuleId)
    (source : String) :
    (∀ d ∈ (ofSource rule known consumer source).references, d.capsule.isCanonical ∨ d.capsule = .unnamed) ∧
      ((∀ d ∈ (ofSource rule known consumer source).references, d.capsule.isCanonical) ↔
        ∀ r ∈ lineReferences rule source, r.Worded) ∧
      ∀ d ∈ (ofSource rule known consumer source).references, d.capsule = .unnamed →
        ∃ first more, (lineReferences rule source).filter (¬·.Worded) = first :: more ∧
          d.bindings = more.foldl (fun b r => b.merge r.bindings) first.bindings := by
  refine ⟨fun d hd => ?_, ⟨fun h r hr => ?_, fun h d hd => ?_⟩, fun d hd hunnamed => ?_⟩
  · obtain ⟨r, -, hcapsule⟩ := exists_line_of_mem_references hd
    exact hcapsule ▸ CapsuleId.isCanonical_ofSegment r.segment
  · obtain ⟨d, hd, hcapsule⟩ := exists_mem_references_of_line hr
    exact Reference.isCanonical_capsule_iff.1 (hcapsule ▸ h d hd)
  · obtain ⟨r, hr, hcapsule⟩ := exists_line_of_mem_references hd
    exact hcapsule ▸ Reference.isCanonical_capsule_iff.2 (h r hr)
  · obtain ⟨first, more, hfilter, hbindings⟩ := bindings_of_mem_references hd
    refine ⟨first, more, ?_, hbindings⟩
    rw [← hfilter, hunnamed]
    exact List.filter_congr fun r _ => decide_eq_decide.2 Reference.capsule_eq_unnamed_iff.symm

/-- A line that imports from a path in another script, and one from a path of marks only. -/
def wordlessSource : String := "import Sun from './components/\u65e5'\nimport Line from './components/___.tsx'"

/-- Both segments lose all their characters, so one reference, to the capsule without a name, has the names of both. -/
theorem unnamed_reference :
    (ofSource (.ofPrefixes CompilerConfig.standardPrefixes) (fun _ => true) ⟨"card"⟩ wordlessSource).references =
      [⟨.unnamed, "./components/\u65e5", ⟨some "Sun", ["Line"], []⟩, 1⟩] ∧
    ¬∀ d ∈ (ofSource (.ofPrefixes CompilerConfig.standardPrefixes) (fun _ => true) ⟨"card"⟩ wordlessSource).references,
      d.capsule.isCanonical := by
  have hreferences :
      (ofSource (.ofPrefixes CompilerConfig.standardPrefixes) (fun _ => true) ⟨"card"⟩ wordlessSource).references =
        [⟨.unnamed, "./components/\u65e5", ⟨some "Sun", ["Line"], []⟩, 1⟩] := by decide +kernel
  refine ⟨hreferences, fun h => ?_⟩
  rw [hreferences] at h
  exact absurd (h _ List.mem_cons_self) (by decide)

end Extraction

end CapsuleCompiler
