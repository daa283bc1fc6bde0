import CapsuleCompiler.File.Tree
import CapsuleCompiler.Proofs.File.Downward
import Mathlib.Data.List.Induction

/-!
# Proofs.File.Components — what a path is made of

The components of a path are the root or the dot that it begins with, and its steps, each of which is a name or leads
back to the folder above.  A path is contained exactly if all its components are names (`isContained_iff`).  Joined to a
folder it puts these names behind the components of the folder (`components_join`); no step leads back over one of them,
so the same holds when the steps back are taken out (`normalise_append_names`).
-/

namespace CapsuleCompiler

namespace Path

variable {path folder relative : String}

/-! ### Components -/

inductive Component
  /-- The slash in front of an absolute path. -/
  | root
  /-- The dot in front of a relative path. -/
  | here
  | above
  | name (name : String)
deriving DecidableEq

namespace Component

def IsName : Component → Prop
  | name _ => True
  | _ => False

def ofStep (step : String) : Component := if step = ".." then .above else .name step

end Component

def steps (path : String) : List String := (segments path).filter isStep

/-- The root or dot that a path begins with. -/
def opening (path : String) : List Component :=
  if isAbsolute path then [.root] else if (segments path).head? = some "." then [.here] else []

def components (path : String) : List Component := opening path ++ (steps path).map .ofStep

example : components "/out//a/./../b/" = [.root, .name "out", .name "a", .above, .name "b"] := by decide +kernel
example : components "./a/." = [.here, .name "a"] := by decide +kernel

theorem isStep_iff {segment : String} : isStep segment ↔ segment ≠ "" ∧ segment ≠ "." := by
  simp [isStep]

theorem slash_notMem_of_mem_segments {segment : String} (h : segment ∈ segments path) : '/' ∉ segment.toList := by
  obtain ⟨piece, hpiece, rfl⟩ := List.mem_map.1 h
  rw [String.toList_ofList]
  exact Text.notMem_of_mem_splitOn hpiece

theorem segments_ne_nil (path : String) : segments path ≠ [] := by
  simp [segments, Text.splitOn_ne_nil]

theorem isAbsolute_iff : isAbsolute path ↔ ∃ rest, rest ≠ [] ∧ segments path = "" :: rest := by
  unfold isAbsolute segments
  cases path.toList with
  | nil => simp [Text.splitOn]
  | cons c cs =>
    rw [Text.splitOn]
    by_cases hc : c = '/'
    · subst hc
      rw [if_pos rfl]
      refine iff_of_true rfl ⟨(Text.splitOn '/' cs).map .ofList, ?_, rfl⟩
      simp [Text.splitOn_ne_nil]
    · obtain ⟨piece, pieces, hsplit⟩ := List.exists_cons_of_ne_nil (Text.splitOn_ne_nil '/' cs)
      rw [if_neg hc, hsplit]
      simp [hc]

/-! ### Contained paths -/

theorem isContained_iff : isContained path ↔ ∀ c ∈ components path, c.IsName := by
  have hopening : (∀ c ∈ opening path, c.IsName) ↔ isAbsolute path = false ∧ (segments path).head? ≠ some "." := by
    unfold opening
    split
    · next h => simp [h, Component.IsName]
    · next h =>
      split
      · next hdot => simp [hdot, Component.IsName]
      · next hdot => simp [h, hdot]
  have hsteps : (∀ c ∈ (steps path).map .ofStep, Component.IsName c) ↔ ∀ s ∈ segments path, s ≠ ".." := by
    constructor
    · rintro h s hs rfl
      exact h _ (List.mem_map_of_mem (List.mem_filter.2 ⟨hs, by decide⟩))
    · intro h c hc
      obtain ⟨s, hs, rfl⟩ := List.mem_map.1 hc
      rw [Component.ofStep, if_neg (h s (List.mem_filter.1 hs).1)]
      trivial
  rw [components, List.forall_mem_append, hopening, hsteps, isContained]
  simp only [Bool.and_eq_true, Bool.not_eq_true', bne_iff_ne, List.all_eq_true]

theorem notAbove_of_isContained (h : isContained path) : ∀ s ∈ segments path, s ≠ ".." := by
  simp only [isContained, Bool.and_eq_true, List.all_eq_true, bne_iff_ne] at h
  exact h.2

theorem opening_of_isContained (h : isContained path) : opening path = [] := by
  simp only [isContained, Bool.and_eq_true, Bool.not_eq_true', bne_iff_ne] at h
  rw [opening, h.1.1, if_neg (by decide), if_neg h.1.2]

theorem isName_of_mem_steps (h : isContained path) {step : String} (hstep : step ∈ steps path) : IsName step := by
  obtain ⟨hsegment, hstep⟩ := List.mem_filter.1 hstep
  obtain ⟨hne, hdot⟩ := isStep_iff.1 hstep
  exact ⟨hne, hdot, notAbove_of_isContained h _ hsegment, slash_notMem_of_mem_segments hsegment⟩

theorem components_of_isContained (h : isContained path) : components path = (steps path).map .name := by
  rw [components, opening_of_isContained h, List.nil_append]
  exact List.map_congr_left fun step hstep => if_neg (isName_of_mem_steps h hstep).notAbove

/-! ### Joined paths -/

theorem segments_append_slash (a b : String) : segments (a ++ "/" ++ b) = segments a ++ segments b := by
  have hslash : ("/" : String).toList = ['/'] := rfl
  rw [segments, String.toList_append, String.toList_append, hslash, List.append_assoc, List.singleton_append,
    Text.splitOn_append_sep, List.map_append, segments, segments]

/-- The segments of a folder but for an empty one at its end, then those of the path behind it. -/
theorem exists_segments_join (folder relative : String) : ∃ front idle, segments folder = front ++ idle ∧
    (∀ s ∈ idle, s = "") ∧ (front = [] → folder = "") ∧
      segments (join folder relative) = front ++ segments relative := by
  unfold join
  by_cases hempty : folder = ""
  · subst hempty
    exact ⟨[], [""], rfl, by simp, fun _ => rfl, by simp⟩
  by_cases hslash : folder.toList.getLast? = some '/'
  · obtain ⟨front, hfront⟩ := List.getLast?_eq_some_iff.1 hslash
    have hfolder : folder = String.ofList front ++ "/" ++ "" := by
      rw [← String.toList_inj, hfront]
      simp
    refine ⟨segments (.ofList front), [""], ?_, by simp, fun h => absurd h (segments_ne_nil _), ?_⟩
    · rw [hfolder, segments_append_slash]
      rfl
    · rw [if_pos (by simp [hslash]), hfolder, String.append_empty, segments_append_slash]
  · refine ⟨segments folder, [], (List.append_nil _).symm, by simp, fun h => absurd h (segments_ne_nil _), ?_⟩
    rw [if_neg (by simp [hempty, hslash]), segments_append_slash]

theorem filter_segments_join {p : String → Bool} (hp : p "" = false) (folder relative : String) :
    (segments (join folder relative)).filter p = (segments folder).filter p ++ (segments relative).filter p := by
  obtain ⟨front, idle, hfolder, hidle, -, hjoin⟩ := exists_segments_join folder relative
  have hnone : idle.filter p = [] := List.filter_eq_nil_iff.2 fun s hs => by simp [hidle s hs, hp]
  rw [hjoin, hfolder, List.filter_append, List.filter_append, hnone, List.append_nil]

theorem isAbsolute_join (h : isContained relative) (folder : String) :
    isAbsolute (join folder relative) = isAbsolute folder := by
  by_cases hempty : folder = ""
  · subst hempty
    simp only [isContained, Bool.and_eq_true, Bool.not_eq_true'] at h
    have hnot : isAbsolute "" = false := rfl
    simpa [join, hnot] using h.1.1
  · obtain ⟨c, cs, hcs⟩ := List.exists_cons_of_ne_nil (mt String.toList_eq_nil_iff.1 hempty)
    unfold isAbsolute join
    split <;> simp [hcs]

theorem opening_join (h : isContained relative) (folder : String) :
    opening (join folder relative) = opening folder := by
  obtain ⟨front, idle, hfolder, hidle, hfront, hjoin⟩ := exists_segments_join folder relative
  cases front with
  | nil =>
    obtain rfl := hfront rfl
    have hjoin : join "" relative = relative := by simp [join]
    rw [hjoin, opening_of_isContained h]
    rfl
  | cons s ss =>
    have hhead : (segments (join folder relative)).head? = (segments folder).head? := by rw [hjoin, hfolder]; rfl
    rw [opening, opening, hhead, isAbsolute_join h]

/-- A contained path puts its names behind the components of a folder. -/
theorem components_join (h : isContained relative) (folder : String) :
    components (join folder relative) = components folder ++ (steps relative).map .name := by
  have hsteps : steps (join folder relative) = steps folder ++ steps relative := filter_segments_join (by decide) _ _
  rw [components, opening_join h, hsteps, List.map_append, ← List.append_assoc, ← components,
    ← components_of_isContained h, components, components, opening_of_isContained h, List.nil_append]

/-! ### Steps back -/

/-- A component behind others, where a step back takes the name before it away. -/
def settle (behind : List Component) : Component → List Component
  | .root => [.root]
  | .here => behind
  | .above =>
    match behind.getLast? with
    | some (.name _) => behind.dropLast
    | some .root => behind
    | _ => behind ++ [.above]
  | .name n => behind ++ [.name n]

/-- The components of a path without dots, and without the steps back that can be told from the path alone. -/
def normalise (cs : List Component) : List Component := cs.foldl settle []

example : normalise (components "./a/../../b/c/..") = [.above, .name "b"] := by decide +kernel

theorem normalise_append_names (cs : List Component) (names : List String) :
    normalise (cs ++ names.map .name) = normalise cs ++ names.map .name := by
  induction names using List.reverseRecOn with
  | nil => simp
  | append_singleton names n ih =>
    rw [List.map_append, ← List.append_assoc, ← List.append_assoc, ← ih]
    exact List.foldl_append

end Path

end CapsuleCompiler
