import CapsuleCompiler.Export
import CapsuleCompiler.Proofs.Text.Lines

/-!
# Proofs.File.Downward — paths that only lead downwards, and writing below a folder

A path of names with single slashes between them is cut into these names again, so it is contained wherever it starts.
Writing refuses a dictionary of files only for a path that is not contained, and otherwise goes through all of them:
what fails then is a folder that cannot be made or a file that cannot be written.
-/

namespace CapsuleCompiler

namespace Path

/-- A step of a path that names a file or a folder. -/
structure IsName (step : String) : Prop where
  nonempty : step ≠ ""
  notHere : step ≠ "."
  notAbove : step ≠ ".."
  oneStep : '/' ∉ step.toList

/-- A relative path each of whose steps is a name. -/
def Downward (path : String) : Prop :=
  ∃ steps, steps ≠ [] ∧ (∀ step ∈ steps, IsName step) ∧ path = "/".intercalate steps

theorem isName_iff {step : String} : IsName step ↔ step ≠ "" ∧ step ≠ "." ∧ step ≠ ".." ∧ '/' ∉ step.toList :=
  ⟨fun h => ⟨h.nonempty, h.notHere, h.notAbove, h.oneStep⟩, fun ⟨h, hdot, hdots, hslash⟩ => ⟨h, hdot, hdots, hslash⟩⟩

instance (step : String) : Decidable (IsName step) := decidable_of_iff' _ isName_iff

theorem segments_intercalate {steps : List String} (hne : steps ≠ []) (h : ∀ step ∈ steps, '/' ∉ step.toList) :
    segments ("/".intercalate steps) = steps := by
  induction steps with
  | nil => exact absurd rfl hne
  | cons step steps ih =>
    have hstep := h step List.mem_cons_self
    cases steps with
    | nil =>
      obtain ⟨piece, pieces, hrest, hsplit⟩ := Text.splitOn_append hstep []
      cases hrest
      rw [List.append_nil] at hsplit
      simp [segments, hsplit]
    | cons next steps =>
      have ih := ih (List.cons_ne_nil _ _) fun s hs => h s (List.mem_cons_of_mem _ hs)
      unfold segments at ih ⊢
      have hslash : ("/" : String).toList = ['/'] := rfl
      rw [String.intercalate_cons_cons, String.toList_append, String.toList_append, hslash, List.append_assoc,
        List.singleton_append, Text.splitOn_append_cons hstep, List.map_cons, String.ofList_toList, ih]

theorem Downward.isContained {path : String} (h : Downward path) : isContained path := by
  obtain ⟨steps, hne, hnames, rfl⟩ := h
  have hsegments := segments_intercalate hne fun step hstep => (hnames step hstep).oneStep
  obtain ⟨first, rest, rfl⟩ := List.exists_cons_of_ne_nil hne
  have hfirst := hnames first List.mem_cons_self
  have hrelative : isAbsolute ("/".intercalate (first :: rest)) = false := by
    obtain ⟨c, cs, hcs⟩ := List.exists_cons_of_ne_nil (mt String.toList_eq_nil_iff.1 hfirst.nonempty)
    have hc : c ≠ '/' := fun hc => hfirst.oneStep (by simp [hcs, hc])
    simp [isAbsolute, hcs, hc]
  simp only [Path.isContained, hrelative, hsegments, Bool.not_false, Bool.true_and, Bool.and_eq_true, List.all_eq_true,
    bne_iff_ne, ne_eq, List.head?_cons, Option.some.injEq]
  exact ⟨hfirst.notHere, fun step hstep => (hnames step hstep).notAbove⟩

/-- A text without a slash becomes a name with the ending of a source file. -/
theorem isName_sourceFile {stem : String} (h : '/' ∉ stem.toList) : IsName (stem ++ ".tsx") := by
  have hlength : (stem ++ ".tsx").length = stem.length + 4 := by rw [String.length_append]; rfl
  have hshort (step : String) (hstep : step.length < 4) : stem ++ ".tsx" ≠ step := by
    intro heq
    rw [heq] at hlength
    omega
  refine ⟨hshort "" (by decide), hshort "." (by decide), hshort ".." (by decide), ?_⟩
  rw [String.toList_append, List.mem_append, not_or]
  exact ⟨h, by decide⟩

/-- A source file below named folders. -/
theorem downward_sourceFile {folders : List String} {stem : String} (hfolders : ∀ folder ∈ folders, IsName folder)
    (h : '/' ∉ stem.toList) : Downward ("/".intercalate (folders ++ [stem ++ ".tsx"])) := by
  refine ⟨folders ++ [stem ++ ".tsx"], by simp, ?_, rfl⟩
  intro step hstep
  rcases List.mem_append.1 hstep with hfolder | hfile
  · exact hfolders step hfolder
  · rw [List.mem_singleton.1 hfile]
    exact isName_sourceFile h

end Path

/-! ### Writing -/

namespace Export

variable {files : Dict String}

theorem escaping?_eq_none_iff : escaping? files = none ↔ ∀ path ∈ files.keys, Path.isContained path := by
  simp [escaping?]

/-- A step of writing that never refuses a path, whatever it works on. -/
def Accepts {σ α : Type} (x : ExceptT ExportFault (StateM σ) α) : Prop :=
  ∀ t path, (x.run.run t).1 ≠ .error (.escaping path)

variable {σ α β : Type} (access : FileAccess (StateM σ))

theorem accepts_pure (a : α) : Accepts (pure a : ExceptT ExportFault (StateM σ) α) := by
  intro t path h
  cases h

theorem accepts_lift (x : StateM σ α) : Accepts (liftM x : ExceptT ExportFault (StateM σ) α) := by
  intro t path h
  cases h

theorem accepts_throw {fault : ExportFault} (h : ∀ path, fault ≠ .escaping path) :
    Accepts (throw fault : ExceptT ExportFault (StateM σ) α) := by
  intro t path heq
  exact h path (Except.error.inj heq)

theorem run_bind (x : ExceptT ExportFault (StateM σ) α) (f : α → ExceptT ExportFault (StateM σ) β) (t : σ) :
    (x >>= f).run.run t = match x.run.run t with
      | (.ok a, t') => (f a).run.run t'
      | (.error fault, t') => (.error fault, t') := by
  have hcont : (x >>= f).run.run t = (ExceptT.bindCont f (x.run.run t).1).run (x.run.run t).2 := rfl
  rw [hcont]
  cases x.run.run t with
  | mk outcome t' => cases outcome <;> rfl

theorem Accepts.bind {x : ExceptT ExportFault (StateM σ) α} {f : α → ExceptT ExportFault (StateM σ) β}
    (hx : Accepts x) (hf : ∀ a, Accepts (f a)) : Accepts (x >>= f) := by
  intro t path h
  have hx := hx t path
  rw [run_bind] at h
  split at h
  · exact hf _ _ path h
  · next heq =>
    rw [heq] at hx
    cases h
    exact hx rfl

theorem accepts_createParent (path : String) : Accepts (createParent access path) := by
  unfold createParent
  split
  · exact accepts_pure _
  · refine (accepts_lift _).bind fun made => ?_
    cases made with
    | ok => exact accepts_pure _
    | error => exact accepts_throw (by simp)

theorem accepts_writeFile (path text : String) : Accepts (writeFile access path text) := by
  refine (accepts_createParent access path).bind fun _ => (accepts_lift _).bind fun written => ?_
  cases written with
  | ok => exact accepts_pure _
  | error => exact accepts_throw (by simp)

theorem accepts_writeAll (folder : String) (es : List (String × String)) : Accepts (writeAll access folder es) := by
  induction es with
  | nil => exact accepts_pure _
  | cons e es ih => exact (accepts_writeFile access _ e.2).bind fun _ => ih

/-- Where all paths are contained nothing is refused. -/
theorem accepts_writeFiles (folder : String) (h : ∀ path ∈ files.keys, Path.isContained path) :
    Accepts (writeFiles access folder files) := by
  rw [writeFiles, escaping?_eq_none_iff.2 h]
  exact (accepts_writeAll access folder files.entries).bind fun _ => accepts_pure _

end Export

end CapsuleCompiler
