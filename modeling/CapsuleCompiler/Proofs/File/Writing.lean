import CapsuleCompiler.Export
import CapsuleCompiler.Proofs.File.Places

/-!
# Proofs.File.Writing — what writing files below a folder leaves behind

Files with contained paths are written to places below the place of the folder (`place_join`), in the order of their
paths, until one cannot be written.  `After` describes the tree then: the files written so far hold their texts, there
may be new folders on the way to them, and all else is as it was.  Each file keeps this (`After.write`), and so does a
fault, which the file system itself gives (`Refused`).  So files are refused before anything is done, or written below
their folder and nowhere else (`writeFiles_contained`).
-/

namespace CapsuleCompiler

namespace FileTree

variable {t t' t₁ : FileTree} {folder path relative text : String} {es done : List (String × String)}
  {made : List String → Prop} {q : List String}

/-! ### Places below a folder -/

theorem foldl_step_names {ns : List String} (h : ∀ n ∈ ns, n ≠ "..") (q : List String) :
    (ns.filter (!·.isEmpty)).foldl step q = q ++ ns.filter Path.isStep := by
  induction ns generalizing q with
  | nil => simp
  | cons n ns ih =>
    rw [List.forall_mem_cons] at h
    by_cases hempty : n = ""
    · subst hempty
      exact ih h.2 q
    · rw [List.filter_cons_of_pos (by simpa using hempty), List.foldl_cons, ih h.2, step, if_neg h.1]
      by_cases hdot : n = "."
      · subst hdot
        rfl
      · rw [if_neg hdot, List.filter_cons_of_pos (Path.isStep_iff.2 ⟨hempty, hdot⟩), List.append_assoc]
        rfl

theorem names_join (folder relative : String) : names (Path.join folder relative) = names folder ++ names relative :=
  Path.filter_segments_join rfl folder relative

theorem start_join (h : Path.isContained relative) (t : FileTree) (folder : String) :
    t.start (Path.join folder relative) = t.start folder := by
  rw [start, start, Path.isAbsolute_join h]

/-- The names of a contained path lead on from the place of the folder. -/
theorem place_join (h : Path.isContained relative) (t : FileTree) (folder : String) :
    t.place (Path.join folder relative) = t.place folder ++ Path.steps relative := by
  rw [place, start_join h, names_join, List.foldl_append]
  exact foldl_step_names (Path.notAbove_of_isContained h) _

theorem prefix_foldl_step {ns : List String} (h : ∀ n ∈ ns, n ≠ "..") (q : List String) : q <+: ns.foldl step q := by
  induction ns generalizing q with
  | nil => exact List.prefix_rfl
  | cons n ns ih =>
    rw [List.forall_mem_cons] at h
    refine List.IsPrefix.trans ?_ (ih h.2 _)
    rw [step, if_neg h.1]
    split
    · exact List.prefix_rfl
    · exact List.prefix_append _ _

/-- On the way to a file below a folder are the places on the way to the folder, and then places below it. -/
theorem onTheWay_join (h : Path.isContained relative) (hq : t.OnTheWay (Path.join folder relative) q) :
    t.OnTheWay folder q ∨ t.place folder <+: q := by
  obtain ⟨before, hfront, rfl⟩ := hq
  rw [start_join h]
  replace hfront : before <+: names folder ++ names relative :=
    names_join folder relative ▸ hfront.trans (List.dropLast_prefix _)
  rcases List.prefix_or_prefix_of_prefix hfront (List.prefix_append _ _) with ⟨more, hfolder⟩ | ⟨more, rfl⟩
  · by_cases hall : more = []
    · subst hall
      rw [List.append_nil] at hfolder
      exact .inr (hfolder ▸ List.prefix_rfl)
    · refine .inl ⟨before, ?_, rfl⟩
      rw [← hfolder, List.dropLast_append_of_ne_nil hall]
      exact List.prefix_append _ _
  · have hmore : more <+: names relative := (List.prefix_append_right_inj _).1 hfront
    rw [List.foldl_append]
    refine .inr (prefix_foldl_step (fun n hn => ?_) _)
    exact Path.notAbove_of_isContained h n (List.mem_filter.1 (hmore.subset hn)).1

/-! ### The tree after some files -/

/-- The text that is written last to a place. -/
def textAt? (t : FileTree) (folder : String) (es : List (String × String)) (q : List String) : Option String :=
  (es.reverse.find? fun e => t.place (Path.join folder e.1) == q).map (·.2)

theorem textAt?_concat (t : FileTree) (folder : String) (es : List (String × String)) (e : String × String)
    (q : List String) : t.textAt? folder (es ++ [e]) q =
      if t.place (Path.join folder e.1) = q then some e.2 else t.textAt? folder es q := by
  unfold textAt?
  rw [List.reverse_concat, List.find?_cons]
  by_cases h : t.place (Path.join folder e.1) = q
  · simp [h]
  · simp [beq_eq_false_iff_ne.2 h, h]

/-- The files of `es` have been written below a folder of `t`, and folders made at the places of `made`. -/
structure After (t : FileTree) (folder : String) (es : List (String × String)) (made : List String → Prop)
    (t' : FileTree) : Prop where
  base : t'.base = t.base
  written : ∀ q text, t.textAt? folder es q = some text → t'.entry? q = some (.file text)
  folders : ∀ q, t.textAt? folder es q = none → made q → t'.entry? q = some .folder
  others : ∀ q, t.textAt? folder es q = none → ¬made q → t'.entry? q = t.entry? q

namespace After

theorem nil (t : FileTree) (folder : String) : t.After folder [] (fun _ => False) t :=
  ⟨rfl, by simp [textAt?], by simp, fun _ _ _ => rfl⟩

/-- More folders where nothing was. -/
theorem grow {way : List String → Prop} (h : t.After folder done made t₁) (hgrown : Grown way t₁ t') :
    t.After folder done (fun q => made q ∨ t₁.entry? q = none ∧ t'.entry? q = some .folder) t' := by
  refine ⟨hgrown.base.trans h.base, fun q text htext => ?_, fun q htext hq => ?_, fun q htext hq => ?_⟩
  · have hfile := h.written q text htext
    rcases hgrown.entry q with heq | ⟨hnone, -, -⟩
    · exact heq.trans hfile
    · cases hnone.symm.trans hfile
  · rcases hq with hq | ⟨-, hfolder⟩
    · have hfolder := h.folders q htext hq
      rcases hgrown.entry q with heq | ⟨hnone, -, -⟩
      · exact heq.trans hfolder
      · cases hnone.symm.trans hfolder
    · exact hfolder
  · obtain ⟨hmade, hnot⟩ := not_or.1 hq
    rcases hgrown.entry q with heq | ⟨hnone, hfolder, -⟩
    · exact heq.trans (h.others q htext hmade)
    · exact absurd ⟨hnone, hfolder⟩ hnot

/-- One more file. -/
theorem write (h : t.After folder done made t₁) {t₂ : FileTree}
    (hgrown : Grown (t₁.OnTheWay (Path.join folder path)) t₁ t₂)
    (hwrite : t₂.write (Path.join folder path) text = .ok t') :
    t.After folder (done ++ [(path, text)]) (fun q => made q ∨ t.OnTheWay (Path.join folder path) q) t' := by
  obtain ⟨rfl, hne, hway⟩ := write_eq_ok hwrite
  have hbase := hgrown.base.trans h.base
  simp only [onTheWay_congr hbase] at hway
  have hgrow := h.grow hgrown
  rw [place_congr hbase] at hne ⊢
  refine ⟨hbase, fun q text' htext => ?_, fun q htext hq => ?_, fun q htext hq => ?_⟩
  · rw [textAt?_concat] at htext
    rw [entry?_put hne]
    split at htext
    · next heq =>
      obtain rfl : text = text' := Option.some.inj htext
      rw [if_pos heq.symm]
    · next hne' => rw [if_neg (Ne.symm hne'), hgrow.written q text' htext]
  · rw [textAt?_concat] at htext
    split at htext
    · cases htext
    · next hne' =>
      rw [entry?_put hne, if_neg (Ne.symm hne')]
      rcases hq with hq | hq
      · exact hgrow.folders q htext (.inl hq)
      · exact hway q hq
  · rw [textAt?_concat] at htext
    split at htext
    · cases htext
    · next hne' =>
      obtain ⟨hmade, hnot⟩ := not_or.1 hq
      rw [entry?_put hne, if_neg (Ne.symm hne')]
      rcases hgrown.entry q with heq | ⟨-, -, honway⟩
      · exact heq.trans (h.others q htext hmade)
      · exact absurd ((onTheWay_congr h.base).1 honway) hnot

end After

end FileTree

/-! ### Runs -/

namespace Export

variable {t t' t₁ : FileTree} {folder path text : String} {es done : List (String × String)} {made : List String → Prop}

/-- The fault is what the file system says to a file, which leaves `t'` behind. -/
inductive Refused (path text : String) (t' : FileTree) : ExportFault → Prop
  | folder {above : String} {cause : FileFault} {t₁ : FileTree} (habove : Path.parent? path = some above)
      (hcause : FileAccess.ofTree.createFolders above t₁ = (.error cause, t')) :
      Refused path text t' (.folderNotMade above cause)
  | file {cause : FileFault} (hcause : t'.write path text = .error cause) :
      Refused path text t' (.fileNotWritten path cause)

/-- How writing one file ends. -/
inductive FileOutcome (t : FileTree) (path text : String) : Except ExportFault Unit × FileTree → Prop
  | refused {fault : ExportFault} {t' : FileTree} (hgrown : t.Grown (t.OnTheWay path) t')
      (hfault : Refused path text t' fault) : FileOutcome t path text (.error fault, t')
  | written {t₁ t' : FileTree} (hgrown : t.Grown (t.OnTheWay path) t₁) (hwrite : t₁.write path text = .ok t') :
      FileOutcome t path text (.ok (), t')

theorem run_lift {σ α : Type} (x : StateM σ α) (t : σ) :
    (liftM x : ExceptT ExportFault (StateM σ) α).run.run t = (.ok (x t).1, (x t).2) := rfl

/-- The folder above a path is there, or why not. -/
theorem run_createParent (t : FileTree) (path : String) :
    ∃ t', t.Grown (t.OnTheWay path) t' ∧
      ((createParent FileAccess.ofTree path).run.run t = (.ok (), t') ∨
        ∃ above cause, Path.parent? path = some above ∧
          FileAccess.ofTree.createFolders above t = (.error cause, t') ∧
          (createParent FileAccess.ofTree path).run.run t = (.error (.folderNotMade above cause), t')) := by
  unfold createParent
  cases hparent : Path.parent? path with
  | none => exact ⟨t, .refl _ t, .inl rfl⟩
  | some above =>
    refine ⟨_, FileTree.grown_createFolders hparent t, ?_⟩
    dsimp only
    rw [run_bind, run_lift]
    cases hmade : FileAccess.ofTree.createFolders above t with
    | mk outcome t' =>
      cases outcome with
      | ok => exact .inl rfl
      | error cause => exact .inr ⟨above, cause, rfl, hmade, rfl⟩

theorem fileOutcome_writeFile (t : FileTree) (path text : String) :
    FileOutcome t path text ((writeFile FileAccess.ofTree path text).run.run t) := by
  obtain ⟨t', hgrown, hparent | ⟨above, cause, habove, hcause, hparent⟩⟩ := run_createParent t path
  · unfold writeFile
    rw [run_bind, hparent]
    dsimp only
    rw [run_bind, run_lift]
    cases h : t'.write path text with
    | error cause =>
      have hwrite : FileAccess.ofTree.write path text t' = (.error cause, t') :=
        FileTree.attempt_of_error (·.write path text) h
      rw [hwrite]
      exact .refused hgrown (.file h)
    | ok changed =>
      have hwrite : FileAccess.ofTree.write path text t' = (.ok (), changed) :=
        FileTree.attempt_of_ok (·.write path text) h
      rw [hwrite]
      exact .written hgrown h
  · unfold writeFile
    rw [run_bind, hparent]
    exact .refused hgrown (.folder habove hcause)

/-- Where the folders stand that some files need. -/
def Needed (t : FileTree) (folder : String) (es : List (String × String)) (q : List String) : Prop :=
  ∃ e ∈ es, t.OnTheWay (Path.join folder e.1) q

theorem needed_concat (t : FileTree) (folder : String) (es : List (String × String)) (e : String × String) :
    Needed t folder (es ++ [e]) = fun q => Needed t folder es q ∨ t.OnTheWay (Path.join folder e.1) q := by
  funext q
  simp [Needed, or_and_right, exists_or]

/-- How writing files ends that began with `t`: all of them are written and `a` is the result, or all before one that is
refused. -/
inductive Outcome {α : Type} (a : α) (t : FileTree) (folder : String) (es : List (String × String)) :
    Except ExportFault α × FileTree → Prop
  | written {t' : FileTree} (h : t.After folder es (Needed t folder es) t') : Outcome a t folder es (.ok a, t')
  | refused {fault : ExportFault} {done rest : List (String × String)} {path text : String} {t' : FileTree}
      {made : List String → Prop} (hes : es = done ++ (path, text) :: rest)
      (hfault : Refused (Path.join folder path) text t' fault) (h : t.After folder done made t')
      (hmade : ∀ q, made q → Needed t folder (done ++ [(path, text)]) q) :
      Outcome a t folder es (.error fault, t')

theorem outcome_writeAll (hafter : t.After folder done (Needed t folder done) t₁) :
    Outcome () t folder (done ++ es) ((writeAll FileAccess.ofTree folder es).run.run t₁) := by
  induction es generalizing done t₁ with
  | nil =>
    rw [List.append_nil]
    exact .written hafter
  | cons e es ih =>
    obtain ⟨path, text⟩ := e
    have hfile := fileOutcome_writeFile t₁ (Path.join folder path) text
    rw [writeAll, run_bind]
    generalize (writeFile FileAccess.ofTree (Path.join folder path) text).run.run t₁ = outcome at hfile
    cases hfile with
    | refused hgrown hfault =>
      refine .refused rfl hfault (hafter.grow hgrown) fun q hq => ?_
      rw [needed_concat]
      rcases hq with hq | ⟨hnone, hfolder⟩
      · exact .inl hq
      · rcases hgrown.entry q with heq | ⟨-, -, hway⟩
        · rw [heq, hnone] at hfolder
          cases hfolder
        · exact .inr ((FileTree.onTheWay_congr hafter.base).1 hway)
    | written hgrown hwrite =>
      have hnext := hafter.write hgrown hwrite
      rw [← needed_concat t folder done (path, text)] at hnext
      rw [List.append_cons]
      exact ih hnext

variable {files : Dict String}

theorem outcome_writeFiles (h : ∀ path ∈ files.keys, Path.isContained path) (t : FileTree) (folder : String) :
    Outcome files.size t folder files.entries ((writeFiles FileAccess.ofTree folder files).run.run t) := by
  have hstart : t.After folder [] (Needed t folder []) t := by
    have hnone : Needed t folder [] = fun _ => False := by
      funext q
      simp [Needed]
    exact hnone ▸ .nil t folder
  have hall : Outcome () t folder ([] ++ files.entries) _ := outcome_writeAll hstart
  rw [List.nil_append] at hall
  rw [writeFiles, escaping?_eq_none_iff.2 h]
  dsimp only
  rw [run_bind]
  generalize (writeAll FileAccess.ofTree folder files.entries).run.run t = outcome at hall
  cases hall with
  | written h => exact .written h
  | refused hes hfault h hmade => exact .refused hes hfault h hmade

/-- **Writing below a folder.**  If a path has a component that is no name, nothing is done at all, whatever the file
system is.  If not, each file has its place below the folder, behind the components of which it has only names; all
files are written and counted, or all before one at which the file system gives a fault; and but for these files and
the folders on the way to them the tree is as it was. -/
theorem writeFiles_contained (folder : String) (files : Dict String) :
    ((∃ path ∈ files.keys, ∃ c ∈ Path.components path, ¬c.IsName) →
      ∃ path ∈ files.keys, (∃ c ∈ Path.components path, ¬c.IsName) ∧
        ∀ (m : Type → Type) [Monad m] (access : FileAccess m),
          writeFiles access folder files = throw (.escaping path)) ∧
    ((∀ path ∈ files.keys, ∀ c ∈ Path.components path, c.IsName) →
      (∀ path ∈ files.keys, ∃ names, (∀ n ∈ names, Path.IsName n) ∧
        Path.components (Path.join folder path) = Path.components folder ++ names.map .name ∧
        Path.normalise (Path.components (Path.join folder path)) =
          Path.normalise (Path.components folder) ++ names.map .name ∧
        ∀ t : FileTree, t.place (Path.join folder path) = t.place folder ++ names ∧
          ∀ q, t.OnTheWay (Path.join folder path) q → t.OnTheWay folder q ∨ t.place folder <+: q) ∧
      ∀ t : FileTree,
        Outcome files.size t folder files.entries ((writeFiles FileAccess.ofTree folder files).run.run t)) := by
  simp only [← Path.isContained_iff]
  constructor
  · rintro ⟨path, hpath, c, hc, hname⟩
    have hsome : escaping? files ≠ none := fun hnone =>
      hname (Path.isContained_iff.1 (escaping?_eq_none_iff.1 hnone path hpath) c hc)
    obtain ⟨first, hfirst⟩ := Option.ne_none_iff_exists'.1 hsome
    refine ⟨first, List.mem_of_find?_eq_some hfirst, ?_, fun m _ access => by rw [writeFiles, hfirst]⟩
    have hnot := List.find?_some hfirst
    rw [Bool.not_eq_true', Bool.eq_false_iff, Ne, Path.isContained_iff] at hnot
    simpa using hnot
  · intro h
    refine ⟨fun path hpath => ?_, fun t => outcome_writeFiles h t folder⟩
    have hcontained := h path hpath
    have hcomponents := Path.components_join hcontained folder
    refine ⟨Path.steps path, fun _ => Path.isName_of_mem_steps hcontained, hcomponents, ?_, fun t => ⟨?_, ?_⟩⟩
    · rw [hcomponents, Path.normalise_append_names]
    · exact FileTree.place_join hcontained t folder
    · exact fun q => FileTree.onTheWay_join hcontained

example :
    ((writeFiles FileAccess.ofTree "out/../dist" (.ofList [("a//b", "1"), ("a/b", "2")])).run.run ⟨[], []⟩).2.entries =
    [(["out"], .folder), (["dist"], .folder), (["dist", "a"], .folder), (["dist", "a", "b"], .file "2")] := by
  decide +kernel

end Export

end CapsuleCompiler
