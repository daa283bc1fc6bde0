import CapsuleCompiler.File.Access
import CapsuleCompiler.Proofs.Fallible
import CapsuleCompiler.Proofs.File.Components
import Mathlib.Data.List.DropRight

/-!
# Proofs.File.Places — where a path leads, and what making folders and writing do there

A path that can be followed leads to the place that its names tell (`place`), through places that are folders
(`OnTheWay`).  Making a folder and writing a file change the entry at that place and no other (`createFolder_eq_ok`,
`write_eq_ok`).  The paths above a path lead to places on its way (`onTheWay_of_mem_ancestors`), so making all folders
that a file needs only adds folders on the way to it, whether it comes to its end or not (`grown_createFolders`).
-/

namespace CapsuleCompiler

namespace FileTree

variable {t t' : FileTree} {p q : List String} {path folder relative text : String}

/-! ### Entries -/

theorem lookup_replace (p q : List String) (e : FileEntry) (es : List (List String × FileEntry)) :
    (replace p e es).lookup q = if q = p then some e else es.lookup q := by
  induction es with
  | nil =>
    by_cases h : q = p
    · simp [replace, h]
    · simp [replace, List.lookup_cons, beq_eq_false_iff_ne.2 h, h]
  | cons f es ih =>
    obtain ⟨r, f⟩ := f
    by_cases hr : r = p
    · subst hr
      rw [replace, if_pos rfl]
      by_cases h : q = r
      · simp [h]
      · simp [List.lookup_cons, beq_eq_false_iff_ne.2 h, h]
    · rw [replace, if_neg hr, List.lookup_cons, List.lookup_cons, ih]
      by_cases h : q = p
      · simp [h, beq_eq_false_iff_ne.2 (Ne.symm hr)]
      · rw [if_neg h, if_neg h]

theorem entry?_put (hp : p ≠ []) (e : FileEntry) (q : List String) :
    entry? (t.put p e) q = if q = p then some e else t.entry? q := by
  have hempty : p.isEmpty = false := by simpa using hp
  unfold entry? put
  rw [lookup_replace]
  by_cases h : q = p
  · subst h
    simp [hempty]
  · simp [h]

/-! ### Places -/

/-- The place that a path leads to if it can be followed. -/
def place (t : FileTree) (path : String) : List String := (names path).foldl step (t.start path)

/-- A place that following a path leads through before its last name. -/
def OnTheWay (t : FileTree) (path : String) (q : List String) : Prop :=
  ∃ before, before <+: (names path).dropLast ∧ q = before.foldl step (t.start path)

theorem start_congr (h : t'.base = t.base) (path : String) : t'.start path = t.start path := by
  rw [start, start, h]

theorem place_congr (h : t'.base = t.base) (path : String) : t'.place path = t.place path := by
  rw [place, place, start_congr h]

theorem onTheWay_congr (h : t'.base = t.base) : t'.OnTheWay path q ↔ t.OnTheWay path q := by
  rw [OnTheWay, OnTheWay, start_congr h]

theorem requireFolder_eq_ok : t.requireFolder p = .ok () ↔ t.entry? p = some .folder := by
  unfold requireFolder
  split <;> simp [*]

theorem walk_eq_ok {ns : List String} (h : t.walk p ns = .ok q) : q = ns.foldl step p ∧
    ∀ before, before <+: ns → before ≠ ns → t.entry? (before.foldl step p) = some .folder := by
  induction ns generalizing p with
  | nil => exact ⟨(Except.ok.inj h).symm, fun before hfront hne => absurd (List.prefix_nil.1 hfront) hne⟩
  | cons n ns ih =>
    obtain ⟨⟨⟩, hfolder, h⟩ := bind_eq_ok.1 h
    obtain ⟨⟨⟩, -, h⟩ := bind_eq_ok.1 h
    obtain ⟨hq, hbefore⟩ := ih h
    refine ⟨hq, fun before hfront hne => ?_⟩
    cases before with
    | nil => exact requireFolder_eq_ok.1 hfolder
    | cons m before =>
      obtain ⟨rfl, hrest⟩ := List.cons_prefix_cons.1 hfront
      exact hbefore before hrest fun heq => hne (congrArg _ heq)

theorem plainName?_eq_some {name? : Option String} {name : String} (h : plainName? name? = some name) :
    name? = some name ∧ name ≠ "." ∧ name ≠ ".." := by
  cases name? with
  | none => cases h
  | some n =>
    rw [plainName?] at h
    split at h
    · cases h
    · next hnot =>
      obtain rfl := Option.some.inj h
      exact ⟨rfl, not_or.1 hnot⟩

/-- What is split into a folder and a plain name leads there through folders. -/
theorem split_eq_ok {name? : Option String} {name : String} (h : t.split path = .ok (p, name?))
    (hname : plainName? name? = some name) :
    t.place path = p ++ [name] ∧ ∀ q, t.OnTheWay path q → t.entry? q = some .folder := by
  obtain ⟨rfl, hdot, hdots⟩ := plainName?_eq_some hname
  obtain ⟨⟨⟩, -, h⟩ := bind_eq_ok.1 h
  cases hlast : (names path).getLast? with
  | none =>
    rw [hlast] at h
    cases h
  | some last =>
    rw [hlast] at h
    obtain ⟨folder, hwalk, h⟩ := bind_eq_ok.1 h
    obtain ⟨⟨⟩, hfolder, h⟩ := bind_eq_ok.1 h
    obtain ⟨rfl, heq⟩ := Prod.mk.inj (Except.ok.inj h)
    obtain rfl := Option.some.inj heq
    obtain ⟨hplace, hway⟩ := walk_eq_ok hwalk
    obtain ⟨front, hnames⟩ := List.getLast?_eq_some_iff.1 hlast
    constructor
    · rw [place, hnames, List.foldl_append, hplace, hnames, List.dropLast_concat, List.foldl_cons, List.foldl_nil, step,
        if_neg hdot, if_neg hdots]
    · rintro q ⟨before, hfront, rfl⟩
      by_cases hall : before = (names path).dropLast
      · rw [hall, ← hplace]
        exact requireFolder_eq_ok.1 hfolder
      · exact hway before hfront hall

theorem createFolder_eq_ok (h : t.createFolder path = .ok t') :
    t' = t.put (t.place path) .folder ∧ t.place path ≠ [] ∧ t.entry? (t.place path) = none := by
  obtain ⟨⟨folder, name?⟩, hsplit, h⟩ := bind_eq_ok.1 h
  cases hname : plainName? name? with
  | none =>
    simp only [hname] at h
    cases h
  | some name =>
    simp only [hname] at h
    obtain ⟨⟨⟩, -, h⟩ := bind_eq_ok.1 h
    rw [(split_eq_ok hsplit hname).1]
    split at h
    · cases h
    · next hnone => exact ⟨(Except.ok.inj h).symm, by simp, hnone⟩

theorem write_eq_ok (h : t.write path text = .ok t') :
    t' = t.put (t.place path) (.file text) ∧ t.place path ≠ [] ∧
      ∀ q, t.OnTheWay path q → t.entry? q = some .folder := by
  obtain ⟨⟨folder, name?⟩, hsplit, h⟩ := bind_eq_ok.1 h
  cases hname : plainName? name? with
  | none =>
    simp only [hname] at h
    cases h
  | some name =>
    obtain ⟨hplace, hway⟩ := split_eq_ok hsplit hname
    simp only [hname] at h
    split at h
    · cases h
    · obtain ⟨⟨⟩, -, h⟩ := bind_eq_ok.1 h
      rw [hplace]
      split at h
      · cases h
      · exact ⟨(Except.ok.inj h).symm, by simp, hway⟩

/-! ### Paths above a path -/

theorem dropIdle_eq (ss : List String) : Path.dropIdle ss = ss.rdropWhile (!Path.isStep ·) := rfl

theorem prefix_dropIdle (ss : List String) : Path.dropIdle ss <+: ss := List.rdropWhile_prefix _ ss

/-- The names of the segments before the last step are not all the names. -/
theorem filter_prefix_dropLast {first : String} {rest : List String} (hne : Path.dropIdle rest ≠ []) :
    (first :: (Path.dropIdle rest).dropLast).filter (!·.isEmpty) <+:
      ((first :: rest).filter (!·.isEmpty)).dropLast := by
  have hstep : Path.isStep ((Path.dropIdle rest).getLast hne) := by
    simpa [← dropIdle_eq] using List.rdropWhile_last_not (!Path.isStep ·) rest hne
  obtain ⟨idle, hidle⟩ := prefix_dropIdle rest
  have hrest : first :: rest =
      first :: (Path.dropIdle rest).dropLast ++ (Path.dropIdle rest).getLast hne :: idle := by
    conv_lhs => rw [← hidle, ← List.dropLast_append_getLast hne]
    simp
  have hlast : ((Path.dropIdle rest).getLast hne :: idle).filter (!·.isEmpty) ≠ [] := by
    simp [(Path.isStep_iff.1 hstep).1]
  rw [hrest, List.filter_append, List.dropLast_append_of_ne_nil hlast]
  exact List.prefix_append _ _

/-- What a path is like that is put together from a first segment and others. -/
theorem names_of_segments {first above : String} {others : List String}
    (hslash : ∀ s ∈ first :: others, '/' ∉ s.toList)
    (h : (if first.isEmpty && others.isEmpty then some "/" else some ("/".intercalate (first :: others))) =
      some above) :
    names above = (first :: others).filter (!·.isEmpty) ∧ (Path.isAbsolute above = true ↔ first = "") := by
  split at h
  · next hroot =>
    obtain rfl := Option.some.inj h
    simp only [Bool.and_eq_true, String.isEmpty_iff, List.isEmpty_iff] at hroot
    rw [hroot.1, hroot.2]
    exact ⟨by decide +kernel, iff_of_true rfl rfl⟩
  · next hnot =>
    obtain rfl := Option.some.inj h
    simp only [Bool.and_eq_true, String.isEmpty_iff, List.isEmpty_iff] at hnot
    have hsegments := Path.segments_intercalate (List.cons_ne_nil _ _) hslash
    refine ⟨by rw [names, hsegments], ?_⟩
    rw [Path.isAbsolute_iff, hsegments]
    constructor
    · rintro ⟨behind, -, heq⟩
      exact (List.cons.inj heq).1
    · exact fun hfirst => ⟨_, fun hnil => hnot ⟨hfirst, hnil⟩, by rw [hfirst]⟩

/-- The path above a path starts where it does and has its names but for the last, or fewer. -/
theorem names_prefix_of_parent? {above : String} (h : Path.parent? path = some above) :
    Path.isAbsolute above = Path.isAbsolute path ∧ names above <+: (names path).dropLast := by
  obtain ⟨first, rest, hsegments⟩ := List.exists_cons_of_ne_nil (Path.segments_ne_nil path)
  have habsolute : Path.isAbsolute path = true ↔ first = "" ∧ rest ≠ [] := by
    rw [Path.isAbsolute_iff, hsegments]
    simp [and_comm]
  rw [Path.parent?, hsegments] at h
  dsimp only at h
  cases hrest : Path.dropIdle rest with
  | nil =>
    rw [hrest] at h
    by_cases hfirst : first = ""
    · simp [hfirst] at h
    · obtain rfl : "" = above := by simpa [hfirst] using h
      have hrelative : Path.isAbsolute path = false := Bool.eq_false_iff.2 fun habs => hfirst (habsolute.1 habs).1
      exact ⟨hrelative.symm, List.nil_prefix⟩
  | cons s ss =>
    have hne : Path.dropIdle rest ≠ [] := hrest ▸ List.cons_ne_nil s ss
    have hrestne : rest ≠ [] := fun hnil => hne (by rw [hnil]; rfl)
    rw [hrest] at h
    dsimp only at h
    rw [← hrest] at h
    have hfront := prefix_dropIdle (Path.dropIdle rest).dropLast
    have hslash : ∀ s ∈ first :: Path.dropIdle (Path.dropIdle rest).dropLast, '/' ∉ s.toList := by
      intro s hs
      have hsub := ((hfront.trans (List.dropLast_prefix _)).trans (prefix_dropIdle _)).subset
      have hmem : s ∈ Path.segments path := hsegments ▸ List.cons_subset_cons _ hsub hs
      exact Path.slash_notMem_of_mem_segments hmem
    obtain ⟨hnames, habs⟩ := names_of_segments hslash h
    constructor
    · rw [Bool.eq_iff_iff, habs, habsolute, and_iff_left hrestne]
    · rw [hnames, names, hsegments]
      exact (List.IsPrefix.filter _ (List.cons_prefix_cons.2 ⟨rfl, hfront⟩)).trans (filter_prefix_dropLast hne)

theorem names_prefix_of_mem_ancestors {above : String} (h : above ∈ Path.ancestors path) :
    Path.isAbsolute above = Path.isAbsolute path ∧ names above <+: names path := by
  unfold Path.ancestors at h
  generalize (Path.segments path).length + 1 = fuel at h
  induction fuel generalizing path with
  | zero => cases h
  | succ fuel ih =>
    rw [Path.ancestorsFrom] at h
    split at h
    · cases h
    · split at h
      · rw [List.mem_singleton.1 h]
        exact ⟨rfl, List.prefix_rfl⟩
      · next parent hparent =>
        rcases List.mem_cons.1 h with rfl | h
        · exact ⟨rfl, List.prefix_rfl⟩
        · obtain ⟨habs, hnames⟩ := ih h
          obtain ⟨habs', hnames'⟩ := names_prefix_of_parent? hparent
          exact ⟨habs.trans habs', hnames.trans (hnames'.trans (List.dropLast_prefix _))⟩

/-- The paths above a path lead to places on its way. -/
theorem onTheWay_of_mem_ancestors {above folder : String} (hfolder : Path.parent? path = some folder)
    (h : above ∈ Path.ancestors folder) : t.OnTheWay path (t.place above) := by
  obtain ⟨habs, hnames⟩ := names_prefix_of_parent? hfolder
  obtain ⟨habs', hnames'⟩ := names_prefix_of_mem_ancestors h
  refine ⟨names above, hnames'.trans hnames, ?_⟩
  rw [place, start, start, habs'.trans habs]

/-! ### Folders that are added -/

/-- Nothing has changed but that there are folders at some places where nothing was. -/
structure Grown (made : List String → Prop) (t t' : FileTree) : Prop where
  base : t'.base = t.base
  entry : ∀ q, t'.entry? q = t.entry? q ∨ t.entry? q = none ∧ t'.entry? q = some .folder ∧ made q

namespace Grown

variable {made made' : List String → Prop} {t₁ t₂ : FileTree}

theorem refl (made : List String → Prop) (t : FileTree) : Grown made t t := ⟨rfl, fun _ => .inl rfl⟩

theorem mono (h : Grown made t t') (hmade : ∀ q, made q → made' q) : Grown made' t t' :=
  ⟨h.base, fun q => (h.entry q).imp_right fun ⟨hnone, hfolder, hq⟩ => ⟨hnone, hfolder, hmade q hq⟩⟩

theorem trans (h : Grown made t t₁) (h' : Grown made t₁ t₂) : Grown made t t₂ := by
  refine ⟨h'.base.trans h.base, fun q => ?_⟩
  rcases h'.entry q with heq | ⟨hnone, hfolder, hq⟩
  · rw [heq]
    exact h.entry q
  · rcases h.entry q with heq | ⟨-, hfolder', -⟩
    · exact .inr ⟨heq ▸ hnone, hfolder, hq⟩
    · rw [hfolder'] at hnone
      cases hnone

end Grown

/-- What adds folders at the places of some paths, at most. -/
def Adds {α : Type} (paths : List String) (x : StateM FileTree α) : Prop :=
  ∀ t, Grown (fun q => ∃ path ∈ paths, q = t.place path) t (x t).2

section Adds

variable {α β : Type} {paths more : List String} {x : StateM FileTree α} {f : α → StateM FileTree β}

theorem adds_of_eq (h : ∀ t, (x t).2 = t) : Adds paths x := fun t => by
  rw [h]
  exact .refl _ t

theorem Adds.mono (h : Adds paths x) (hsub : paths ⊆ more) : Adds more x := fun t =>
  (h t).mono fun _ ⟨path, hpath, hq⟩ => ⟨path, hsub hpath, hq⟩

theorem Adds.bind (hx : Adds paths x) (hf : ∀ a, Adds paths (f a)) : Adds paths (x >>= f) := fun t => by
  have hrest := hf (x t).1 (x t).2
  simp only [place_congr (hx t).base] at hrest
  exact (hx t).trans hrest

theorem attempt_of_ok (change : FileTree → Except FileFault FileTree) (h : change t = .ok t') :
    FileAccess.attempt change t = (.ok (), t') := by
  rw [FileAccess.attempt, h]

theorem attempt_of_error (change : FileTree → Except FileFault FileTree) {fault : FileFault}
    (h : change t = .error fault) : FileAccess.attempt change t = (.error fault, t) := by
  rw [FileAccess.attempt, h]

theorem adds_createFolder (h : path ∈ paths) : Adds paths (FileAccess.ofTree.createFolder path) := fun t => by
  cases hmade : t.createFolder path with
  | error fault =>
    have hrun : FileAccess.ofTree.createFolder path t = (.error fault, t) :=
      attempt_of_error (·.createFolder path) hmade
    rw [hrun]
    exact .refl _ t
  | ok t' =>
    have hrun : FileAccess.ofTree.createFolder path t = (.ok (), t') :=
      attempt_of_ok (·.createFolder path) hmade
    obtain ⟨rfl, hne, hnone⟩ := createFolder_eq_ok hmade
    rw [hrun]
    refine ⟨rfl, fun q => ?_⟩
    rw [entry?_put hne]
    by_cases hq : q = t.place path
    · rw [if_pos hq]
      exact .inr ⟨hq ▸ hnone, rfl, path, h, hq⟩
    · rw [if_neg hq]
      exact .inl rfl

theorem adds_orThere (path : String) (fault : FileFault) : Adds paths (FileAccess.ofTree.orThere path fault) :=
  adds_of_eq fun t => by
    show ((if t.isFolder path then pure (.ok ()) else pure (.error fault) :
      StateM FileTree (Except FileFault Unit)) t).2 = t
    split <;> rfl

/-- Making the first of some folders makes some of them. -/
theorem adds_createChain (paths : List String) : Adds paths (FileAccess.ofTree.createChain paths) := by
  induction paths with
  | nil => exact adds_of_eq fun t => rfl
  | cons path above ih =>
    rw [FileAccess.createChain]
    refine (adds_createFolder List.mem_cons_self).bind fun made => ?_
    split
    · exact adds_of_eq fun t => rfl
    · refine (ih.mono (List.subset_cons_self _ _)).bind fun madeAbove => ?_
      split
      · exact adds_of_eq fun t => rfl
      · refine (adds_createFolder List.mem_cons_self).bind fun madeAgain => ?_
        split
        · exact adds_of_eq fun t => rfl
        · exact adds_orThere path _
    · exact adds_orThere path _

/-- Making the folder above a path adds folders on the way of the path. -/
theorem grown_createFolders {folder : String} (h : Path.parent? path = some folder) (t : FileTree) :
    Grown (t.OnTheWay path) t (FileAccess.ofTree.createFolders folder t).2 :=
  (adds_createChain (Path.ancestors folder) t).mono fun _ ⟨_, habove, hq⟩ =>
    hq ▸ onTheWay_of_mem_ancestors h habove

end Adds

end FileTree

end CapsuleCompiler
