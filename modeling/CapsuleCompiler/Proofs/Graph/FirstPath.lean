import CapsuleCompiler.Proofs.Graph.DepthFirst

/-!
# Proofs.Graph.FirstPath — the path on which a depth-first search comes to a capsule

A path is read from its inner end.  The first path to a capsule takes at each place the first choice from which the
capsule can still be reached without going back to the path; it is said without a search, and there is one at most
(`FirstPath.unique`).

`Guided` is what the frames of a search know about the choices they have behind them: past the path, no choice that a
frame has passed leads to a capsule that the search meets later, be it on the path inside that frame or not met yet.
So the path of a search is the first path to its innermost capsule (`Guided.leadsTo`).  Leaving a capsule turns what
was passed inside it into one more choice that the frame around it has passed.
-/

namespace CapsuleCompiler.DependencyGraph

open Relation

variable {g : DependencyGraph} {roots targets entered before fresh : List CapsuleId} {frames : List Frame}
  {id next target : CapsuleId} {rest : List CapsuleId}

/-! ### Walks past a path -/

/-- A walk leads from `a` to `b` that meets none of the avoided capsules. -/
def ReachesPast (g : DependencyGraph) (avoided : List CapsuleId) (a b : CapsuleId) : Prop :=
  a ∉ avoided ∧ ReflTransGen (fun x y => g.Refers x y ∧ y ∉ avoided) a b

/-- Where a path can go on, in the order in which a search tries it. -/
def choices (g : DependencyGraph) : List CapsuleId → List CapsuleId
  | [] => g.nodes
  | id :: _ => g.successors id

/-- What leads out of a capsule past a path leads on from one of its references, past the capsule too. -/
theorem ReachesPast.exists_choice {a b : CapsuleId} (h : g.ReachesPast before a b) (hne : a ≠ b) :
    ∃ c ∈ g.choices (a :: before), g.ReachesPast (a :: before) c b := by
  obtain ⟨ha, hwalk⟩ := h
  induction hwalk with
  | refl => exact absurd rfl hne
  | @tail c d hac hcd ih =>
    have hd : d ∉ a :: before := by simp [hcd.2, hne.symm]
    by_cases hc : a = c
    · subst hc
      exact ⟨d, by simpa [choices] using hcd.1, hd, .refl⟩
    · obtain ⟨e, he, hout, hwalk⟩ := ih hc
      exact ⟨e, he, hout, hwalk.tail ⟨hcd.1, hd⟩⟩

/-! ### First paths -/

/-- Every step of a path is the first choice from which the target can be reached past the steps before it. -/
inductive LeadsTo (g : DependencyGraph) (target : CapsuleId) : List CapsuleId → Prop
  | nil : LeadsTo g target []
  | step {before passed others : List CapsuleId} {id : CapsuleId} (leads : LeadsTo g target before)
      (choice : g.choices before = passed ++ id :: others)
      (first : ∀ c ∈ passed, ¬ g.ReachesPast before c target) (new : id ∉ before) :
      LeadsTo g target (id :: before)

/-- The path leads to its innermost capsule. -/
def FirstPath (g : DependencyGraph) : List CapsuleId → Prop
  | [] => False
  | id :: before => g.LeadsTo id (id :: before)

namespace LeadsTo

theorem nodup {path : List CapsuleId} (h : g.LeadsTo target path) : path.Nodup := by
  induction h with
  | nil => exact .nil
  | step _ _ _ hnew ih => exact List.nodup_cons.2 ⟨hnew, ih⟩

theorem of_append {inner outer : List CapsuleId} (h : g.LeadsTo target (inner ++ outer)) : g.LeadsTo target outer := by
  induction inner with
  | nil => exact h
  | cons id inner ih =>
    cases h with
    | step leads => exact ih leads

/-- A path is a walk past whatever lies before it. -/
theorem reachesPast {inner : List CapsuleId} (h : g.LeadsTo target (inner ++ id :: before)) {a : CapsuleId}
    (ha : a ∈ (inner ++ [id]).head?) : g.ReachesPast before id a := by
  induction inner generalizing a with
  | nil =>
    cases h with
    | step _ _ _ hnew =>
      simp only [List.nil_append, List.head?_cons, Option.mem_def, Option.some.injEq] at ha
      subst ha
      exact ⟨hnew, .refl⟩
  | cons b inner ih =>
    simp only [List.cons_append, List.head?_cons, Option.mem_def, Option.some.injEq] at ha
    subst ha
    cases h with
    | @step _ passed others _ leads hchoice hfirst hnew =>
      obtain ⟨c, hc⟩ : ∃ c, c ∈ (inner ++ [id]).head? := by cases inner <;> simp
      have hout : b ∉ before := fun hb => hnew (by simp [hb])
      have hcb : g.Refers c b := by
        have hb : b ∈ g.choices (inner ++ id :: before) := hchoice ▸ by simp
        cases inner <;> simp_all [choices]
      obtain ⟨hid, hwalk⟩ := ih leads hc
      exact ⟨hid, hwalk.tail ⟨hcb, hout⟩⟩

/-- Two paths to one capsule never part: what stands in the way of either choice reaches the capsule. -/
theorem suffix_or_suffix {p q : List CapsuleId} (hp : g.LeadsTo target (target :: p))
    (hq : g.LeadsTo target (target :: q)) {outer : List CapsuleId} (houter : outer <:+ target :: p) :
    outer <:+ target :: q ∨ target :: q <:+ outer := by
  induction outer with
  | nil => exact .inl (List.nil_suffix ..)
  | cons b outer ih =>
    obtain ⟨inner, hinner⟩ := houter
    have hsuffix : outer <:+ target :: p := ⟨inner ++ [b], by simp [hinner]⟩
    rcases ih hsuffix with ⟨more, hmore⟩ | hshort
    · rcases List.eq_nil_or_concat more with rfl | ⟨more, z, rfl⟩
      · exact .inr ⟨[b], by simp [← hmore]⟩
      · have hmore : more ++ z :: outer = target :: q := by simpa using hmore
        have hb : g.ReachesPast outer b target := (hinner ▸ hp).reachesPast (by cases inner <;> simp_all)
        have hz : g.ReachesPast outer z target := (hmore ▸ hq).reachesPast (by cases more <;> simp_all)
        have hleadsb : g.LeadsTo target (b :: outer) := (hinner ▸ hp).of_append
        have hleadsz : g.LeadsTo target (z :: outer) := (hmore ▸ hq).of_append
        have heq : b = z := by
          cases hleadsb with
          | step _ hchoiceb hfirstb =>
            cases hleadsz with
            | step _ hchoicez hfirstz =>
              rcases List.append_eq_append_iff.1 (hchoiceb.symm.trans hchoicez) with ⟨d, hd, htail⟩ | ⟨d, hd, htail⟩
              · cases d with
                | nil => simpa using (List.cons_eq_cons.1 htail).1
                | cons c d =>
                  obtain ⟨rfl, -⟩ := List.cons_eq_cons.1 htail
                  exact absurd hb (hfirstz b (by simp [hd]))
              · cases d with
                | nil => simpa using (List.cons_eq_cons.1 htail).1.symm
                | cons c d =>
                  obtain ⟨rfl, -⟩ := List.cons_eq_cons.1 htail
                  exact absurd hz (hfirstb z (by simp [hd]))
        exact .inl ⟨more, by rw [heq, hmore]⟩
    · exact .inr (hshort.trans (List.suffix_cons ..))

end LeadsTo

/-- There is one first path to a capsule at most. -/
theorem FirstPath.unique {p q : List CapsuleId} (hp : g.FirstPath (id :: p)) (hq : g.FirstPath (id :: q)) : p = q := by
  have hnp : id ∉ p := (List.nodup_cons.1 hp.nodup).1
  have hnq : id ∉ q := (List.nodup_cons.1 hq.nodup).1
  rcases hp.suffix_or_suffix hq (List.suffix_refl _) with h | h
  · rcases List.suffix_cons_iff.1 h with heq | h
    · exact (List.cons_eq_cons.1 heq).2
    · exact absurd (h.subset List.mem_cons_self) hnq
  · rcases List.suffix_cons_iff.1 h with heq | h
    · exact (List.cons_eq_cons.1 heq).2.symm
    · exact absurd (h.subset List.mem_cons_self) hnp

/-! ### What the frames have passed -/

/-- None of the targets can be reached past the path from a choice that is no longer pending. -/
def Passed (g : DependencyGraph) (before pending targets : List CapsuleId) : Prop :=
  ∃ passed, g.choices before = passed ++ pending ∧ ∀ c ∈ passed, ∀ v ∈ targets, ¬ g.ReachesPast before c v

/-- Frame by frame from the inside: the choice that was entered is not passed yet, and the capsules inside a frame are
targets for the frames around it.  The roots to come are the choices that are pending around all frames. -/
def Guided (g : DependencyGraph) (roots : List CapsuleId) : List CapsuleId → List CapsuleId → List Frame → Prop
  | targets, entered, [] => g.Passed [] (entered ++ roots) targets
  | targets, entered, (id, rest) :: frames =>
    g.Passed (id :: path frames) (entered ++ rest) targets ∧ Guided g roots (id :: targets) [id] frames

theorem Passed.mono {pending fewer : List CapsuleId} (h : g.Passed before pending targets) (hsub : fewer ⊆ targets) :
    g.Passed before pending fewer := by
  obtain ⟨passed, hchoice, hpassed⟩ := h
  exact ⟨passed, hchoice, fun c hc v hv => hpassed c hc v (hsub hv)⟩

/-- One more choice is passed. -/
theorem Passed.pass {pending : List CapsuleId} (h : g.Passed before (next :: pending) targets)
    (hnext : ∀ v ∈ targets, ¬ g.ReachesPast before next v) : g.Passed before pending targets := by
  obtain ⟨passed, hchoice, hpassed⟩ := h
  refine ⟨passed ++ [next], by simp [hchoice], fun c hc => ?_⟩
  rcases List.mem_append.1 hc with hc | hc
  · exact hpassed c hc
  · rw [List.mem_singleton.1 hc]
    exact hnext

/-- When all choices of a capsule are passed, so is the capsule. -/
theorem Passed.not_reachesPast (h : g.Passed (id :: before) [] targets) (hid : id ∉ targets) :
    ∀ v ∈ targets, ¬ g.ReachesPast before id v := by
  intro v hv hreach
  obtain ⟨passed, hchoice, hpassed⟩ := h
  obtain ⟨c, hc, hreach⟩ := hreach.exists_choice fun heq => hid (heq ▸ hv)
  exact hpassed c (by simpa [hchoice] using hc) v hv hreach

namespace Guided

theorem mono {fewer : List CapsuleId} (h : Guided g roots targets entered frames) (hsub : fewer ⊆ targets) :
    Guided g roots fewer entered frames := by
  induction frames generalizing targets fewer entered with
  | nil => exact Passed.mono h hsub
  | cons f frames ih =>
    obtain ⟨hpassed, hframes⟩ := h
    exact ⟨hpassed.mono hsub, ih hframes (List.cons_subset_cons _ hsub)⟩

/-- The path of the frames is the first one to every target. -/
theorem leadsTo (h : Guided g roots targets [id] frames) (hnd : (id :: path frames).Nodup)
    (htarget : target ∈ targets) : g.LeadsTo target (id :: path frames) := by
  induction frames generalizing id targets with
  | nil =>
    obtain ⟨passed, hchoice, hpassed⟩ := h
    exact .step .nil hchoice (fun c hc => hpassed c hc target htarget) List.not_mem_nil
  | cons f frames ih =>
    obtain ⟨hid, hnd⟩ := List.nodup_cons.1 hnd
    obtain ⟨⟨passed, hchoice, hpassed⟩, hframes⟩ := h
    have houter : g.LeadsTo target (f.1 :: path frames) := ih hframes hnd (List.mem_cons_of_mem _ htarget)
    exact .step houter hchoice (fun c hc => hpassed c hc target htarget) hid

/-! ### Steps of a search -/

theorem start (g : DependencyGraph) : Guided g g.nodes targets [] [] := ⟨[], rfl, by simp⟩

/-- The choice at the inner end of the path is passed. -/
theorem pass (h : Guided g roots targets [next] frames)
    (hnext : ∀ v ∈ targets, ¬ g.ReachesPast (path frames) next v) : Guided g roots targets [] frames := by
  cases frames with
  | nil => exact Passed.pass h hnext
  | cons f frames => exact ⟨Passed.pass h.1 hnext, h.2⟩

theorem leave (h : Guided g roots fresh [] ((id, []) :: frames)) (hid : id ∉ fresh) : Guided g roots fresh [] frames :=
  (h.2.mono (List.subset_cons_self ..)).pass (Passed.not_reachesPast h.1 hid)

theorem enter (h : Guided g roots fresh [next] frames) (hnext : next ∈ fresh) :
    Guided g roots (fresh.erase next) [] ((next, g.successors next) :: frames) := by
  refine ⟨⟨[], rfl, by simp⟩, h.mono fun v hv => ?_⟩
  rcases List.mem_cons.1 hv with rfl | hv
  · exact hnext
  · exact List.mem_of_mem_erase hv

end Guided

end CapsuleCompiler.DependencyGraph
