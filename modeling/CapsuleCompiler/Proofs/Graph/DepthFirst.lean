import CapsuleCompiler.Graph.Cycles
import CapsuleCompiler.Proofs.Graph.Built

/-!
# Proofs.Graph.DepthFirst — what holds in the middle of a depth-first search

The state of a search is the capsules not met (`fresh`), those it has left (`done`, in the order in which they were
left) and the frames of the path to the current capsule, innermost first.  The innermost capsule is left first, so
`schedule done frames` is the order in which all capsules met so far are or will be left.

`Searching` says that every reference of a capsule met so far either points backwards in that schedule, or is one
that `back` excuses, or is still to follow.  Leaving a capsule does not change the schedule, and entering one only
puts it in, so the two searches over the graph keep the invariant for the same reasons and differ in `back` alone.
-/

namespace CapsuleCompiler.DependencyGraph

open Relation

variable {g : DependencyGraph} {back : CapsuleId → CapsuleId → Prop} {fresh done : List CapsuleId}
  {frames : List Frame} {id next : CapsuleId} {rest : List CapsuleId}

/-- The order in which the capsules met are left. -/
def schedule (done : List CapsuleId) (frames : List Frame) : List CapsuleId := done ++ path frames

structure Searching (g : DependencyGraph) (back : CapsuleId → CapsuleId → Prop)
    (fresh done : List CapsuleId) (frames : List Frame) : Prop where
  /-- Every capsule of the graph is in one place. -/
  perm : (fresh ++ schedule done frames).Perm g.nodes
  /-- The path is a walk, read from its outer end. -/
  linked : (path frames).IsChain fun a b => g.Refers b a
  /-- What a frame has still to follow are references of its capsule. -/
  follows : ∀ f ∈ frames, ∀ b ∈ f.2, g.Refers f.1 b
  settled : ∀ a ∈ schedule done frames, ∀ b, g.Refers a b →
    List.Sublist [b, a] (schedule done frames) ∨ back a b ∨ ∃ rest, (a, rest) ∈ frames ∧ b ∈ rest

/-! ### The path -/

@[simp] theorem path_cons (f : Frame) (frames : List Frame) : path (f :: frames) = f.1 :: path frames := rfl

theorem schedule_cons (done : List CapsuleId) (id : CapsuleId) (rest : List CapsuleId) (frames : List Frame) :
    schedule done ((id, rest) :: frames) = schedule (done ++ [id]) frames := by
  simp [schedule]

theorem mem_path_of_mem {a : CapsuleId} {rest : List CapsuleId} (h : (a, rest) ∈ frames) : a ∈ path frames :=
  List.mem_map.2 ⟨_, h, rfl⟩

theorem path_drop (above : List Frame) (id next : CapsuleId) (rest : List CapsuleId) (frames : List Frame) :
    path (above ++ (id, next :: rest) :: frames) = path (above ++ (id, rest) :: frames) := by
  simp [path]

theorem schedule_drop (done : List CapsuleId) (above : List Frame) (id next : CapsuleId)
    (rest : List CapsuleId) (frames : List Frame) :
    schedule done (above ++ (id, next :: rest) :: frames) = schedule done (above ++ (id, rest) :: frames) := by
  rw [schedule, schedule, path_drop]

/-- Every frame had all it has still to follow before the first reference was taken off one of them. -/
theorem mem_drop {above : List Frame} {f : Frame} (hf : f ∈ above ++ (id, rest) :: frames) :
    ∃ rest', (f.1, rest') ∈ above ++ (id, next :: rest) :: frames ∧ f.2.Sublist rest' := by
  rcases List.mem_append.1 hf with hf | hf
  · exact ⟨f.2, List.mem_append_left _ hf, .refl _⟩
  · rcases List.mem_cons.1 hf with rfl | hf
    · exact ⟨next :: rest, by simp, List.sublist_cons_self ..⟩
    · exact ⟨f.2, by simp [hf], .refl _⟩

/-- The schedule before and after a capsule is entered. -/
theorem schedule_sublist_enter (done : List CapsuleId) (f : Frame) (frames : List Frame) :
    List.Sublist (schedule done frames) (schedule done (f :: frames)) :=
  (List.Sublist.refl done).append (List.sublist_cons_self ..)

namespace Searching

theorem nodup (hg : g.Sound) (h : Searching g back fresh done frames) :
    (fresh ++ schedule done frames).Nodup :=
  h.perm.nodup_iff.2 hg.nodup_nodes

theorem nodup_schedule (hg : g.Sound) (h : Searching g back fresh done frames) :
    (schedule done frames).Nodup :=
  (List.nodup_append.1 (h.nodup hg)).2.1

theorem notMem_fresh (hg : g.Sound) (h : Searching g back fresh done frames) {a : CapsuleId}
    (ha : a ∈ schedule done frames) : a ∉ fresh := fun hf =>
  (List.nodup_append.1 (h.nodup hg)).2.2 a hf a ha rfl

/-- The far end of a reference is a capsule of the graph, so it is somewhere in the search. -/
theorem mem_of_refers (hg : g.Sound) (h : Searching g back fresh done frames) {a b : CapsuleId}
    (hab : g.Refers a b) : b ∈ fresh ∨ b ∈ done ∨ b ∈ path frames := by
  have hb := h.perm.mem_iff.2 (hg.ends_mem _ hab).2
  simpa [schedule] using hb

/-- Every capsule on the path reaches the innermost one. -/
theorem reaches (h : Searching g back fresh done ((id, rest) :: frames)) {a : CapsuleId}
    (ha : a ∈ path ((id, rest) :: frames)) : ReflTransGen g.Refers a id := by
  have run : ∀ (ids : List CapsuleId) (b : CapsuleId), (b :: ids).IsChain (fun a b => g.Refers b a) →
      ∀ a ∈ b :: ids, ReflTransGen g.Refers a b := by
    intro ids
    induction ids with
    | nil => intro b _ a ha; rw [List.mem_singleton.1 ha]
    | cons c ids ih =>
      intro b hchain a ha
      obtain ⟨hcb, hchain⟩ := List.isChain_cons_cons.1 hchain
      rcases List.mem_cons.1 ha with rfl | ha
      · exact .refl
      · exact (ih c hchain a ha).tail hcb
  exact run _ id h.linked a ha

/-! ### Steps of a search -/

theorem start (g : DependencyGraph) (back : CapsuleId → CapsuleId → Prop) : Searching g back g.nodes [] [] :=
  ⟨by simp [schedule, path], .nil, by simp, by simp [schedule, path]⟩

theorem mono {back' : CapsuleId → CapsuleId → Prop} (h : Searching g back fresh done frames)
    (hback : ∀ a b, back a b → back' a b) : Searching g back' fresh done frames :=
  ⟨h.perm, h.linked, h.follows, fun a ha b hab =>
    (h.settled a ha b hab).imp_right (Or.imp_left (hback a b))⟩

/-- A capsule without references to follow is left. -/
theorem leave (h : Searching g back fresh done ((id, []) :: frames)) :
    Searching g back fresh (done ++ [id]) frames := by
  have hs := schedule_cons done id [] frames
  refine ⟨hs ▸ h.perm, h.linked.tail, fun f hf => h.follows f (List.mem_cons_of_mem _ hf), ?_⟩
  rw [← hs]
  intro a ha b hab
  refine (h.settled a ha b hab).imp_right (Or.imp_right ?_)
  rintro ⟨rest, hmem, hb⟩
  rcases List.mem_cons.1 hmem with heq | hmem
  · obtain ⟨-, rfl⟩ := Prod.mk.inj heq
    exact absurd hb List.not_mem_nil
  · exact ⟨rest, hmem, hb⟩

/-- The next reference of a frame need not be followed when it points backwards or is excused. -/
theorem drop (above : List Frame) (h : Searching g back fresh done (above ++ (id, next :: rest) :: frames))
    (hnext : List.Sublist [next, id] (schedule done (above ++ (id, next :: rest) :: frames)) ∨ back id next) :
    Searching g back fresh done (above ++ (id, rest) :: frames) := by
  have hpath := path_drop above id next rest frames
  have hs := schedule_drop done above id next rest frames
  refine ⟨hs ▸ h.perm, hpath ▸ h.linked, fun f hf b hb => ?_, ?_⟩
  · obtain ⟨rest', hmem, hsub⟩ := mem_drop hf
    exact h.follows _ hmem b (hsub.subset hb)
  · rw [← hs]
    intro a ha b hab
    rcases h.settled a ha b hab with hbefore | hback | ⟨rest', hmem, hb⟩
    · exact .inl hbefore
    · exact .inr (.inl hback)
    · rcases List.mem_append.1 hmem with hmem | hmem
      · exact .inr (.inr ⟨rest', List.mem_append_left _ hmem, hb⟩)
      · rcases List.mem_cons.1 hmem with heq | hmem
        · obtain ⟨rfl, rfl⟩ := Prod.mk.inj heq
          rcases List.mem_cons.1 hb with rfl | hb
          · exact hnext.imp_right .inl
          · exact .inr (.inr ⟨rest, by simp, hb⟩)
        · exact .inr (.inr ⟨rest', by simp [hmem], hb⟩)

/-- A capsule not met is entered; of its references those need not be followed that are done or excused. -/
theorem enter {follow : List CapsuleId} (h : Searching g back fresh done frames) (hnext : next ∈ fresh)
    (hlink : ∀ a ∈ (path frames).head?, g.Refers a next) (hfollow : ∀ b ∈ follow, g.Refers next b)
    (hrest : ∀ b, g.Refers next b → b ∈ follow ∨ b ∈ done ∨ back next b) :
    Searching g back (fresh.erase next) done ((next, follow) :: frames) := by
  have hsub := schedule_sublist_enter done (next, follow) frames
  refine ⟨?_, h.linked.cons hlink, ?_, ?_⟩
  · have hmove : (fresh.erase next ++ schedule done ((next, follow) :: frames)).Perm
        (next :: fresh.erase next ++ schedule done frames) := by
      simpa [schedule] using @List.perm_middle _ next (fresh.erase next ++ done) (path frames)
    exact hmove.trans (((List.perm_cons_erase hnext).symm.append_right _).trans h.perm)
  · intro f hf b hb
    rcases List.mem_cons.1 hf with rfl | hf
    · exact hfollow b hb
    · exact h.follows f hf b hb
  · intro a ha b hab
    have hmem : a = next ∨ a ∈ schedule done frames := by
      simp only [schedule, path_cons, List.mem_append, List.mem_cons] at ha ⊢
      tauto
    rcases hmem with rfl | hmem
    · rcases hrest b hab with hb | hb | hb
      · exact .inr (.inr ⟨follow, List.mem_cons_self, hb⟩)
      · refine .inl ((List.singleton_sublist.2 hb).append ?_)
        exact List.singleton_sublist.2 List.mem_cons_self
      · exact .inr (.inl hb)
    · rcases h.settled a hmem b hab with hb | hb | ⟨rest, hf, hb⟩
      · exact .inl (hb.trans hsub)
      · exact .inr (.inl hb)
      · exact .inr (.inr ⟨rest, List.mem_cons_of_mem _ hf, hb⟩)

/-- When the path is empty, every reference of a capsule that was left points backwards or is excused. -/
theorem settled_done (h : Searching g back fresh done []) {a b : CapsuleId} (ha : a ∈ done)
    (hab : g.Refers a b) : List.Sublist [b, a] done ∨ back a b := by
  have hs : schedule done [] = done := by simp [schedule, path]
  rcases h.settled a (by rwa [hs]) b hab with hb | hb | ⟨_, hf, _⟩
  · exact .inl (hs ▸ hb)
  · exact .inr hb
  · exact absurd hf List.not_mem_nil

end Searching

end CapsuleCompiler.DependencyGraph
