import CapsuleCompiler.Proofs.Graph.DepthFirst
import Mathlib.Data.List.Rotate

/-!
# Proofs.Graph.CycleSearch — the reported cycles are cycles, differ, and between them break all cycles

The search excuses exactly the references that close a reported chain.  Along a chain every reference but the closing
one points backwards in the schedule, so a chain is determined by its capsules up to the place where it begins, and
it begins with the capsule that is left last.  Two facts follow: chains with one cycle in common are equal, and equal
chains do not occur twice because each reference is followed once; and without the closing references the schedule
is an order in which every reference points backwards.
-/

namespace CapsuleCompiler.DependencyGraph

open Relation

variable {g : DependencyGraph} {fresh done : List CapsuleId} {frames : List Frame}
  {found : List (List CapsuleId)} {id next : CapsuleId} {rest : List CapsuleId}

/-! ### Chains -/

/-- The last reference of a chain, which leads back to where the chain begins. -/
def closingEdge? (chain : List CapsuleId) : Option (CapsuleId × CapsuleId) :=
  match chain.reverse with
  | last :: previous :: _ => some (previous, last)
  | _ => none

/-- The reference from `a` to `b` closes one of the chains. -/
def Closes (found : List (List CapsuleId)) (a b : CapsuleId) : Prop :=
  ∃ chain ∈ found, closingEdge? chain = some (a, b)

theorem mem_filterMap_closingEdge? {a b : CapsuleId} :
    (a, b) ∈ found.filterMap closingEdge? ↔ Closes found a b :=
  List.mem_filterMap

theorem closes_concat {chain : List CapsuleId} {a b c d : CapsuleId} (h : closingEdge? chain = some (c, d)) :
    Closes (found ++ [chain]) a b ↔ Closes found a b ∨ (a = c ∧ b = d) := by
  simp only [Closes, List.mem_append, List.mem_singleton, or_and_right, exists_or, exists_eq_left, h,
    Option.some.injEq, Prod.mk.injEq]
  exact or_congr_right ⟨fun h => ⟨h.1.symm, h.2.symm⟩, fun h => ⟨h.1.symm, h.2.symm⟩⟩

/-- The path up to a capsule on it. -/
theorem path_split (h : next ∈ path frames) :
    ∃ inner outer, path frames = inner ++ next :: outer ∧
      closeCycle next frames = next :: inner.reverse ++ [next] := by
  obtain ⟨inner, outer, hpath, hnot⟩ := List.eq_append_cons_of_mem h
  refine ⟨inner, outer, hpath, ?_⟩
  have hall : ∀ a ∈ inner, decide (a ≠ next) = true := fun a ha => by
    simpa using fun heq : a = next => hnot (heq ▸ ha)
  rw [closeCycle, hpath, List.takeWhile_append_of_pos hall]
  simp

/-- A chain closed at `id` ends with the reference from `id`. -/
theorem closingEdge?_closeCycle (h : next ∈ path ((id, rest) :: frames)) :
    closingEdge? (closeCycle next ((id, rest) :: frames)) = some (id, next) := by
  obtain ⟨inner, outer, hpath, hclose⟩ := path_split h
  rw [hclose, closingEdge?]
  cases inner with
  | nil => simp_all
  | cons a inner => simp_all

theorem isChain_closeCycle {back : CapsuleId → CapsuleId → Prop}
    (hs : Searching g back fresh done ((id, rest) :: frames)) (hedge : g.Refers id next)
    (h : next ∈ path ((id, rest) :: frames)) :
    (closeCycle next ((id, rest) :: frames)).IsChain g.Refers := by
  obtain ⟨inner, outer, hpath, hclose⟩ := path_split h
  have hinner : inner ++ [next] <+: path ((id, rest) :: frames) := ⟨outer, by rw [hpath]; simp⟩
  have hlinked : ((inner ++ [next]).reverse).IsChain g.Refers :=
    List.isChain_reverse.2 <| List.IsChain.prefix hs.linked hinner
  have hhead : (inner ++ [next]).head? = some id := by
    cases inner <;> simp_all
  rw [hclose]
  have := hlinked.append (List.isChain_singleton next) fun x hx y hy => by
    rw [List.getLast?_reverse, hhead] at hx
    simp only [Option.mem_def, Option.some.injEq, List.head?_cons] at hx hy
    exact hx ▸ hy ▸ hedge
  simpa using this

/-! ### The invariant -/

structure CycleSearch (g : DependencyGraph) (fresh done : List CapsuleId) (frames : List Frame)
    (found : List (List CapsuleId)) : Prop extends Searching g (Closes found) fresh done frames where
  pending_nodup : ∀ f ∈ frames, f.2.Nodup
  /-- A reference that closes a chain has been followed. -/
  followed : ∀ a b, Closes found a b → a ∈ schedule done frames ∧ ∀ rest, (a, rest) ∈ frames → b ∉ rest
  distinct : found.Pairwise fun c d => closingEdge? c ≠ closingEdge? d
  chains : ∀ chain ∈ found, chain.IsChain g.Refers ∧ ∃ first others, chain = first :: others ++ [first] ∧
    List.Sublist (others.reverse ++ [first]) (schedule done frames)

namespace CycleSearch

theorem start (g : DependencyGraph) : CycleSearch g g.nodes [] [] [] :=
  ⟨.start g _, by simp, fun _ _ ⟨_, h, _⟩ => absurd h List.not_mem_nil, .nil, by simp⟩

theorem leave (h : CycleSearch g fresh done ((id, []) :: frames) found) :
    CycleSearch g fresh (done ++ [id]) frames found := by
  have hs := schedule_cons done id [] frames
  refine ⟨h.toSearching.leave, fun f hf => h.pending_nodup f (List.mem_cons_of_mem _ hf), ?_, h.distinct, ?_⟩
  · rw [← hs]
    exact fun a b hab => ⟨(h.followed a b hab).1, fun rest hr =>
      (h.followed a b hab).2 rest (List.mem_cons_of_mem _ hr)⟩
  · rw [← hs]
    exact h.chains

theorem pending_nodup_drop (above : List Frame)
    (h : CycleSearch g fresh done (above ++ (id, next :: rest) :: frames) found) :
    ∀ f ∈ above ++ (id, rest) :: frames, f.2.Nodup := fun f hf => by
  obtain ⟨rest', hmem, hsub⟩ := mem_drop hf
  exact (h.pending_nodup _ hmem).sublist hsub

theorem followed_drop (above : List Frame)
    (h : CycleSearch g fresh done (above ++ (id, next :: rest) :: frames) found) {a b : CapsuleId}
    (hab : Closes found a b) : ∀ rest', (a, rest') ∈ above ++ (id, rest) :: frames → b ∉ rest' :=
  fun rest' hmem hb => by
    obtain ⟨rest'', hmem, hsub⟩ := mem_drop hmem
    exact (h.followed a b hab).2 rest'' hmem (hsub.subset hb)

theorem drop (above : List Frame) (h : CycleSearch g fresh done (above ++ (id, next :: rest) :: frames) found)
    (hbefore : List.Sublist [next, id] (schedule done (above ++ (id, next :: rest) :: frames))) :
    CycleSearch g fresh done (above ++ (id, rest) :: frames) found := by
  have hs := schedule_drop done above id next rest frames
  exact ⟨h.toSearching.drop above (.inl hbefore), h.pending_nodup_drop above,
    fun a b hab => ⟨hs ▸ (h.followed a b hab).1, h.followed_drop above hab⟩, h.distinct, hs ▸ h.chains⟩

/-- A reference to a capsule that was left is passed over. -/
theorem skip (hg : g.Sound) (h : CycleSearch g fresh done ((id, next :: rest) :: frames) found)
    (hfresh : next ∉ fresh) (hpath : next ∉ path ((id, rest) :: frames)) :
    CycleSearch g fresh done ((id, rest) :: frames) found := by
  have hedge : g.Refers id next := h.follows _ List.mem_cons_self next List.mem_cons_self
  have hdone : next ∈ done := by
    rcases h.mem_of_refers hg hedge with hn | hn | hn
    · exact absurd hn hfresh
    · exact hn
    · exact absurd hn hpath
  exact h.drop [] ((List.singleton_sublist.2 hdone).append (List.singleton_sublist.2 List.mem_cons_self))

/-- A reference back into the path closes a chain. -/
theorem report (hg : g.Sound) (h : CycleSearch g fresh done ((id, next :: rest) :: frames) found)
    (hpath : next ∈ path ((id, rest) :: frames)) :
    CycleSearch g fresh done ((id, rest) :: frames)
      (found ++ [closeCycle next ((id, rest) :: frames)]) := by
  have hedge : g.Refers id next := h.follows _ List.mem_cons_self next List.mem_cons_self
  have hclosing := closingEdge?_closeCycle hpath
  have hmono : ∀ a b, Closes found a b → Closes (found ++ [closeCycle next ((id, rest) :: frames)]) a b :=
    fun a b hab => (closes_concat hclosing).2 (.inl hab)
  have hself : Closes (found ++ [closeCycle next ((id, rest) :: frames)]) id next :=
    (closes_concat hclosing).2 (.inr ⟨rfl, rfl⟩)
  have hsearch : Searching g (Closes (found ++ [closeCycle next ((id, rest) :: frames)])) fresh done
      ((id, rest) :: frames) :=
    (h.toSearching.mono hmono).drop [] (.inr hself)
  refine ⟨hsearch, h.pending_nodup_drop [], fun a b hab => ?_, ?_, fun chain hchain => ?_⟩
  · rcases (closes_concat hclosing).1 hab with hab | ⟨rfl, rfl⟩
    · exact ⟨(h.followed a b hab).1, h.followed_drop [] hab⟩
    · refine ⟨by simp [schedule], fun rest' hmem => ?_⟩
      rcases List.mem_cons.1 hmem with heq | hmem
      · obtain ⟨-, rfl⟩ := Prod.mk.inj heq
        exact (List.nodup_cons.1 (h.pending_nodup _ List.mem_cons_self)).1
      · -- the path holds each capsule once, so no outer frame belongs to this one
        have hnd := (List.nodup_append.1 (hsearch.nodup_schedule hg)).2.1
        exact absurd (mem_path_of_mem hmem) (List.nodup_cons.1 hnd).1
  · refine List.pairwise_append.2 ⟨h.distinct, List.pairwise_singleton .., fun c hc d hd heq => ?_⟩
    rw [List.mem_singleton.1 hd, hclosing] at heq
    exact (h.followed id next ⟨c, hc, heq⟩).2 _ List.mem_cons_self List.mem_cons_self
  · rcases List.mem_append.1 hchain with hchain | hchain
    · exact h.chains chain hchain
    · rw [List.mem_singleton.1 hchain]
      refine ⟨isChain_closeCycle hsearch hedge hpath, ?_⟩
      obtain ⟨inner, outer, hsplit, hclose⟩ := path_split hpath
      refine ⟨next, inner.reverse, hclose, ?_⟩
      rw [List.reverse_reverse, schedule, hsplit]
      exact ((List.prefix_append (inner ++ [next]) outer).sublist.trans (by simp)).trans
        (List.sublist_append_right ..)

/-- A root, or the next reference of the current capsule, is entered. -/
theorem enter (hg : g.Sound) (h : CycleSearch g fresh done frames found) (hnext : next ∈ fresh)
    (hlink : ∀ a ∈ (path frames).head?, g.Refers a next) :
    CycleSearch g (fresh.erase next) done ((next, g.successors next) :: frames) found := by
  have hsub := schedule_sublist_enter done (next, g.successors next) frames
  refine ⟨h.toSearching.enter hnext hlink (fun b hb => mem_successors.1 hb)
      (fun b hb => .inl (mem_successors.2 hb)), ?_, fun a b hab => ⟨?_, ?_⟩, h.distinct, ?_⟩
  · intro f hf
    rcases List.mem_cons.1 hf with rfl | hf
    · exact nodup_successors hg next
    · exact h.pending_nodup f hf
  · exact hsub.subset (h.followed a b hab).1
  · intro rest' hmem
    rcases List.mem_cons.1 hmem with heq | hmem
    · obtain ⟨rfl, -⟩ := Prod.mk.inj heq
      exact absurd hnext (h.notMem_fresh hg (h.followed a b hab).1)
    · exact (h.followed a b hab).2 rest' hmem
  · intro chain hchain
    obtain ⟨hlinked, first, others, heq, hsched⟩ := h.chains chain hchain
    exact ⟨hlinked, first, others, heq, hsched.trans hsub⟩

/-- The next reference of the current capsule is followed to a capsule not met. -/
theorem follow (hg : g.Sound) (h : CycleSearch g fresh done ((id, next :: rest) :: frames) found)
    (hnext : next ∈ fresh) :
    CycleSearch g (fresh.erase next) done ((next, g.successors next) :: (id, rest) :: frames) found := by
  have hedge : g.Refers id next := h.follows _ List.mem_cons_self next List.mem_cons_self
  have hentered := h.enter hg hnext fun a ha => by
    simp only [path_cons, List.head?_cons, Option.mem_def, Option.some.injEq] at ha
    exact ha ▸ hedge
  refine hentered.drop [(next, g.successors next)] ?_
  exact (List.prefix_append [next, id] (path frames)).sublist.trans (List.sublist_append_right done _)

/-! ### Runs -/

/-- A search ends with an empty path and keeps the invariant; it takes capsules from `fresh` only. -/
theorem run (hg : g.Sound) (h : CycleSearch g fresh done frames found) :
    List.Sublist (g.searchCycles fresh frames found).1 fresh ∧
    ∃ done', CycleSearch g (g.searchCycles fresh frames found).1 done' []
      (g.searchCycles fresh frames found).2 := by
  induction fresh, frames, found using searchCycles.induct g generalizing done with
  | case1 fresh found =>
    rw [searchCycles]
    exact ⟨.refl _, done, h⟩
  | case2 fresh id frames found ih =>
    rw [searchCycles]
    exact ih h.leave
  | case3 fresh id next rest frames found hfresh ih =>
    rw [searchCycles, if_pos hfresh]
    obtain ⟨hsub, hrun⟩ := ih (h.follow hg hfresh)
    exact ⟨hsub.trans List.erase_sublist, hrun⟩
  | case4 fresh id next rest frames found hfresh hpath ih =>
    rw [searchCycles, if_neg hfresh, if_pos hpath]
    exact ih (h.report hg hpath)
  | case5 fresh id next rest frames found hfresh hpath ih =>
    rw [searchCycles, if_neg hfresh, if_neg hpath]
    exact ih (h.skip hg hfresh hpath)

/-- After the searches from all roots no capsule is left out. -/
theorem runRoots (hg : g.Sound) {roots : List CapsuleId} (h : CycleSearch g fresh done [] found)
    (hroots : ∀ a ∈ fresh, a ∈ roots) : ∃ done', CycleSearch g [] done' [] (g.searchRoots roots fresh found) := by
  induction roots generalizing fresh done found with
  | nil =>
    have hfresh : fresh = [] := List.eq_nil_iff_forall_not_mem.2 fun a ha => absurd (hroots a ha) List.not_mem_nil
    exact ⟨done, by rw [searchRoots, ← hfresh]; exact h⟩
  | cons root roots ih =>
    rw [searchRoots]
    split
    · next hroot =>
      obtain ⟨hsub, done', hrun⟩ := (h.enter hg hroot (by simp [path])).run hg
      refine ih hrun fun a ha => ?_
      have hmem := hsub.subset ha
      have hne : a ≠ root := fun heq =>
        ((List.nodup_append.1 (h.nodup hg)).1.not_mem_erase) (heq ▸ hmem)
      exact (List.mem_cons.1 (hroots a (List.mem_of_mem_erase hmem))).resolve_left hne
    · next hroot =>
      refine ih h fun a ha => ?_
      exact (List.mem_cons.1 (hroots a ha)).resolve_left fun heq => hroot (heq ▸ ha)

/-- What the whole search leaves behind. -/
theorem whole (hg : g.Sound) : ∃ order, CycleSearch g [] order [] g.findCycles :=
  (start g).runRoots hg fun _ h => h

/-! ### Conclusions -/

variable {order : List CapsuleId}

theorem nodup_order (hg : g.Sound) (h : CycleSearch g [] order [] found) : order.Nodup := by
  simpa [schedule, path] using h.nodup_schedule hg

theorem mem_order (hg : g.Sound) (h : CycleSearch g [] order [] found) {a b : CapsuleId} (hab : g.Refers a b) :
    a ∈ order := by
  simpa [schedule, path] using h.perm.mem_iff.2 (hg.ends_mem _ hab).1

/-- A chain is a closed walk without repetitions. -/
theorem simple (hg : g.Sound) (h : CycleSearch g [] order [] found) {chain : List CapsuleId}
    (hchain : chain ∈ found) : ∃ first others, chain = first :: others ++ [first] ∧
      (first :: others).Nodup ∧ chain.IsChain g.Refers := by
  obtain ⟨hlinked, first, others, heq, hsub⟩ := h.chains chain hchain
  have hnd := (h.nodup_schedule hg).sublist hsub
  exact ⟨first, others, heq, by simpa using List.nodup_reverse.2 hnd, hlinked⟩

/-- Chains of the same capsules are equal, for both are the schedule cut down to those capsules. -/
theorem eq_of_isRotated (hg : g.Sound) (h : CycleSearch g [] order [] found) {c d : List CapsuleId}
    (hc : c ∈ found) (hd : d ∈ found) (hrot : c.dropLast.IsRotated d.dropLast) : c = d := by
  obtain ⟨-, v, vs, rfl, hv⟩ := h.chains c hc
  obtain ⟨-, w, ws, rfl, hw⟩ := h.chains d hd
  simp only [List.dropLast_concat] at hrot
  have hperm : (vs.reverse ++ [v]).Perm (ws.reverse ++ [w]) := by
    simpa using (List.reverse_perm (v :: vs)).trans (hrot.perm.trans (List.reverse_perm (w :: ws)).symm)
  have hsorted : (schedule order []).Pairwise fun a b => (schedule order []).idxOf a < (schedule order []).idxOf b :=
    List.pairwise_iff_forall_sublist.2 fun hab => idxOf_lt_of_before (h.nodup_schedule hg) hab
  have heq := hperm.eq_of_pairwise (fun _ _ _ _ hab hba => absurd hba (Nat.lt_asymm hab))
    (hsorted.sublist hv) (hsorted.sublist hw)
  have hcons : v :: vs = w :: ws := by simpa using congrArg List.reverse heq
  obtain ⟨rfl, rfl⟩ := List.cons_eq_cons.1 hcons
  rfl

/-- No cycle is reported twice. -/
theorem pairwise_not_isRotated (hg : g.Sound) (h : CycleSearch g [] order [] found) :
    found.Pairwise fun c d => ¬ c.dropLast.IsRotated d.dropLast :=
  h.distinct.imp_of_mem fun hc hd hne hrot => hne (congrArg closingEdge? (h.eq_of_isRotated hg hc hd hrot))

/-- Without the closing references every reference points backwards in the order of the search. -/
theorem acyclic_without (hg : g.Sound) (h : CycleSearch g [] order [] found) :
    (g.without (found.filterMap closingEdge?)).Acyclic := by
  refine acyclic_of_before (h.nodup_order hg) fun a b hab => ?_
  obtain ⟨hab, hnot⟩ := refers_without.1 hab
  rw [mem_filterMap_closingEdge?] at hnot
  exact (h.settled_done (h.mem_order hg hab) hab).resolve_right hnot

/-- A closed walk takes some closing reference. -/
theorem closing_mem_walk (hg : g.Sound) (h : CycleSearch g [] order [] found) {first : CapsuleId}
    {others : List CapsuleId} (hwalk : (first :: others ++ [first]).IsChain g.Refers) :
    ∃ a b, Closes found a b ∧ [a, b] <:+: first :: others ++ [first] := by
  by_contra hnone
  refine h.acyclic_without hg first (@transGen_of_isChain _ _ others _ ?_)
  refine List.isChain_iff_forall_rel_of_append_cons_cons.2 fun a b before behind heq => ?_
  refine refers_without.2 ⟨List.isChain_iff_forall_rel_of_append_cons_cons.1 hwalk heq, fun hmem => hnone ?_⟩
  exact ⟨a, b, mem_filterMap_closingEdge?.1 hmem, before, behind, by simpa using heq.symm⟩

end CycleSearch

/-- **The reported cycles.**  Each reported chain is a closed walk without repetitions, no two are rotations of one
cycle, and the references that close them leave an acyclic graph: every cycle takes one of them. -/
theorem findCycles_cut_every_cycle (steps : List Step) :
    (∀ chain ∈ (build steps).findCycles, ∃ first others, chain = first :: others ++ [first] ∧
      (first :: others).Nodup ∧ chain.IsChain (build steps).Refers) ∧
    ((build steps).findCycles.Pairwise fun c d => ¬ c.dropLast.IsRotated d.dropLast) ∧
    ((build steps).without ((build steps).findCycles.filterMap closingEdge?)).Acyclic ∧
    ∀ first others, (first :: others ++ [first]).IsChain (build steps).Refers →
      ∃ chain ∈ (build steps).findCycles, ∃ a b, closingEdge? chain = some (a, b) ∧
        [a, b] <:+: first :: others ++ [first] := by
  have hg := sound_build steps
  obtain ⟨order, h⟩ := CycleSearch.whole hg
  refine ⟨fun chain hchain => h.simple hg hchain, h.pairwise_not_isRotated hg, h.acyclic_without hg, ?_⟩
  intro first others hwalk
  obtain ⟨a, b, ⟨chain, hchain, hclosing⟩, hinfix⟩ := h.closing_mem_walk hg hwalk
  exact ⟨chain, hchain, a, b, hclosing, hinfix⟩

/-- Cycles that share references are told apart by the references that close them. -/
example : (build [.dependency ⟨"a"⟩ ⟨"b"⟩, .dependency ⟨"b"⟩ ⟨"c"⟩, .dependency ⟨"c"⟩ ⟨"a"⟩, .dependency ⟨"b"⟩ ⟨"a"⟩,
    .dependency ⟨"c"⟩ ⟨"c"⟩]).findCycles =
    [[⟨"a"⟩, ⟨"b"⟩, ⟨"c"⟩, ⟨"a"⟩], [⟨"c"⟩, ⟨"c"⟩], [⟨"a"⟩, ⟨"b"⟩, ⟨"a"⟩]] := by
  cbv

end CapsuleCompiler.DependencyGraph
