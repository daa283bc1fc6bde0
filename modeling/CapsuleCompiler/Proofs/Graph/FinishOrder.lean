import CapsuleCompiler.Graph.Order
import CapsuleCompiler.Proofs.Graph.CycleSearch

/-!
# Proofs.Graph.FinishOrder — an order exists exactly where no cycle is reported

The stack of `finish` is a path of frames laid flat: the references that a capsule has still to follow stand on top
of the capsule itself.  Read so, the loop is the same depth-first search as the one for cycles, and it excuses the
references that lead back to a capsule from which the current one was reached.  Hence a reference that does not point
backwards in the list of finished capsules closes a cycle, and both the second pass and a self-reference name a
capsule on a cycle.

The second pass is meant as a search over incoming references from each finished capsule, which stops at the second
capsule it meets.  It never gets further than one reference (`secondPass_eq`).
-/

namespace CapsuleCompiler.DependencyGraph

open Relation

variable {g : DependencyGraph} {fresh done : List CapsuleId} {frames : List Frame} {id next : CapsuleId}
  {rest : List CapsuleId}

/-! ### The invariant -/

/-- The stack of a path of frames. -/
def stackOf (frames : List Frame) : List CapsuleId := frames.flatMap fun f => f.2 ++ [f.1]

@[simp] theorem stackOf_nil : stackOf [] = [] := rfl

@[simp] theorem stackOf_cons (f : Frame) (frames : List Frame) :
    stackOf (f :: frames) = f.2 ++ f.1 :: stackOf frames := by
  simp [stackOf]

/-- A reference that leads back to where the search came from. -/
abbrev LeadsBack (g : DependencyGraph) (a b : CapsuleId) : Prop := ReflTransGen g.Refers b a

structure FinishSearch (g : DependencyGraph) (fresh done : List CapsuleId) (frames : List Frame) : Prop
    extends Searching g (LeadsBack g) fresh done frames where
  /-- Nothing on the path is still to follow from a capsule further in. -/
  ahead : frames.Pairwise fun f outer => outer.1 ∉ f.2
  irreflexive : ∀ a ∈ schedule done frames, ¬ g.Refers a a

namespace FinishSearch

theorem start (g : DependencyGraph) : FinishSearch g g.nodes [] [] :=
  ⟨.start g _, .nil, by simp [schedule, path]⟩

theorem leave (h : FinishSearch g fresh done ((id, []) :: frames)) :
    FinishSearch g fresh (done ++ [id]) frames :=
  ⟨h.toSearching.leave, (List.pairwise_cons.1 h.ahead).2, schedule_cons done id [] frames ▸ h.irreflexive⟩

/-- A capsule without a reference to itself is entered, with those of its references that were not met. -/
theorem enter (hg : g.Sound) (h : FinishSearch g fresh done frames) (hnext : next ∈ fresh)
    (hself : ¬ g.Refers next next) (hreach : ∀ a ∈ path frames, ReflTransGen g.Refers a next)
    (hlink : ∀ a ∈ (path frames).head?, g.Refers a next) :
    FinishSearch g (fresh.erase next) done
      ((next, (g.successors next).filter (· ∈ fresh.erase next)) :: frames) := by
  refine ⟨h.toSearching.enter hnext hlink (fun b hb => ?_) (fun b hb => ?_), ?_, fun a ha => ?_⟩
  · exact mem_successors.1 (List.mem_of_mem_filter hb)
  · by_cases hb' : b ∈ fresh.erase next
    · exact .inl (List.mem_filter.2 ⟨mem_successors.2 hb, by simpa using hb'⟩)
    · have hne : b ≠ next := fun heq => hself (heq ▸ hb)
      rcases h.mem_of_refers hg hb with hm | hm | hm
      · exact absurd ((List.mem_erase_of_ne hne).2 hm) hb'
      · exact .inr (.inl hm)
      · exact .inr (.inr (hreach b hm))
  · refine List.pairwise_cons.2 ⟨fun outer houter hmem => ?_, h.ahead⟩
    have hpath : outer.1 ∈ path frames := List.mem_map.2 ⟨outer, houter, rfl⟩
    have hfresh : outer.1 ∈ fresh.erase next := by simpa using (List.mem_filter.1 hmem).2
    exact h.notMem_fresh hg (List.mem_append_right done hpath) (List.mem_of_mem_erase hfresh)
  · have hmem : a = next ∨ a ∈ schedule done frames := by
      simp only [schedule, path_cons, List.mem_append, List.mem_cons] at ha ⊢
      tauto
    rcases hmem with rfl | hmem
    · exact hself
    · exact h.irreflexive a hmem

theorem drop (above : List Frame) (h : FinishSearch g fresh done (above ++ (id, next :: rest) :: frames))
    (hbefore : List.Sublist [next, id] (schedule done (above ++ (id, next :: rest) :: frames))) :
    FinishSearch g fresh done (above ++ (id, rest) :: frames) := by
  refine ⟨h.toSearching.drop above (.inl hbefore), ?_, schedule_drop done above id next rest frames ▸ h.irreflexive⟩
  obtain ⟨habove, hframes, hboth⟩ := List.pairwise_append.1 h.ahead
  obtain ⟨hhead, hframes⟩ := List.pairwise_cons.1 hframes
  refine List.pairwise_append.2 ⟨habove, List.pairwise_cons.2 ⟨fun outer houter hmem => ?_, hframes⟩, ?_⟩
  · exact hhead outer houter (List.mem_cons_of_mem _ hmem)
  · intro f hf outer houter
    rcases List.mem_cons.1 houter with rfl | houter
    · exact hboth f hf (id, next :: rest) List.mem_cons_self
    · exact hboth f hf outer (List.mem_cons_of_mem _ houter)

/-- The next reference of the current capsule is followed to a capsule not met. -/
theorem follow (hg : g.Sound) (h : FinishSearch g fresh done ((id, next :: rest) :: frames))
    (hnext : next ∈ fresh) (hself : ¬ g.Refers next next) :
    FinishSearch g (fresh.erase next) done
      ((next, (g.successors next).filter (· ∈ fresh.erase next)) :: (id, rest) :: frames) := by
  have hedge : g.Refers id next := h.follows _ List.mem_cons_self next List.mem_cons_self
  have hentered := h.enter hg hnext hself (fun a ha => (h.reaches ha).tail hedge) fun a ha => by
    simp only [path_cons, List.head?_cons, Option.mem_def, Option.some.injEq] at ha
    exact ha ▸ hedge
  refine hentered.drop [_] ?_
  exact (List.prefix_append [next, id] (path frames)).sublist.trans (List.sublist_append_right done _)

/-- A capsule on top of the stack that was met and is not the current one was left. -/
theorem mem_done (hg : g.Sound) (h : FinishSearch g fresh done ((id, next :: rest) :: frames))
    (hfresh : next ∉ fresh) : next ∈ done := by
  have hedge : g.Refers id next := h.follows _ List.mem_cons_self next List.mem_cons_self
  rcases h.mem_of_refers hg hedge with hn | hn | hn
  · exact absurd hn hfresh
  · exact hn
  · rcases List.mem_cons.1 hn with rfl | hn
    · exact absurd hedge (h.irreflexive _ (by simp [schedule]))
    · obtain ⟨outer, houter, rfl⟩ := List.mem_map.1 hn
      exact absurd List.mem_cons_self ((List.pairwise_cons.1 h.ahead).1 outer houter)

/-- The current capsule is not among those left. -/
theorem notMem_done (hg : g.Sound) (h : FinishSearch g fresh done ((id, rest) :: frames)) : id ∉ done := fun hid =>
  (List.nodup_append.1 (h.nodup_schedule hg)).2.2 id hid id (by simp) rfl

/-! ### Runs -/

/-- How a search ends that began with `fresh`: with an empty path, or at a capsule that references itself. -/
def Ends (g : DependencyGraph) (fresh : List CapsuleId) :
    Except CapsuleId (List CapsuleId × List CapsuleId) → Prop
  | .ok (left, done) => List.Sublist left fresh ∧ FinishSearch g left done []
  | .error id => g.Refers id id

theorem Ends.mono {fresh' : List CapsuleId} (hsub : List.Sublist fresh fresh') :
    ∀ {result}, Ends g fresh result → Ends g fresh' result
  | .ok _, h => ⟨h.1.trans hsub, h.2⟩
  | .error _, h => h

theorem run (hg : g.Sound) (h : FinishSearch g fresh done frames) :
    Ends g fresh (g.finish fresh (stackOf frames) done) := by
  generalize hstack : stackOf frames = stack
  induction fresh, stack, done using finish.induct g generalizing frames with
  | case1 fresh done =>
    cases frames with
    | nil => rw [finish]; exact ⟨.refl _, h⟩
    | cons f frames => simp at hstack
  | case2 fresh top stack done hfresh hself =>
    rw [finish, if_pos hfresh, if_pos hself]
    exact mem_successors.1 hself
  | case3 fresh top stack done hfresh hself ih =>
    rw [finish, if_pos hfresh, if_neg hself]
    rw [mem_successors] at hself
    match frames with
    | [] => simp at hstack
    | (id, []) :: frames =>
      simp only [stackOf_cons, List.nil_append, List.cons.injEq] at hstack
      exact absurd (hstack.1 ▸ hfresh) (h.notMem_fresh hg (by simp [schedule]))
    | (id, next :: rest) :: frames =>
      simp only [stackOf_cons, List.cons_append, List.cons.injEq] at hstack
      obtain ⟨rfl, rfl⟩ := hstack
      exact (ih (h.follow hg hfresh hself) (by simp)).mono List.erase_sublist
  | case4 fresh top stack done hfresh ih =>
    rw [finish, if_neg hfresh]
    match frames with
    | [] => simp at hstack
    | (id, []) :: frames =>
      simp only [stackOf_cons, List.nil_append, List.cons.injEq] at hstack
      obtain ⟨rfl, rfl⟩ := hstack
      rw [dif_neg (h.notMem_done hg)] at ih
      rw [if_neg (h.notMem_done hg)]
      exact ih h.leave rfl
    | (id, next :: rest) :: frames =>
      simp only [stackOf_cons, List.cons_append, List.cons.injEq] at hstack
      obtain ⟨rfl, rfl⟩ := hstack
      have hdone := h.mem_done hg hfresh
      rw [dif_pos hdone] at ih
      rw [if_pos hdone]
      refine ih (h.drop [] ?_) (by simp)
      exact (List.singleton_sublist.2 hdone).append (List.singleton_sublist.2 List.mem_cons_self)

/-- The search from a root that was not met. -/
theorem runRoot (hg : g.Sound) (h : FinishSearch g fresh done []) {root : CapsuleId} (hroot : root ∈ fresh) :
    Ends g (fresh.erase root) (g.finish fresh [root] done) := by
  rw [finish, if_pos hroot]
  split
  · next hself => exact mem_successors.1 hself
  · next hself =>
    rw [mem_successors] at hself
    simpa using (h.enter hg hroot hself (by simp [path]) (by simp [path])).run hg

/-- After the searches from all roots no capsule is left out. -/
theorem runRoots (hg : g.Sound) {roots : List CapsuleId} (h : FinishSearch g fresh done [])
    (hroots : ∀ a ∈ fresh, a ∈ roots) :
    (∃ order, g.finishRoots roots fresh done = .ok order ∧ FinishSearch g [] order []) ∨
      ∃ id, g.finishRoots roots fresh done = .error id ∧ g.Refers id id := by
  induction roots generalizing fresh done with
  | nil =>
    have hfresh : fresh = [] := List.eq_nil_iff_forall_not_mem.2 fun a ha => absurd (hroots a ha) List.not_mem_nil
    exact .inl ⟨done, rfl, hfresh ▸ h⟩
  | cons root roots ih =>
    rw [finishRoots]
    split
    · next hroot =>
      have hends := h.runRoot hg hroot
      cases hfinish : g.finish fresh [root] done with
      | error id =>
        rw [hfinish] at hends
        exact .inr ⟨id, rfl, hends⟩
      | ok result =>
        rw [hfinish] at hends
        refine ih hends.2 fun a ha => ?_
        have hmem := hends.1.subset ha
        have hne : a ≠ root := fun heq => (List.nodup_append.1 (h.nodup hg)).1.not_mem_erase (heq ▸ hmem)
        exact (List.mem_cons.1 (hroots a (List.mem_of_mem_erase hmem))).resolve_left hne
    · next hroot =>
      refine ih h fun a ha => ?_
      exact (List.mem_cons.1 (hroots a ha)).resolve_left fun heq => hroot (heq ▸ ha)

end FinishSearch

/-! ### The second pass -/

variable {seen ids : List CapsuleId}

/-- Without a late consumer, whoever references a capsule of the list stands in front of it. -/
theorem before_of_lateConsumer?_eq_none (h : g.lateConsumer? seen ids = none) {a b : CapsuleId} (hb : b ∈ ids)
    (hab : g.Refers a b) : a ∈ seen ∨ a = b ∨ List.Sublist [a, b] ids := by
  induction ids generalizing seen with
  | nil => exact absurd hb List.not_mem_nil
  | cons id ids ih =>
    rw [lateConsumer?] at h
    split at h
    · cases h
    · next hnone =>
      rcases List.mem_cons.1 hb with rfl | hb
      · have := List.find?_eq_none.1 hnone a (mem_predecessors.2 hab)
        simp only [Bool.not_eq_true', Bool.not_eq_false, List.contains_iff_mem, List.mem_cons] at this
        exact this.elim (fun heq => .inr (.inl heq)) .inl
      · rcases ih h hb with hseen | heq | hsub
        · rcases List.mem_cons.1 hseen with heq | hseen
          · exact .inr (.inr (heq ▸ (List.singleton_sublist.2 hb).cons_cons a))
          · exact .inl hseen
        · exact .inr (.inl heq)
        · exact .inr (.inr (hsub.cons _))

/-- A late consumer references a capsule of the list and is not met up to it. -/
theorem split_of_lateConsumer?_eq_some {c : CapsuleId} (h : g.lateConsumer? seen ids = some c) :
    c ∉ seen ∧ ∃ id before behind, ids = before ++ id :: behind ∧ g.Refers c id ∧ c ≠ id ∧ c ∉ before := by
  induction ids generalizing seen with
  | nil => cases h
  | cons id ids ih =>
    rw [lateConsumer?] at h
    split at h
    · next c' hsome =>
      cases h
      have hc := List.find?_some hsome
      have hedge := mem_predecessors.1 (List.mem_of_find?_eq_some hsome)
      simp only [Bool.not_eq_eq_eq_not, Bool.not_true, List.contains_eq_mem, decide_eq_false_iff_not,
        List.mem_cons, not_or] at hc
      exact ⟨hc.2, id, [], ids, rfl, hedge, hc.1, List.not_mem_nil⟩
    · obtain ⟨hseen, other, before, behind, rfl, hedge, hne, hbefore⟩ := ih h
      rw [List.mem_cons, not_or] at hseen
      refine ⟨hseen.2, other, id :: before, behind, rfl, hedge, hne, ?_⟩
      rw [List.mem_cons, not_or]
      exact ⟨hseen.1, hbefore⟩

/-! ### The second pass as a search -/

/-- The next capsule of a search over incoming references, with the capsules marked and the stack behind it. -/
def nextBackward (g : DependencyGraph) (marked : List CapsuleId) :
    List CapsuleId → Option (CapsuleId × List CapsuleId × List CapsuleId)
  | [] => none
  | top :: stack =>
    if top ∈ marked then nextBackward g marked stack
    else some (top, top :: marked, (g.predecessors top).filter (· ∉ top :: marked) ++ stack)

/-- Searches from each capsule of a list, and names the second capsule that one of the searches meets. -/
def secondPass (g : DependencyGraph) (marked : List CapsuleId) : List CapsuleId → Option CapsuleId
  | [] => none
  | id :: ids =>
    match g.nextBackward marked [id] with
    | none => secondPass g marked ids
    | some (_, marked, stack) =>
      match g.nextBackward marked stack with
      | some (second, _, _) => some second
      | none => secondPass g marked ids

/-- A search over incoming references never gets further than to the consumers of its first capsule. -/
theorem secondPass_eq (g : DependencyGraph) {seen ids : List CapsuleId} (hnd : (seen.reverse ++ ids).Nodup) :
    g.secondPass seen ids = g.lateConsumer? seen ids := by
  induction ids generalizing seen with
  | nil => rfl
  | cons id ids ih =>
    have hid : id ∉ seen := fun hmem =>
      (List.nodup_append.1 hnd).2.2 id (List.mem_reverse.2 hmem) id List.mem_cons_self rfl
    have ih : g.secondPass (id :: seen) ids = g.lateConsumer? (id :: seen) ids := ih (by simpa using hnd)
    have hfind : (g.predecessors id).find? (fun c => !(id :: seen).contains c) =
        ((g.predecessors id).filter (· ∉ id :: seen)).head? := by
      rw [← List.head?_filter]
      congr 2
      funext c
      simp
    rw [secondPass, nextBackward, if_neg hid, lateConsumer?, hfind, ← ih, List.append_nil]
    cases hlate : (g.predecessors id).filter (· ∉ id :: seen) with
    | nil => rfl
    | cons c later =>
      have hc : c ∉ id :: seen := by
        have hmem : c ∈ (g.predecessors id).filter (· ∉ id :: seen) := hlate ▸ List.mem_cons_self
        simpa using (List.mem_filter.1 hmem).2
      rw [List.head?_cons]
      simp only [nextBackward, if_neg hc]

/-- The order by two searches: one that finishes the capsules, and one back from each of them. -/
def twoPassOrder (g : DependencyGraph) : Except CapsuleId (List CapsuleId) := do
  let done ← g.finishRoots g.nodes g.nodes []
  match g.secondPass [] done.reverse with
  | some id => .error id
  | none => .ok done

theorem order_eq_twoPassOrder (hg : g.Sound) : g.order = g.twoPassOrder := by
  rcases (FinishSearch.start g).runRoots hg (fun _ h => h) with ⟨order, hrun, h⟩ | ⟨id, hrun, -⟩
  · have hnd : order.Nodup := by simpa [schedule, path] using h.nodup_schedule hg
    have hpass : g.secondPass [] order.reverse = g.lateConsumer? [] order.reverse :=
      g.secondPass_eq (by simpa using hnd)
    cases hlate : g.lateConsumer? [] order.reverse <;>
      simp [DependencyGraph.order, twoPassOrder, hrun, bind, Except.bind, hpass, hlate]
  · simp only [DependencyGraph.order, twoPassOrder, hrun, bind, Except.bind]

/-! ### Conclusions -/

/-- Either the order is found and every reference points backwards in it, or a capsule on a cycle is named. -/
theorem order_cases (hg : g.Sound) :
    (∃ order, g.order = .ok order ∧ order.Perm g.nodes ∧ ∀ a b, g.Refers a b → List.Sublist [b, a] order) ∨
      ∃ id, g.order = .error id ∧ TransGen g.Refers id id := by
  rcases (FinishSearch.start g).runRoots hg (fun _ h => h) with ⟨order, hrun, h⟩ | ⟨id, hrun, hself⟩
  · have hperm : order.Perm g.nodes := by simpa [schedule, path] using h.perm
    have hnd : order.Nodup := hperm.nodup_iff.2 hg.nodup_nodes
    cases hlate : g.lateConsumer? [] order.reverse with
    | none =>
      refine .inl ⟨order, by simp [DependencyGraph.order, hrun, hlate, bind, Except.bind], hperm, fun a b hab => ?_⟩
      have hends := hg.ends_mem _ hab
      have hb : b ∈ order.reverse := List.mem_reverse.2 (hperm.mem_iff.2 hends.2)
      rcases before_of_lateConsumer?_eq_none hlate hb hab with hseen | rfl | hsub
      · exact absurd hseen List.not_mem_nil
      · exact absurd hab (h.irreflexive a (by simpa [schedule, path] using hb))
      · simpa using hsub.reverse
    | some c =>
      refine .inr ⟨c, by simp [DependencyGraph.order, hrun, hlate, bind, Except.bind], ?_⟩
      obtain ⟨-, id, before, behind, hsplit, hedge, hne, hbefore⟩ := split_of_lateConsumer?_eq_some hlate
      have hc : c ∈ order := hperm.mem_iff.2 (hg.ends_mem _ hedge).1
      have horder : order = behind.reverse ++ id :: before.reverse := by
        simpa using congrArg List.reverse hsplit
      have hbehind : c ∈ behind.reverse := by
        rw [horder] at hc
        simpa [hne, hbefore] using hc
      have hsub : List.Sublist [c, id] order := by
        rw [horder]
        exact (List.singleton_sublist.2 hbehind).append (List.singleton_sublist.2 List.mem_cons_self)
      -- `id` is left after `c`, so the reference to it leads back
      have hback := (h.settled_done hc hedge).resolve_left (not_before_of_before hnd hsub)
      exact TransGen.head' hedge hback
  · exact .inr ⟨id, by simp [DependencyGraph.order, hrun, bind, Except.bind], .single hself⟩

/-- No chain is reported exactly where there is no cycle. -/
theorem findCycles_eq_nil_iff (hg : g.Sound) : g.findCycles = [] ↔ g.Acyclic := by
  obtain ⟨order, h⟩ := CycleSearch.whole hg
  constructor
  · intro hnil
    have hacyclic := h.acyclic_without hg
    rw [hnil] at hacyclic
    simpa [without, Acyclic] using hacyclic
  · intro hacyclic
    refine List.eq_nil_iff_forall_not_mem.2 fun chain hchain => ?_
    obtain ⟨first, others, rfl, -, hwalk⟩ := h.simple hg hchain
    exact hacyclic first (transGen_of_isChain hwalk)

theorem order?_isSome_iff (hg : g.Sound) : g.order?.isSome ↔ g.Acyclic := by
  unfold order?
  rcases order_cases hg with ⟨order, hok, hperm, hbefore⟩ | ⟨id, herror, hcycle⟩
  · rw [hok]
    exact iff_of_true rfl (acyclic_of_before (hperm.nodup_iff.2 hg.nodup_nodes) hbefore)
  · rw [herror]
    exact iff_of_false Bool.false_ne_true fun hacyclic => hacyclic id hcycle

/-- **The order of the capsules.**  It is that of the two searches, and there is one exactly where no chain is
reported; it has every capsule once and each provider in front of its consumers.  Without one, the error names a
capsule on a cycle. -/
theorem resolveOrder_agrees_findCycles (steps : List Step) :
    (build steps).order = (build steps).twoPassOrder ∧
    ((∃ order, (build steps).resolveOrder = .ok order) ↔ (build steps).findCycles = []) ∧
    match (build steps).resolveOrder with
    | .ok order => order.Perm (build steps).nodes ∧ ∀ consumer provider,
        (build steps).Refers consumer provider → order.idxOf provider < order.idxOf consumer
    | .error e => ∃ id, e = .invalidComposition (.noDependencyOrder id) ∧ e.affected = [id.text] ∧
        TransGen (build steps).Refers id id := by
  have hg := sound_build steps
  refine ⟨order_eq_twoPassOrder hg, ?_⟩
  rw [findCycles_eq_nil_iff hg]
  rcases order_cases hg with ⟨order, hok, hperm, hbefore⟩ | ⟨id, herror, hcycle⟩
  · have hnd : order.Nodup := hperm.nodup_iff.2 hg.nodup_nodes
    have hresolve : (build steps).resolveOrder = .ok order := by rw [resolveOrder, hok]; rfl
    rw [hresolve]
    exact ⟨⟨fun _ => acyclic_of_before hnd hbefore, fun _ => ⟨order, rfl⟩⟩, hperm,
      fun a b hab => idxOf_lt_of_before hnd (hbefore a b hab)⟩
  · have hresolve : (build steps).resolveOrder = .error (.invalidComposition (.noDependencyOrder id)) := by
      rw [resolveOrder, herror]; rfl
    rw [hresolve]
    exact ⟨⟨fun ⟨_, h⟩ => (nomatch h), fun hacyclic => absurd hcycle (hacyclic id)⟩, id, rfl, rfl, hcycle⟩

/-- A provider that is reached on two ways stands in front of both. -/
example : (build [.dependency ⟨"a"⟩ ⟨"b"⟩, .dependency ⟨"a"⟩ ⟨"c"⟩, .dependency ⟨"b"⟩ ⟨"d"⟩,
    .dependency ⟨"c"⟩ ⟨"d"⟩]).order? = some [⟨"d"⟩, ⟨"b"⟩, ⟨"c"⟩, ⟨"a"⟩] := by
  cbv

end CapsuleCompiler.DependencyGraph
