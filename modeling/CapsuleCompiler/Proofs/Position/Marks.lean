import CapsuleCompiler.Proofs.Graph.CycleSearch
import Mathlib.Data.List.Perm.Subperm

/-!
# Proofs.Position.Marks — the search for cycles with numbered capsules

The search for cycles can be made with the numbers of the capsules: a table has a mark for each, a stack has the numbers
of the path, and both are asked at positions.  The table has a place for each capsule of the graph, and what a reference
leads to is a capsule of the graph, so no position is outside; and the marks say of a capsule what the sets of
`searchCycles` say of it (`Tracks`), so the cycles are the same.  A capsule is entered once, so as many calls within one
another as there are capsules suffice.
-/

namespace CapsuleCompiler.DependencyGraph

/-! ### The search with numbers -/

inductive Mark
  | unvisited
  | onStack
  | done
deriving DecidableEq

structure Walk where
  marks : List Mark
  stack : List Nat
  found : List (List CapsuleId)

/-- Marks a capsule that the table has a place for. -/
def Walk.setMark? (w : Walk) (node : Nat) (mark : Mark) : Option Walk :=
  if node < w.marks.length then some { w with marks := w.marks.set node mark } else none

/-- Marks a capsule that is entered, and puts it on the stack. -/
def Walk.enter? (w : Walk) (node : Nat) : Option Walk :=
  (w.setMark? node .onStack).map fun w => { w with stack := w.stack ++ [node] }

/-- Takes the last capsule off the stack, and marks the capsule that is left. -/
def Walk.leave? (w : Walk) (node : Nat) : Option Walk :=
  Walk.setMark? { w with stack := w.stack.dropLast } node .done

/-- What is behind a position of a list, from it on. -/
def dropFrom? (stack : List Nat) (start : Nat) : Option (List Nat) :=
  if start ≤ stack.length then some (stack.drop start) else none

/-- What a capsule references, in the order of the references. -/
def successorsAt (g : DependencyGraph) (node : Nat) : List Nat :=
  match g.nodes[node]? with
  | none => []
  | some id => (g.successors id).map g.indexOf

/-- The stack from a position on, closed by a capsule, with the capsules in the place of their numbers. -/
def chainAt? (g : DependencyGraph) (stack : List Nat) (start next : Nat) : Option (List CapsuleId) := do
  ((← dropFrom? stack start) ++ [next]).mapM (g.nodes[·]?)

/-- Follows a reference, where `visit` enters a capsule. -/
def followAt? (g : DependencyGraph) (visit : Nat → Walk → Option Walk) (w : Walk) (next : Nat) : Option Walk := do
  match ← w.marks[next]? with
  | .unvisited => visit next w
  | .onStack =>
    match w.stack.idxOf? next with
    | none => return w
    | some start => return { w with found := w.found ++ [← g.chainAt? w.stack start next] }
  | .done => return w

/-- Enters a capsule, with room for so many calls within one another. -/
def visitAt? (g : DependencyGraph) : Nat → Nat → Walk → Option Walk
  | 0, _, _ => none
  | depth + 1, node, w => do
    let w ← w.enter? node
    let w ← (g.successorsAt node).foldlM (g.followAt? (visitAt? g depth)) w
    w.leave? node

/-- Enters a root that has not been visited. -/
def rootAt? (g : DependencyGraph) (w : Walk) (root : Nat) : Option Walk := do
  if (← w.marks[root]?) = .unvisited then g.visitAt? g.nodes.length root w else return w

def findCyclesAt? (g : DependencyGraph) : Option (List (List CapsuleId)) :=
  ((List.range g.nodes.length).foldlM g.rootAt? ⟨.replicate g.nodes.length .unvisited, [], []⟩).map Walk.found

/-! ### Numbers -/

variable {g : DependencyGraph} {w : Walk} {fresh trail : List CapsuleId} {frames : List Frame} {id next : CapsuleId}
  {rest : List CapsuleId}

theorem getElem?_indexOf (h : id ∈ g.nodes) : g.nodes[g.indexOf id]? = some id := List.getElem?_idxOf h

theorem indexOf_inj (h : id ∈ g.nodes) : g.indexOf id = g.indexOf next ↔ id = next := List.idxOf_inj h

theorem map_indexOf_nodes (hg : g.Sound) : g.nodes.map g.indexOf = List.range g.nodes.length := by
  refine List.ext_getElem (by simp) fun n h _ => ?_
  rw [List.getElem_map, List.getElem_range]
  exact hg.nodup_nodes.idxOf_getElem n _

theorem mapM_map_indexOf {ids : List CapsuleId} (h : ids ⊆ g.nodes) :
    (ids.map g.indexOf).mapM (g.nodes[·]?) = some ids := by
  induction ids with
  | nil => rfl
  | cons id ids ih =>
    rw [List.map_cons, List.mapM_cons, getElem?_indexOf (h List.mem_cons_self),
      ih fun a ha => h (List.mem_cons_of_mem _ ha)]
    rfl

theorem successorsAt_indexOf (h : id ∈ g.nodes) : g.successorsAt (g.indexOf id) = (g.successors id).map g.indexOf := by
  rw [successorsAt, getElem?_indexOf h]

theorem idxOf?_append_cons {before : List Nat} {n : Nat} (h : n ∉ before) (behind : List Nat) :
    (before ++ n :: behind).idxOf? n = some before.length := by
  rw [List.idxOf?, List.findIdx?_append, ← List.idxOf?, List.idxOf?_eq_none_iff.2 h]
  simp [List.idxOf?_cons]

/-- A table over the capsules, with the value of one of them set. -/
theorem set_map_nodes {α : Type} (hg : g.Sound) {f f' : CapsuleId → α}
    (h : ∀ other, other ≠ id → f' other = f other) :
    (g.nodes.map f).set (g.indexOf id) (f' id) = g.nodes.map f' := by
  refine List.ext_getElem (by simp) fun n hn _ => ?_
  rw [List.getElem_set, List.getElem_map, List.getElem_map]
  split
  · next heq =>
    subst heq
    exact congrArg f' (List.getElem_idxOf _).symm
  · next hne =>
    refine (h _ fun heq => hne ?_).symm
    rw [← heq]
    exact hg.nodup_nodes.idxOf_getElem n _

/-! ### What the marks say -/

/-- The mark of a capsule. -/
def markOf (fresh path : List CapsuleId) (id : CapsuleId) : Mark :=
  if id ∈ fresh then .unvisited else if id ∈ path then .onStack else .done

/-- A walk has come where the search has that still has to meet `fresh` and is at the end of `path`. -/
structure Tracks (g : DependencyGraph) (w : Walk) (fresh path : List CapsuleId) : Prop where
  marks : w.marks = g.nodes.map (markOf fresh path)
  stack : w.stack = path.reverse.map g.indexOf
  nodup : (fresh ++ path).Nodup
  subset : fresh ++ path ⊆ g.nodes

namespace Tracks

theorem start (hg : g.Sound) : Tracks g ⟨.replicate g.nodes.length .unvisited, [], []⟩ g.nodes [] where
  marks := by
    refine (List.map_eq_replicate_iff.2 fun id hid => ?_).symm
    rw [markOf, if_pos hid]
  stack := rfl
  nodup := by rw [List.append_nil]; exact hg.nodup_nodes
  subset := by simp

theorem getElem?_marks (h : Tracks g w fresh trail) (hid : id ∈ g.nodes) :
    w.marks[g.indexOf id]? = some (markOf fresh trail id) := by
  rw [h.marks, List.getElem?_map, getElem?_indexOf hid]
  rfl

/-- A capsule has a place in the table, and marking it leaves the marks of the others. -/
theorem setMark?_eq (hg : g.Sound) (h : Tracks g w fresh trail) (hid : id ∈ g.nodes) (fresh' trail' : List CapsuleId)
    {mark : Mark} (hmark : markOf fresh' trail' id = mark)
    (hother : ∀ other, other ≠ id → markOf fresh' trail' other = markOf fresh trail other) (stack : List Nat) :
    Walk.setMark? { w with stack := stack } (g.indexOf id) mark =
      some ⟨g.nodes.map (markOf fresh' trail'), stack, w.found⟩ := by
  have hlt : g.indexOf id < w.marks.length := by
    rw [h.marks, List.length_map]
    exact List.idxOf_lt_length_of_mem hid
  rw [Walk.setMark?, if_pos hlt, h.marks, ← hmark, set_map_nodes hg hother]

theorem enter (hg : g.Sound) (h : Tracks g w fresh trail) (hid : id ∈ fresh) :
    ∃ w', w.enter? (g.indexOf id) = some w' ∧ w'.found = w.found ∧ Tracks g w' (fresh.erase id) (id :: trail) := by
  have hperm : (fresh.erase id ++ id :: trail).Perm (fresh ++ trail) :=
    List.perm_middle.trans ((List.perm_cons_erase hid).symm.append_right trail)
  have hnot : id ∉ fresh.erase id := (List.nodup_append.1 h.nodup).1.not_mem_erase
  have hmark : markOf (fresh.erase id) (id :: trail) id = .onStack := by
    rw [markOf, if_neg hnot, if_pos List.mem_cons_self]
  have hother (other : CapsuleId) (hne : other ≠ id) :
      markOf (fresh.erase id) (id :: trail) other = markOf fresh trail other := by
    simp [markOf, List.mem_erase_of_ne hne, hne]
  have hset := h.setMark?_eq hg (h.subset (List.mem_append_left _ hid)) _ _ hmark hother w.stack
  refine ⟨_, congrArg (Option.map _) hset, rfl, rfl, ?_, hperm.nodup_iff.2 h.nodup,
    fun a ha => h.subset (hperm.subset ha)⟩
  show w.stack ++ [g.indexOf id] = _
  rw [h.stack]
  simp

theorem leave (hg : g.Sound) (h : Tracks g w fresh (id :: trail)) :
    ∃ w', w.leave? (g.indexOf id) = some w' ∧ w'.found = w.found ∧ Tracks g w' fresh trail := by
  have hsub : List.Sublist (fresh ++ trail) (fresh ++ id :: trail) :=
    (List.Sublist.refl _).append (List.sublist_cons_self ..)
  have hnot : id ∉ fresh ++ trail := (List.nodup_cons.1 (List.perm_middle.nodup_iff.1 h.nodup)).1
  rw [List.mem_append, not_or] at hnot
  have hmark : markOf fresh trail id = .done := by rw [markOf, if_neg hnot.1, if_neg hnot.2]
  have hother (other : CapsuleId) (hne : other ≠ id) : markOf fresh trail other = markOf fresh (id :: trail) other := by
    simp [markOf, hne]
  have hmem : id ∈ g.nodes := h.subset (List.mem_append_right _ List.mem_cons_self)
  have hset := h.setMark?_eq hg hmem _ _ hmark hother w.stack.dropLast
  refine ⟨_, hset, rfl, rfl, ?_, hsub.nodup h.nodup, fun a ha => h.subset (hsub.subset ha)⟩
  show w.stack.dropLast = _
  rw [h.stack]
  simp

/-- A capsule of the path is on the stack, and the stack from there on closes the same chain. -/
theorem close (h : Tracks g w fresh (path frames)) (hnext : next ∈ path frames) :
    ∃ start, w.stack.idxOf? (g.indexOf next) = some start ∧
      g.chainAt? w.stack start (g.indexOf next) = some (closeCycle next frames) := by
  obtain ⟨inner, outer, hpath, hclose⟩ := path_split hnext
  have hsub : path frames ⊆ g.nodes := fun a ha => h.subset (List.mem_append_right _ ha)
  have hstack : w.stack = outer.reverse.map g.indexOf ++ g.indexOf next :: inner.reverse.map g.indexOf := by
    rw [h.stack, hpath]
    simp
  -- the path has each capsule once, so the first place of the number is that of the capsule
  have hnot : g.indexOf next ∉ outer.reverse.map g.indexOf := fun hmem => by
    obtain ⟨a, ha, heq⟩ := List.mem_map.1 hmem
    have hnd := (List.nodup_append.1 h.nodup).2.1
    rw [hpath] at hnd
    have hne := (List.nodup_cons.1 (List.nodup_append.1 hnd).2.1).1
    rw [← (indexOf_inj (hsub hnext)).1 heq.symm] at ha
    exact hne (List.mem_reverse.1 ha)
  refine ⟨_, by rw [hstack, idxOf?_append_cons hnot], ?_⟩
  have hchain : next :: inner.reverse ++ [next] ⊆ g.nodes := fun a ha => by
    refine hsub ?_
    rw [hpath]
    simp only [List.mem_append, List.mem_cons, List.mem_reverse, List.not_mem_nil, or_false] at ha ⊢
    tauto
  rw [chainAt?, dropFrom?, hstack, if_pos (by simp), List.drop_left, Option.bind_eq_bind, Option.bind_some, hclose,
    ← mapM_map_indexOf hchain]
  simp

end Tracks

/-! ### One search and the other -/

/-- The walk has a result, and this tracks the search at the frames from which it goes on. -/
def Ends (g : DependencyGraph) (result : Option Walk) (fresh trail : List CapsuleId) (frames : List Frame)
    (search : List CapsuleId × List (List CapsuleId)) : Prop :=
  ∃ w fresh', result = some w ∧ Tracks g w fresh' trail ∧ fresh'.Sublist fresh ∧
    search = g.searchCycles fresh' frames w.found

/-- Entering a capsule that has not been met does what the search does with it, while no more than `depth` of them are
left. -/
def Visits (g : DependencyGraph) (depth : Nat) (visit : Nat → Walk → Option Walk) : Prop :=
  ∀ (w : Walk) (fresh : List CapsuleId) (frames : List Frame) (next : CapsuleId), Tracks g w fresh (path frames) →
    next ∈ fresh → fresh.length ≤ depth →
    Ends g (visit (g.indexOf next) w) fresh (path frames) frames
      (g.searchCycles (fresh.erase next) ((next, g.successors next) :: frames) w.found)

variable {depth : Nat} {visit : Nat → Walk → Option Walk}

/-- The mark of the next capsule decides as the sets do. -/
theorem ends_followAt? (hvisit : g.Visits depth visit) (rest : List CapsuleId)
    (h : Tracks g w fresh (path ((id, rest) :: frames)))
    (hnext : next ∈ g.nodes) (hdepth : fresh.length ≤ depth) :
    Ends g (g.followAt? visit w (g.indexOf next)) fresh (path ((id, rest) :: frames)) ((id, rest) :: frames)
      (g.searchCycles fresh ((id, next :: rest) :: frames) w.found) := by
  rw [followAt?, h.getElem?_marks hnext, Option.bind_eq_bind, Option.bind_some, searchCycles, markOf]
  by_cases hfresh : next ∈ fresh
  · rw [if_pos hfresh, if_pos hfresh]
    exact hvisit w fresh _ next h hfresh hdepth
  · rw [if_neg hfresh, if_neg hfresh]
    by_cases hpath : next ∈ path ((id, rest) :: frames)
    · obtain ⟨start, hstart, hchain⟩ := h.close hpath
      rw [if_pos hpath, if_pos hpath]
      simp only [hstart, hchain, Option.pure_def]
      exact ⟨_, fresh, rfl, ⟨h.marks, h.stack, h.nodup, h.subset⟩, .refl _, rfl⟩
    · rw [if_neg hpath, if_neg hpath]
      exact ⟨w, fresh, rfl, h, .refl _, rfl⟩

theorem ends_foldlM (hvisit : g.Visits depth visit) (rest : List CapsuleId)
    (h : Tracks g w fresh (path ((id, rest) :: frames))) (hrest : rest ⊆ g.nodes) (hdepth : fresh.length ≤ depth) :
    Ends g ((rest.map g.indexOf).foldlM (g.followAt? visit) w) fresh (id :: path frames) frames
      (g.searchCycles fresh ((id, rest) :: frames) w.found) := by
  induction rest generalizing w fresh with
  | nil => exact ⟨w, fresh, rfl, h, .refl _, by rw [searchCycles]⟩
  | cons next rest ih =>
    obtain ⟨w', fresh', hstep, htracks, hsub, hsearch⟩ :=
      ends_followAt? hvisit rest h (hrest List.mem_cons_self) hdepth
    obtain ⟨w'', fresh'', hrun, htracks', hsub', hsearch'⟩ :=
      ih htracks (fun a ha => hrest (List.mem_cons_of_mem _ ha)) (hsub.length_le.trans hdepth)
    refine ⟨w'', fresh'', ?_, htracks', hsub'.trans hsub, hsearch.trans hsearch'⟩
    rw [List.map_cons, List.foldlM_cons, hstep]
    exact hrun

/-- Every visit does, as it has one capsule less to meet than the call around it. -/
theorem visits_visitAt? (hg : g.Sound) : ∀ depth, g.Visits depth (g.visitAt? depth)
  | 0 => fun w fresh frames next _ hnext hdepth => by
    -- with no room left all capsules have been met
    have := List.length_pos_of_mem hnext
    omega
  | depth + 1 => fun w fresh frames next h hnext hdepth => by
    obtain ⟨w₁, henter, hfound₁, h₁⟩ := h.enter hg hnext
    have hlen : (fresh.erase next).length ≤ depth := by
      rw [List.length_erase_of_mem hnext]
      omega
    have hsucc : g.successors next ⊆ g.nodes := fun a ha => (hg.ends_mem _ (mem_successors.1 ha)).2
    obtain ⟨w₂, fresh', hfold, h₂, hsub, hsearch⟩ :=
      ends_foldlM (visits_visitAt? hg depth) (g.successors next) h₁ hsucc hlen
    obtain ⟨w₃, hleave, hfound₃, h₃⟩ := h₂.leave hg
    refine ⟨w₃, fresh', ?_, h₃, hsub.trans List.erase_sublist, ?_⟩
    · rw [visitAt?, henter, successorsAt_indexOf (h.subset (List.mem_append_left _ hnext)), Option.bind_eq_bind,
        Option.bind_some, hfold]
      exact hleave
    · rw [← hfound₁, hsearch, hfound₃]

/-! ### From all roots -/

theorem Tracks.length_le (h : Tracks g w fresh trail) : fresh.length ≤ g.nodes.length :=
  (List.subperm_of_subset (List.nodup_append.1 h.nodup).1 fun _ ha =>
    h.subset (List.mem_append_left _ ha)).length_le

theorem foldlM_rootAt? (hg : g.Sound) {roots : List CapsuleId} (hroots : roots ⊆ g.nodes) (h : Tracks g w fresh []) :
    ((roots.map g.indexOf).foldlM g.rootAt? w).map Walk.found = some (g.searchRoots roots fresh w.found) := by
  induction roots generalizing w fresh with
  | nil => rfl
  | cons root roots ih =>
    have hmark := h.getElem?_marks (hroots List.mem_cons_self)
    have hrest : roots ⊆ g.nodes := fun a ha => hroots (List.mem_cons_of_mem _ ha)
    rw [List.map_cons, List.foldlM_cons, rootAt?, hmark, searchRoots, markOf]
    by_cases hroot : root ∈ fresh
    · obtain ⟨w', fresh', hvisit, h', -, hsearch⟩ :=
        visits_visitAt? hg g.nodes.length w fresh [] root h hroot h.length_le
      simp only [searchCycles] at hsearch
      simp only [hroot, if_true, hvisit, hsearch, Option.bind_eq_bind, Option.bind_some]
      exact ih hrest h'
    · simp only [hroot, if_false, Option.bind_eq_bind, Option.bind_some]
      exact ih hrest h

/-- **Every position is inside** in the search for cycles, and it finds the cycles. -/
theorem findCyclesAt?_eq (hg : g.Sound) : g.findCyclesAt? = some g.findCycles := by
  rw [findCyclesAt?, ← map_indexOf_nodes hg]
  exact foldlM_rootAt? hg (fun _ h => h) (Tracks.start hg)

end CapsuleCompiler.DependencyGraph
