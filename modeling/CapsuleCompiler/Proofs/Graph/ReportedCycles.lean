import CapsuleCompiler.Proofs.Graph.CycleSearch
import CapsuleCompiler.Proofs.Graph.FirstPath
import Mathlib.Data.List.Cycle

/-!
# Proofs.Graph.ReportedCycles — which cycles are reported

A chain is reported when a reference leads from the inner end of the path back into the path, and the path is the
first one to its inner end.  So an elementary cycle is reported exactly if it is the end of the first path to one of
its capsules: the search then stands at that capsule with the whole cycle on its path.  A cycle of which the search
has left a part before it comes to the rest is not reported.

`TreeSearch` adds to the invariant of the search that its frames are guided, that every capsule met has its first
path among the capsules left later, and that every chain found is traced along a first path.
-/

namespace CapsuleCompiler.DependencyGraph

open Relation

variable {g : DependencyGraph} {roots fresh done : List CapsuleId} {frames : List Frame}
  {found : List (List CapsuleId)} {id next : CapsuleId} {rest : List CapsuleId} {c : Cycle CapsuleId}

/-! ### Cycles -/

/-- A cycle of references that meets each of its capsules once. -/
structure Elementary (g : DependencyGraph) (c : Cycle CapsuleId) : Prop where
  ne_nil : c ≠ .nil
  nodup : c.Nodup
  linked : c.Chain g.Refers

/-- The cycle goes from `a` to `b`: read from `b` on it ends with `a`. -/
def Takes (c : Cycle CapsuleId) (a b : CapsuleId) : Prop :=
  ∃ others : List CapsuleId, c = ↑(b :: others) ∧ (b :: others).getLast? = some a

/-- How often a cycle is reported, wherever the chain begins. -/
def reports (g : DependencyGraph) (c : Cycle CapsuleId) : Nat :=
  g.findCycles.countP fun chain => (chain.dropLast : Cycle CapsuleId) = c

/-- Read from the right capsule on, the cycle is the end of the first path to its last capsule. -/
def OnFirstPath (g : DependencyGraph) (c : Cycle CapsuleId) : Prop :=
  ∃ inner outer : List CapsuleId, c = ↑inner.reverse ∧ g.FirstPath (inner ++ outer)

/-- A chain that goes along the end of a first path and back to where it began. -/
def Traced (g : DependencyGraph) (chain : List CapsuleId) : Prop :=
  ∃ inner first outer, chain = first :: inner.reverse ++ [first] ∧ g.FirstPath (inner ++ first :: outer)

theorem closingEdge?_eq_some_iff {inner : List CapsuleId} {first a b : CapsuleId} :
    closingEdge? (first :: inner.reverse ++ [first]) = some (a, b) ↔
      b = first ∧ (inner ++ [first]).head? = some a := by
  have hreverse : (first :: inner.reverse ++ [first]).reverse = first :: (inner ++ [first]) := by simp
  rw [closingEdge?, hreverse]
  cases inner <;> simp [and_comm, eq_comm]

theorem takes_of_infix {first a b : CapsuleId} {others : List CapsuleId} (h : [a, b] <:+: first :: others ++ [first]) :
    Takes ↑(first :: others) a b := by
  obtain ⟨before, behind, heq⟩ := h
  rcases List.eq_nil_or_concat' behind with rfl | ⟨behind, z, rfl⟩
  · have heq : (before ++ [a]) ++ [b] = first :: others ++ [first] := by simpa using heq
    obtain ⟨hbefore, hb⟩ := List.append_inj' heq rfl
    obtain rfl : b = first := by simpa using hb
    exact ⟨others, rfl, by rw [← hbefore]; simp⟩
  · have heq : (before ++ [a] ++ b :: behind) ++ [z] = first :: others ++ [first] := by simpa using heq
    rw [← (List.append_inj' heq rfl).1]
    exact ⟨behind ++ (before ++ [a]), Cycle.coe_eq_coe.2 List.isRotated_append, by simp [List.getLast?_cons]⟩

theorem exists_cons_of_head? {inner : List CapsuleId} {first last : CapsuleId}
    (h : (inner ++ [first]).head? = some last) (outer : List CapsuleId) :
    ∃ before, inner ++ first :: outer = last :: before := by
  cases inner with
  | nil => exact ⟨outer, by simpa using h⟩
  | cons b inner => exact ⟨inner ++ first :: outer, by simpa using h⟩

theorem countP_le_one {α : Type} {p : α → Bool} {xs : List α} (h : xs.Pairwise fun a b => p a → ¬ p b) :
    xs.countP p ≤ 1 := by
  induction h with
  | nil => simp
  | @cons a xs ha _ ih =>
    rw [List.countP_cons]
    by_cases hp : p a
    · have hzero : xs.countP p = 0 := List.countP_eq_zero.2 fun b hb => ha b hb hp
      simp [hzero, hp]
    · simpa [hp] using ih

/-! ### The invariant -/

structure TreeSearch (g : DependencyGraph) (roots fresh done : List CapsuleId) (frames : List Frame)
    (found : List (List CapsuleId)) : Prop extends CycleSearch g fresh done frames found where
  guided : Guided g roots fresh [] frames
  reached : ∀ a ∈ schedule done frames, ∃ before, g.FirstPath (a :: before) ∧
    List.Sublist (a :: before) (schedule done frames)
  traced : ∀ chain ∈ found, g.Traced chain

/-- A capsule that was left references none that is not met. -/
theorem CycleSearch.notMem_fresh_of_refers (hg : g.Sound) (h : CycleSearch g fresh done frames found)
    {a b : CapsuleId} (ha : a ∈ done) (hab : g.Refers a b) : b ∉ fresh := by
  have hmem : a ∈ schedule done frames := List.mem_append_left _ ha
  rcases h.settled a hmem b hab with hbefore | ⟨chain, hchain, hclosing⟩ | ⟨rest, hf, -⟩
  · exact h.notMem_fresh hg (hbefore.subset (by simp))
  · obtain ⟨-, first, others, rfl, hsub⟩ := h.chains chain hchain
    have hfirst : first = b := by
      cases hrev : (first :: others).reverse with
      | nil => simp at hrev
      | cons => simp_all [closingEdge?]
    exact h.notMem_fresh hg (hsub.subset (by simp [hfirst]))
  · exact absurd rfl ((List.nodup_append.1 (h.nodup_schedule hg)).2.2 a ha a (mem_path_of_mem hf))

/-- From what is met nothing that is not met can be reached past the path. -/
theorem CycleSearch.not_reachesPast (hg : g.Sound) (h : CycleSearch g fresh done frames found) {a : CapsuleId}
    (ha : a ∈ schedule done frames) : ∀ v ∈ fresh, ¬ g.ReachesPast (path frames) a v := by
  rintro v hv ⟨hout, hwalk⟩
  have hdone : v ∈ done := by
    clear hv
    induction hwalk with
    | refl => exact (List.mem_append.1 ha).resolve_right hout
    | tail _ hxy ih =>
      rcases h.mem_of_refers hg hxy.1 with hfresh | hdone | hpath
      · exact absurd hfresh (h.notMem_fresh_of_refers hg ih hxy.1)
      · exact hdone
      · exact absurd hpath hxy.2
  exact h.notMem_fresh hg (List.mem_append_left _ hdone) hv

namespace TreeSearch

theorem start (g : DependencyGraph) : TreeSearch g g.nodes g.nodes [] [] [] :=
  ⟨.start g, .start g, by simp [schedule, path], by simp⟩

theorem leave (hg : g.Sound) (h : TreeSearch g roots fresh done ((id, []) :: frames) found) :
    TreeSearch g roots fresh (done ++ [id]) frames found := by
  have hs := schedule_cons done id [] frames
  refine ⟨h.toCycleSearch.leave, h.guided.leave ?_, hs ▸ h.reached, h.traced⟩
  exact h.notMem_fresh hg (by simp [schedule])

theorem skip (hg : g.Sound) (h : TreeSearch g roots fresh done ((id, next :: rest) :: frames) found)
    (hfresh : next ∉ fresh) (hpath : next ∉ path ((id, rest) :: frames)) :
    TreeSearch g roots fresh done ((id, rest) :: frames) found := by
  have hskip := h.toCycleSearch.skip hg hfresh hpath
  have hmem : next ∈ schedule done ((id, rest) :: frames) := by
    have hedge : g.Refers id next := h.follows _ List.mem_cons_self next List.mem_cons_self
    rcases h.mem_of_refers hg hedge with hn | hn | hn
    · exact absurd hn hfresh
    · exact List.mem_append_left _ hn
    · exact List.mem_append_right _ hn
  have hentered : Guided g roots fresh [next] ((id, rest) :: frames) := h.guided
  exact ⟨hskip, hentered.pass (hskip.not_reachesPast hg hmem), h.reached, h.traced⟩

/-- The path is the first one to the capsule at its inner end. -/
theorem firstPath (hg : g.Sound) (h : TreeSearch g roots fresh done ((id, rest) :: frames) found) :
    g.FirstPath (path ((id, rest) :: frames)) :=
  h.guided.2.leadsTo (List.nodup_append.1 (h.nodup_schedule hg)).2.1 List.mem_cons_self

theorem report (hg : g.Sound) (h : TreeSearch g roots fresh done ((id, next :: rest) :: frames) found)
    (hpath : next ∈ path ((id, rest) :: frames)) :
    TreeSearch g roots fresh done ((id, rest) :: frames) (found ++ [closeCycle next ((id, rest) :: frames)]) := by
  have hentered : Guided g roots fresh [next] ((id, rest) :: frames) := h.guided
  refine ⟨h.toCycleSearch.report hg hpath, hentered.pass fun v _ hreach => hreach.1 hpath, h.reached, ?_⟩
  intro chain hchain
  rcases List.mem_append.1 hchain with hchain | hchain
  · exact h.traced chain hchain
  · rw [List.mem_singleton.1 hchain]
    obtain ⟨inner, outer, hsplit, hclose⟩ := path_split hpath
    have hfirst : g.FirstPath (path ((id, next :: rest) :: frames)) := h.firstPath hg
    rw [path_cons, ← path_cons (id, rest), hsplit] at hfirst
    exact ⟨inner, next, outer, hclose, hfirst⟩

/-- A root, or the next reference of the current capsule, is entered. -/
theorem enter (hg : g.Sound) (h : CycleSearch g (fresh.erase next) done ((next, g.successors next) :: frames) found)
    (hnext : next ∈ fresh) (hguided : Guided g roots fresh [next] frames)
    (hreached : ∀ a ∈ schedule done frames, ∃ before, g.FirstPath (a :: before) ∧
      List.Sublist (a :: before) (schedule done frames))
    (htraced : ∀ chain ∈ found, g.Traced chain) :
    TreeSearch g roots (fresh.erase next) done ((next, g.successors next) :: frames) found := by
  have hsub := schedule_sublist_enter done (next, g.successors next) frames
  refine ⟨h, hguided.enter hnext, fun a ha => ?_, htraced⟩
  have hmem : a = next ∨ a ∈ schedule done frames := by
    simp only [schedule, path_cons, List.mem_append, List.mem_cons] at ha ⊢
    tauto
  rcases hmem with rfl | hmem
  · have hnd : (a :: path frames).Nodup := (List.nodup_append.1 (h.nodup_schedule hg)).2.1
    exact ⟨path frames, hguided.leadsTo hnd hnext, List.sublist_append_right ..⟩
  · obtain ⟨before, hfirst, hbefore⟩ := hreached a hmem
    exact ⟨before, hfirst, hbefore.trans hsub⟩

/-! ### Runs -/

theorem run (hg : g.Sound) (h : TreeSearch g roots fresh done frames found) :
    ∃ done', TreeSearch g roots (g.searchCycles fresh frames found).1 done' []
      (g.searchCycles fresh frames found).2 := by
  induction fresh, frames, found using searchCycles.induct g generalizing done with
  | case1 fresh found =>
    rw [searchCycles]
    exact ⟨done, h⟩
  | case2 fresh id frames found ih =>
    rw [searchCycles]
    exact ih (h.leave hg)
  | case3 fresh id next rest frames found hfresh ih =>
    rw [searchCycles, if_pos hfresh]
    have hguided : Guided g roots fresh [next] ((id, rest) :: frames) := h.guided
    exact ih (enter hg (h.toCycleSearch.follow hg hfresh) hfresh hguided h.reached h.traced)
  | case4 fresh id next rest frames found hfresh hpath ih =>
    rw [searchCycles, if_neg hfresh, if_pos hpath]
    exact ih (h.report hg hpath)
  | case5 fresh id next rest frames found hfresh hpath ih =>
    rw [searchCycles, if_neg hfresh, if_neg hpath]
    exact ih (h.skip hg hfresh hpath)

theorem runRoots (hg : g.Sound) (h : TreeSearch g roots fresh done [] found) :
    ∃ fresh' done', TreeSearch g [] fresh' done' [] (g.searchRoots roots fresh found) := by
  induction roots generalizing fresh done found with
  | nil => exact ⟨fresh, done, h⟩
  | cons root roots ih =>
    have hguided : Guided g roots fresh [root] [] := h.guided
    rw [searchRoots]
    split
    · next hroot =>
      have hentered := h.toCycleSearch.enter hg hroot (by simp [path])
      obtain ⟨done', hrun⟩ := (enter hg hentered hroot hguided h.reached h.traced).run hg
      exact ih hrun
    · next hroot =>
      have hmem : root ∈ schedule done [] := by
        have hnodes : root ∈ g.nodes := by
          obtain ⟨passed, hchoice, -⟩ := h.guided
          exact (show g.nodes = passed ++ root :: roots from hchoice) ▸ by simp
        exact (List.mem_append.1 (h.perm.mem_iff.2 hnodes)).resolve_left hroot
      exact ih ⟨h.toCycleSearch, hguided.pass (h.toCycleSearch.not_reachesPast hg hmem), h.reached, h.traced⟩

/-- What the whole search leaves behind: no capsule is left out. -/
theorem whole (hg : g.Sound) : ∃ order, TreeSearch g [] [] order [] g.findCycles := by
  obtain ⟨fresh, order, h⟩ := (start g).runRoots hg
  have hfresh : fresh = [] := by
    refine List.eq_nil_iff_forall_not_mem.2 fun v hv => ?_
    obtain ⟨passed, hchoice, hpassed⟩ := h.guided
    have hnodes : v ∈ g.choices [] := h.perm.mem_iff.1 (List.mem_append_left _ hv)
    exact hpassed v (by simpa [hchoice] using hnodes) v hv ⟨List.not_mem_nil, .refl⟩
  exact ⟨order, hfresh ▸ h⟩

/-! ### Conclusions -/

variable {order : List CapsuleId}

/-- A chain is an elementary cycle that takes the reference closing it. -/
theorem elementary (hg : g.Sound) (h : TreeSearch g [] [] order [] found) {chain : List CapsuleId}
    (hchain : chain ∈ found) : g.Elementary chain.dropLast := by
  obtain ⟨first, others, rfl, hnd, hlinked⟩ := h.toCycleSearch.simple hg hchain
  rw [List.dropLast_concat]
  exact ⟨by simp, hnd, by simpa using hlinked⟩

/-- A reference back into the first path of its capsule closes a chain, for the path is left from its inner end. -/
theorem closes_of_mem (hg : g.Sound) (h : TreeSearch g [] [] order [] found) {last first : CapsuleId}
    {before : List CapsuleId} (hpath : g.FirstPath (last :: before)) (hedge : g.Refers last first)
    (hmem : first ∈ last :: before) : Closes found last first := by
  have horder : last ∈ order := h.mem_order hg hedge
  have hnd : order.Nodup := h.nodup_order hg
  refine (h.settled_done horder hedge).resolve_left fun hearlier => ?_
  obtain ⟨before', hpath', hsub⟩ := h.reached last (by simpa [schedule, path] using horder)
  rw [hpath'.unique hpath, schedule, path, List.map_nil, List.append_nil] at hsub
  rcases List.mem_cons.1 hmem with rfl | hmem
  · exact List.nodup_iff_sublist.1 hnd first hearlier
  · exact not_before_of_before hnd (((List.singleton_sublist.2 hmem).cons_cons last).trans hsub) hearlier

/-- The first path to the end of a chain tells the chain. -/
theorem eq_of_closes (h : TreeSearch g [] [] order [] found) {last first : CapsuleId} {inner outer : List CapsuleId}
    (hpath : g.FirstPath (inner ++ first :: outer)) (hlast : (inner ++ [first]).head? = some last)
    (hcloses : Closes found last first) : first :: inner.reverse ++ [first] ∈ found := by
  obtain ⟨chain, hchain, hclosing⟩ := hcloses
  obtain ⟨inner', first', outer', rfl, hpath'⟩ := h.traced chain hchain
  have hends : first' = first ∧ (inner' ++ [first']).head? = some last := by
    obtain ⟨hfirst, hlast'⟩ := closingEdge?_eq_some_iff.1 hclosing
    exact ⟨hfirst.symm, hlast'⟩
  obtain ⟨rfl, hlast'⟩ := hends
  obtain ⟨before, hbefore⟩ := exists_cons_of_head? hlast outer
  obtain ⟨before', hbefore'⟩ := exists_cons_of_head? hlast' outer'
  have hsame : inner ++ first' :: outer = inner' ++ first' :: outer' := by
    rw [hbefore] at hpath
    rw [hbefore'] at hpath'
    rw [hbefore, hbefore', hpath.unique hpath']
  have hnd : first' ∉ inner' ++ outer' := by
    rw [hbefore'] at hpath'
    exact (List.nodup_cons.1 (List.nodup_middle.1 (hbefore' ▸ hpath'.nodup))).1
  rw [List.mem_append, not_or] at hnd
  obtain ⟨rfl, -, -⟩ := (List.append_cons_inj_of_notMem hnd.1 hnd.2).1 hsame.symm
  exact hchain

/-- A cycle is reported exactly if it lies on a first path. -/
theorem exists_report_iff (hg : g.Sound) (h : TreeSearch g [] [] order [] found) (hc : g.Elementary c) :
    (∃ chain ∈ found, (chain.dropLast : Cycle CapsuleId) = c) ↔ g.OnFirstPath c := by
  constructor
  · rintro ⟨chain, hchain, rfl⟩
    obtain ⟨inner, first, outer, rfl, hpath⟩ := h.traced chain hchain
    refine ⟨inner ++ [first], outer, ?_, by simpa using hpath⟩
    rw [List.dropLast_concat, List.reverse_append, List.reverse_singleton, List.singleton_append]
  · rintro ⟨inner, outer, rfl, hpath⟩
    -- the cycle is read from `first` to `last`
    obtain ⟨inner, first, rfl⟩ : ∃ inner' first, inner = inner' ++ [first] :=
      (List.eq_nil_or_concat' inner).resolve_left fun hnil => hc.ne_nil (by simp [hnil])
    obtain ⟨last, hlast⟩ : ∃ last, (inner ++ [first]).head? = some last := by cases inner <;> simp
    have hread : (inner ++ [first]).reverse = first :: inner.reverse := by simp
    have hedge : g.Refers last first := by
      have hlinked : (first :: inner.reverse ++ [first]).IsChain g.Refers :=
        (Cycle.chain_coe_cons _ first inner.reverse).1 (hread ▸ hc.linked)
      refine (List.isChain_append.1 hlinked).2.2 last ?_ first (by simp)
      rw [← hread, List.getLast?_reverse, hlast]
      rfl
    rw [List.append_assoc, List.singleton_append] at hpath
    obtain ⟨before, hbefore⟩ := exists_cons_of_head? hlast outer
    have hcloses : Closes found last first :=
      h.closes_of_mem hg (hbefore ▸ hpath) hedge (hbefore ▸ by simp)
    refine ⟨_, h.eq_of_closes hpath hlast hcloses, ?_⟩
    rw [List.dropLast_concat, hread]

theorem reports_le_one (hg : g.Sound) (h : TreeSearch g [] [] order [] g.findCycles) (c : Cycle CapsuleId) :
    g.reports c ≤ 1 := by
  refine countP_le_one ((h.toCycleSearch.pairwise_not_isRotated hg).imp fun hrot hd he => hrot ?_)
  rw [decide_eq_true_eq] at hd he
  exact Cycle.coe_eq_coe.1 (hd.trans he.symm)

/-- Every cycle takes a reference that closes a chain. -/
theorem exists_shared (hg : g.Sound) (h : TreeSearch g [] [] order [] found) (hc : g.Elementary c) :
    ∃ chain ∈ found, ∃ a b, Takes c a b ∧ Takes chain.dropLast a b := by
  obtain ⟨l, rfl⟩ : ∃ l : List CapsuleId, ↑l = c := Quotient.exists_rep c
  rcases l with - | ⟨first, others⟩
  · exact absurd rfl hc.ne_nil
  obtain ⟨a, b, ⟨chain, hchain, hclosing⟩, hinfix⟩ :=
    h.toCycleSearch.closing_mem_walk hg ((Cycle.chain_coe_cons _ first others).1 hc.linked)
  obtain ⟨inner, first', outer, rfl, -⟩ := h.traced chain hchain
  obtain ⟨rfl, hlast⟩ := closingEdge?_eq_some_iff.1 hclosing
  refine ⟨_, hchain, a, b, takes_of_infix hinfix, inner.reverse, by rw [List.dropLast_concat], ?_⟩
  have hread : b :: inner.reverse = (inner ++ [b]).reverse := by simp
  rw [hread, List.getLast?_reverse, hlast]

end TreeSearch

/-- **Which cycles are reported.**  An elementary cycle is reported once at most, whatever capsule its chain begins
with, and it is reported exactly if it lies on the first path to one of its capsules.  In particular it is reported if
it shares no reference with another elementary cycle. -/
theorem reports_eq_one_iff (steps : List Step) (hc : (build steps).Elementary c) :
    (build steps).reports c ≤ 1 ∧ ((build steps).reports c = 1 ↔ (build steps).OnFirstPath c) ∧
      ((∀ d, (build steps).Elementary d → (∃ a b, Takes c a b ∧ Takes d a b) → d = c) →
        (build steps).reports c = 1) := by
  have hg := sound_build steps
  obtain ⟨order, h⟩ := TreeSearch.whole hg
  have hle := h.reports_le_one hg c
  have hone : (build steps).reports c = 1 ↔
      ∃ chain ∈ (build steps).findCycles, (chain.dropLast : Cycle CapsuleId) = c := by
    have hpos : 0 < (build steps).reports c ↔
        ∃ chain ∈ (build steps).findCycles, (chain.dropLast : Cycle CapsuleId) = c := by
      simp [reports, List.countP_pos_iff]
    rw [← hpos]
    omega
  refine ⟨hle, hone.trans (h.exists_report_iff hg hc), fun hapart => hone.2 ?_⟩
  obtain ⟨chain, hchain, hshared⟩ := h.exists_shared hg hc
  exact ⟨chain, hchain, hapart _ (h.elementary hg hchain) hshared⟩

/-- Two ways lead from `a` to `d`, and one back; the search leaves `d` on the first of them. -/
def forkSteps : List Step :=
  [.dependency ⟨"a"⟩ ⟨"b"⟩, .dependency ⟨"a"⟩ ⟨"c"⟩, .dependency ⟨"b"⟩ ⟨"d"⟩, .dependency ⟨"c"⟩ ⟨"d"⟩,
    .dependency ⟨"d"⟩ ⟨"a"⟩]

theorem findCycles_fork : (build forkSteps).findCycles = [[⟨"a"⟩, ⟨"b"⟩, ⟨"d"⟩, ⟨"a"⟩]] := by
  cbv

theorem elementary_fork (way : CapsuleId) (hway : way ∈ [(⟨"b"⟩ : CapsuleId), ⟨"c"⟩]) :
    (build forkSteps).Elementary ↑[(⟨"a"⟩ : CapsuleId), way, ⟨"d"⟩] := by
  have hne : way ≠ ⟨"a"⟩ ∧ way ≠ ⟨"d"⟩ :=
    (by decide : ∀ way ∈ [(⟨"b"⟩ : CapsuleId), ⟨"c"⟩], way ≠ ⟨"a"⟩ ∧ way ≠ ⟨"d"⟩) way hway
  have hedges : (build forkSteps).Refers ⟨"a"⟩ way ∧ (build forkSteps).Refers way ⟨"d"⟩ :=
    (by decide : ∀ way ∈ [(⟨"b"⟩ : CapsuleId), ⟨"c"⟩], (build forkSteps).Refers ⟨"a"⟩ way ∧
      (build forkSteps).Refers way ⟨"d"⟩) way hway
  have hback : (build forkSteps).Refers ⟨"d"⟩ ⟨"a"⟩ := by decide
  refine ⟨by simp, by simp [hne.1.symm, hne.2], ?_⟩
  simp [hedges, hback]

theorem reports_eq_one_iff_fork :
    (build forkSteps).Elementary ↑[(⟨"a"⟩ : CapsuleId), ⟨"b"⟩, ⟨"d"⟩] ∧
      ((build forkSteps).reports ↑[(⟨"a"⟩ : CapsuleId), ⟨"b"⟩, ⟨"d"⟩] = 1 ↔
        (build forkSteps).OnFirstPath ↑[(⟨"a"⟩ : CapsuleId), ⟨"b"⟩, ⟨"d"⟩]) := by
  have hc := elementary_fork ⟨"b"⟩ (by simp)
  exact ⟨hc, (reports_eq_one_iff forkSteps hc).2.1⟩

/-- Not every elementary cycle is reported: the search comes to the second way with `d` left already. -/
theorem fork_unreported :
    (build forkSteps).Elementary ↑[(⟨"a"⟩ : CapsuleId), ⟨"c"⟩, ⟨"d"⟩] ∧
      (build forkSteps).reports ↑[(⟨"a"⟩ : CapsuleId), ⟨"c"⟩, ⟨"d"⟩] = 0 := by
  refine ⟨elementary_fork ⟨"c"⟩ (by simp), ?_⟩
  rw [reports, findCycles_fork]
  decide

end CapsuleCompiler.DependencyGraph
