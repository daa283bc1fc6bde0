import CapsuleCompiler.Unit
import Mathlib.Data.List.Nodup
import Mathlib.Logic.Relation
import Mathlib.Order.Lattice.Nat

/-!
# Proofs.Unit.Collection — the units are the reachable capsules, in breadth-first order

`References` is the relation that the sources of a catalog make, and `distance` counts the references from the
placed capsules.  `Collecting` is the invariant of the collection: the units so far and the definitions left part the
catalog, the units behind the head of the queue are closed under known references, and the distances along all units
do not fall, with those of the queue at most one apart.  A capsule not met is further away than the head of the queue
(`distance_lt_of_unseen`), which is what keeps the order when the references of the head are appended.
-/

namespace CapsuleCompiler.CompilationUnit

open Relation

variable {rule : ReferenceRule} {catalog : Catalog} {roots : List CapsuleId} {id : CapsuleId}

/-! ### References and distances -/

/-- The source that the catalog has for `a` references `b`. -/
def References (rule : ReferenceRule) (catalog : Catalog) (a b : CapsuleId) : Prop :=
  ∃ d, catalog.lookup a = some d ∧ b ∈ (Extraction.ofSource rule catalog.contains a d.source).ids

/-- A capsule is reached from the roots over a number of references. -/
inductive ReachedIn (rule : ReferenceRule) (catalog : Catalog) (roots : List CapsuleId) :
    Nat → CapsuleId → Prop
  | root {id : CapsuleId} (h : id ∈ roots) : ReachedIn rule catalog roots 0 id
  | step {n : Nat} {a b : CapsuleId} (h : ReachedIn rule catalog roots n a)
      (hab : References rule catalog a b) : ReachedIn rule catalog roots (n + 1) b

/-- The least number of references that lead from the roots to a capsule. -/
noncomputable def distance (rule : ReferenceRule) (catalog : Catalog) (roots : List CapsuleId)
    (id : CapsuleId) : Nat :=
  sInf {n | ReachedIn rule catalog roots n id}

theorem distance_le {n : Nat} (h : ReachedIn rule catalog roots n id) : distance rule catalog roots id ≤ n :=
  Nat.sInf_le h

theorem reachedIn_distance {n : Nat} (h : ReachedIn rule catalog roots n id) :
    ReachedIn rule catalog roots (distance rule catalog roots id) id :=
  Nat.sInf_mem (s := {n | ReachedIn rule catalog roots n id}) ⟨n, h⟩

theorem exists_reachedIn_iff :
    (∃ n, ReachedIn rule catalog roots n id) ↔ ∃ root ∈ roots, ReflTransGen (References rule catalog) root id := by
  constructor
  · rintro ⟨n, h⟩
    induction h with
    | root h => exact ⟨_, h, .refl⟩
    | step _ hab ih =>
      obtain ⟨root, hroot, hwalk⟩ := ih
      exact ⟨root, hroot, hwalk.tail hab⟩
  · rintro ⟨root, hroot, hwalk⟩
    induction hwalk with
    | refl => exact ⟨0, .root hroot⟩
    | tail _ hab ih =>
      obtain ⟨n, h⟩ := ih
      exact ⟨n + 1, h.step hab⟩

/-- The unit is made from the definition that the catalog has. -/
def Looked (rule : ReferenceRule) (catalog : Catalog) (u : CompilationUnit) : Prop :=
  catalog.lookup u.id = some u.definition ∧
    u.extraction = .ofSource rule catalog.contains u.id u.definition.source

theorem looked_ofDefinition {d : CapsuleDefinition} (placed : Bool) (h : catalog.lookup d.id = some d) :
    Looked rule catalog (ofDefinition rule catalog placed d) :=
  ⟨h, rfl⟩

theorem mem_references {u : CompilationUnit} (h : Looked rule catalog u) :
    id ∈ u.references ↔ References rule catalog u.id id := by
  rw [references, h.2]
  exact ⟨fun hid => ⟨_, h.1, hid⟩, fun ⟨d, hd, hid⟩ => by rwa [Option.some.inj (h.1.symm.trans hd)]⟩

theorem contains_iff : catalog.contains id ↔ ∃ d, catalog.lookup id = some d := by
  rw [Catalog.contains, Option.isSome_iff_exists]

/-- Only capsules of the catalog make references. -/
theorem References.contains {a b : CapsuleId} (h : References rule catalog a b) : catalog.contains a :=
  contains_iff.2 ⟨_, h.choose_spec.1⟩

/-! ### Placed capsules -/

theorem ids_distinct (seen : List CapsuleId) (ds : List CapsuleDefinition) :
    (distinct seen ds).map (·.id) = ((ds.map (·.id)).filter (· ∉ seen)).eraseDups := by
  induction ds generalizing seen with
  | nil => rfl
  | cons d ds ih =>
    rw [distinct]
    split
    · next h => rw [ih, List.map_cons, List.filter_cons_of_neg (by simpa using h)]
    · next h =>
      rw [List.map_cons, ih, List.map_cons, List.filter_cons_of_pos (by simpa using h), List.eraseDups_cons,
        List.filter_filter]
      congr 3
      funext other
      simp [not_or, Bool.beq_eq_decide_eq]

theorem mem_of_mem_distinct {seen : List CapsuleId} {ds : List CapsuleDefinition} {d : CapsuleDefinition}
    (h : d ∈ distinct seen ds) : d ∈ ds := by
  induction ds generalizing seen with
  | nil => exact h
  | cons e ds ih =>
    rw [distinct] at h
    split at h
    · exact List.mem_cons_of_mem _ (ih h)
    · rcases List.mem_cons.1 h with rfl | h
      · exact List.mem_cons_self
      · exact List.mem_cons_of_mem _ (ih h)

theorem nodup_distinct (seen : List CapsuleId) (ds : List CapsuleDefinition) :
    ((distinct seen ds).map (·.id)).Nodup ∧ ∀ d ∈ distinct seen ds, d.id ∉ seen := by
  induction ds generalizing seen with
  | nil => simp [distinct]
  | cons d ds ih =>
    rw [distinct]
    split
    · exact ih seen
    · next h =>
      obtain ⟨hnd, hnot⟩ := ih (d.id :: seen)
      refine ⟨?_, fun e he => ?_⟩
      · rw [List.map_cons, List.nodup_cons]
        refine ⟨fun hmem => ?_, hnd⟩
        obtain ⟨e, he, heq⟩ := List.mem_map.1 hmem
        exact hnot e he (heq ▸ List.mem_cons_self)
      · rcases List.mem_cons.1 he with rfl | he
        · exact h
        · exact fun hmem => hnot e he (List.mem_cons_of_mem _ hmem)

/-! ### Discovery -/

theorem find?_filter_ne (fresh : List CapsuleDefinition) (id other : CapsuleId) :
    (fresh.filter (·.id != id)).find? (·.id == other) =
      if other = id then none else fresh.find? (·.id == other) := by
  rw [List.find?_filter]
  split
  · next h =>
    subst h
    simp
  · next h =>
    congr 1
    funext d
    by_cases hd : d.id = other
    · simp [hd, h]
    · simp [hd]

/-- What the references of a unit take out of the definitions left. -/
structure Discovers (fresh : List CapsuleDefinition) (ids : List CapsuleId)
    (found left : List CapsuleDefinition) : Prop where
  mem : ∀ d ∈ found, d.id ∈ ids ∧ fresh.find? (·.id == d.id) = some d
  nodup : (found.map (·.id)).Nodup
  complete : ∀ id ∈ ids, (fresh.find? (·.id == id)).isSome → id ∈ found.map (·.id)
  left_eq : ∀ id, left.find? (·.id == id) =
    if id ∈ found.map (·.id) then none else fresh.find? (·.id == id)

theorem discovers_discover (fresh : List CapsuleDefinition) (ids : List CapsuleId) :
    Discovers fresh ids (discover fresh ids).1 (discover fresh ids).2 := by
  induction ids generalizing fresh with
  | nil => exact ⟨by simp [discover], by simp [discover], by simp, by simp [discover]⟩
  | cons id ids ih =>
    rw [discover]
    split
    · next hnone =>
      have h := ih fresh
      refine ⟨fun d hd => ⟨List.mem_cons_of_mem _ (h.mem d hd).1, (h.mem d hd).2⟩, h.nodup, ?_, h.left_eq⟩
      intro other hother hsome
      rcases List.mem_cons.1 hother with rfl | hother
      · rw [hnone] at hsome
        cases hsome
      · exact h.complete other hother hsome
    · next d hsome =>
      have hid : d.id = id := by simpa using List.find?_some hsome
      have h := ih (fresh.filter (·.id != id))
      have hnot : id ∉ (discover (fresh.filter (·.id != id)) ids).1.map (·.id) := fun hmem => by
        obtain ⟨e, he, heq⟩ := List.mem_map.1 hmem
        have := (h.mem e he).2
        rw [find?_filter_ne, heq, if_pos rfl] at this
        cases this
      have hne : ∀ e ∈ (discover (fresh.filter (·.id != id)) ids).1, e.id ≠ id := fun e he heq =>
        hnot (List.mem_map.2 ⟨e, he, heq⟩)
      refine ⟨fun e he => ?_, ?_, fun other hother hfound => ?_, fun other => ?_⟩
      · rcases List.mem_cons.1 he with rfl | he
        · exact ⟨hid ▸ List.mem_cons_self, by rwa [hid]⟩
        · have := (h.mem e he).2
          rw [find?_filter_ne, if_neg (hne e he)] at this
          exact ⟨List.mem_cons_of_mem _ (h.mem e he).1, this⟩
      · rw [List.map_cons, hid]
        exact List.nodup_cons.2 ⟨hnot, h.nodup⟩
      · rw [List.map_cons, hid]
        by_cases heq : other = id
        · exact heq ▸ List.mem_cons_self
        · refine List.mem_cons_of_mem _ (h.complete other ((List.mem_cons.1 hother).resolve_left heq) ?_)
          rwa [find?_filter_ne, if_neg heq]
      · rw [h.left_eq other, find?_filter_ne, List.map_cons, hid]
        by_cases heq : other = id <;> simp [heq]

/-! ### The invariant of the collection -/

/-- The units that have been taken off the queue, and those on it, for the placed capsules `roots`. -/
structure Collecting (rule : ReferenceRule) (catalog : Catalog) (roots : List CapsuleId)
    (fresh : List CapsuleDefinition) (done queue : List CompilationUnit) : Prop where
  looked : ∀ u ∈ done ++ queue, Looked rule catalog u
  nodup : ((done ++ queue).map (·.id)).Nodup
  roots_mem : ∀ id ∈ roots, id ∈ (done ++ queue).map (·.id)
  /-- The definitions left are those of the capsules that are no units. -/
  fresh_eq : ∀ id, fresh.find? (·.id == id) =
    if id ∈ (done ++ queue).map (·.id) then none else catalog.lookup id
  closed : ∀ u ∈ done, ∀ id ∈ u.references, catalog.contains id → id ∈ (done ++ queue).map (·.id)
  reached : ∀ u ∈ done ++ queue, ∃ n, ReachedIn rule catalog roots n u.id
  sorted : (done ++ queue).Pairwise fun u v =>
    distance rule catalog roots u.id ≤ distance rule catalog roots v.id
  /-- The queue spans two distances at most. -/
  narrow : ∀ u ∈ queue.head?, ∀ v ∈ queue,
    distance rule catalog roots v.id ≤ distance rule catalog roots u.id + 1

namespace Collecting

variable {fresh : List CapsuleDefinition} {done queue : List CompilationUnit} {u : CompilationUnit}

/-- No unit of the queue is nearer than its head. -/
theorem head_le (h : Collecting rule catalog roots fresh done (u :: queue)) {v : CompilationUnit}
    (hv : v ∈ u :: queue) : distance rule catalog roots u.id ≤ distance rule catalog roots v.id := by
  rcases List.mem_cons.1 hv with rfl | hv
  · exact le_rfl
  · exact (List.pairwise_cons.1 (List.pairwise_append.1 h.sorted).2.1).1 v hv

/-- No unit is further away than the one behind the head of the queue may be. -/
theorem le_head_succ (h : Collecting rule catalog roots fresh done (u :: queue)) {v : CompilationUnit}
    (hv : v ∈ done ++ u :: queue) :
    distance rule catalog roots v.id ≤ distance rule catalog roots u.id + 1 := by
  rcases List.mem_append.1 hv with hv | hv
  · exact Nat.le_succ_of_le ((List.pairwise_append.1 h.sorted).2.2 v hv u List.mem_cons_self)
  · exact h.narrow u rfl v hv

/-- A walk to a known capsule that is no unit leaves the units through the queue. -/
theorem distance_lt_of_unseen (h : Collecting rule catalog roots fresh done (u :: queue)) {n : Nat}
    (hreached : ReachedIn rule catalog roots n id) (hknown : catalog.contains id)
    (hid : id ∉ (done ++ u :: queue).map (·.id)) : distance rule catalog roots u.id < n := by
  induction hreached with
  | root hroot => exact absurd (h.roots_mem _ hroot) hid
  | @step n a b ha hab ih =>
    by_cases hseen : a ∈ (done ++ u :: queue).map (·.id)
    · obtain ⟨v, hv, rfl⟩ := List.mem_map.1 hseen
      have hb : b ∈ v.references := (mem_references (h.looked v hv)).2 hab
      rcases List.mem_append.1 hv with hdone | hqueue
      · exact absurd (h.closed v hdone b hb hknown) hid
      · exact Nat.lt_succ_of_le ((h.head_le hqueue).trans (distance_le ha))
    · exact (ih hab.contains hseen).trans (Nat.lt_succ_self n)

/-- What the references of the head find is known, is no unit yet, and is one reference further away. -/
theorem found (h : Collecting rule catalog roots fresh done (u :: queue)) {d : CapsuleDefinition}
    (hd : d ∈ (discover fresh u.references).1) :
    catalog.lookup d.id = some d ∧ d.id ∉ (done ++ u :: queue).map (·.id) ∧
      (∃ n, ReachedIn rule catalog roots n d.id) ∧
      distance rule catalog roots d.id = distance rule catalog roots u.id + 1 := by
  have hu : u ∈ done ++ u :: queue := by simp
  obtain ⟨href, hfind⟩ := (discovers_discover fresh u.references).mem d hd
  rw [h.fresh_eq] at hfind
  split at hfind
  · cases hfind
  · next hunseen =>
    have href : References rule catalog u.id d.id := (mem_references (h.looked u hu)).1 href
    obtain ⟨n, hn⟩ := h.reached u hu
    have hstep := (reachedIn_distance hn).step href
    have hlt := h.distance_lt_of_unseen (reachedIn_distance hstep) (contains_iff.2 ⟨d, hfind⟩) hunseen
    exact ⟨hfind, hunseen, ⟨_, hstep⟩, Nat.le_antisymm (distance_le hstep) hlt⟩

/-- The head becomes a unit for good, and what it finds goes behind the queue. -/
theorem advance (h : Collecting rule catalog roots fresh done (u :: queue)) :
    Collecting rule catalog roots (discover fresh u.references).2 (done ++ [u])
      (queue ++ (discover fresh u.references).1.map (ofDefinition rule catalog false)) := by
  have hd := discovers_discover fresh u.references
  have hfound := fun d hd => h.found (d := d) hd
  generalize (discover fresh u.references).1 = new at hd hfound ⊢
  generalize (discover fresh u.references).2 = left at hd ⊢
  have hall : done ++ [u] ++ (queue ++ new.map (ofDefinition rule catalog false)) =
      (done ++ u :: queue) ++ new.map (ofDefinition rule catalog false) := by simp
  have hids : ((done ++ u :: queue) ++ new.map (ofDefinition rule catalog false)).map (·.id) =
      (done ++ u :: queue).map (·.id) ++ new.map (·.id) := by
    rw [List.map_append, List.map_map]
    rfl
  have hold : ∀ id ∈ (done ++ u :: queue).map (·.id),
      id ∈ ((done ++ u :: queue) ++ new.map (ofDefinition rule catalog false)).map (·.id) := fun id hid =>
    hids ▸ List.mem_append_left _ hid
  have hfar : ∀ v ∈ new.map (ofDefinition rule catalog false),
      distance rule catalog roots v.id = distance rule catalog roots u.id + 1 := by
    rintro v hv
    obtain ⟨d, hmem, rfl⟩ := List.mem_map.1 hv
    exact (hfound d hmem).2.2.2
  constructor
  case looked =>
    rw [hall]
    intro v hv
    rcases List.mem_append.1 hv with hv | hv
    · exact h.looked v hv
    · obtain ⟨d, hmem, rfl⟩ := List.mem_map.1 hv
      exact looked_ofDefinition false (hfound d hmem).1
  case nodup =>
    rw [hall, hids]
    refine List.nodup_append.2 ⟨h.nodup, hd.nodup, ?_⟩
    rintro a ha b hb rfl
    obtain ⟨d, hmem, rfl⟩ := List.mem_map.1 hb
    exact (hfound d hmem).2.1 ha
  case roots_mem =>
    rw [hall]
    exact fun id hid => hold id (h.roots_mem id hid)
  case fresh_eq =>
    intro id
    rw [hall, hids, hd.left_eq, h.fresh_eq]
    by_cases hnew : id ∈ new.map (·.id) <;> simp [hnew]
  case closed =>
    rw [hall]
    intro v hv id hid hknown
    rcases List.mem_append.1 hv with hv | hv
    · exact hold id (h.closed v hv id hid hknown)
    · rw [List.mem_singleton.1 hv] at hid
      by_cases hseen : id ∈ (done ++ u :: queue).map (·.id)
      · exact hold id hseen
      · have hfresh := h.fresh_eq id
        rw [if_neg hseen] at hfresh
        rw [hids]
        exact List.mem_append_right _ (hd.complete id hid (hfresh ▸ hknown))
  case reached =>
    rw [hall]
    intro v hv
    rcases List.mem_append.1 hv with hv | hv
    · exact h.reached v hv
    · obtain ⟨d, hmem, rfl⟩ := List.mem_map.1 hv
      exact (hfound d hmem).2.2.1
  case sorted =>
    rw [hall]
    refine List.pairwise_append.2 ⟨h.sorted, ?_, fun v hv w hw => ?_⟩
    · exact List.pairwise_of_forall_mem_list fun v hv w hw => ((hfar v hv).trans (hfar w hw).symm).le
    · exact (hfar w hw).symm ▸ h.le_head_succ hv
  case narrow =>
    have hspan : ∀ v ∈ queue ++ new.map (ofDefinition rule catalog false),
        distance rule catalog roots u.id ≤ distance rule catalog roots v.id ∧
          distance rule catalog roots v.id ≤ distance rule catalog roots u.id + 1 := by
      intro v hv
      rcases List.mem_append.1 hv with hv | hv
      · exact ⟨h.head_le (List.mem_cons_of_mem _ hv), h.narrow u rfl v (List.mem_cons_of_mem _ hv)⟩
      · rw [hfar v hv]
        exact ⟨Nat.le_succ _, le_rfl⟩
    intro v hv w hw
    have hlow := (hspan v (List.mem_of_mem_head? hv)).1
    have hhigh := (hspan w hw).2
    omega

/-- The collection runs until the queue is empty. -/
theorem run (h : Collecting rule catalog roots fresh done queue) :
    ∃ left, Collecting rule catalog roots left (done ++ closure rule catalog fresh queue) [] := by
  fun_induction closure rule catalog fresh queue generalizing done with
  | case1 fresh =>
    rw [List.append_nil]
    exact ⟨fresh, h⟩
  | case2 fresh u queue step =>
    rename_i ih
    obtain ⟨left, hleft⟩ := ih h.advance
    rw [List.append_cons]
    exact ⟨left, hleft⟩

/-- The placed capsules are at distance zero, and nothing else has been met. -/
theorem start (rule : ReferenceRule) {first : List CapsuleDefinition}
    (hlook : ∀ d ∈ first, catalog.lookup d.id = some d) (hnd : (first.map (·.id)).Nodup)
    (hroots : ∀ id, id ∈ roots ↔ id ∈ first.map (·.id)) :
    Collecting rule catalog roots
      (catalog.definitions.filter fun d => !(first.map (·.id)).contains d.id) []
      (first.map (ofDefinition rule catalog true)) := by
  have hids : (first.map (ofDefinition rule catalog true)).map (·.id) = first.map (·.id) := by
    rw [List.map_map]
    rfl
  have hzero : ∀ v ∈ first.map (ofDefinition rule catalog true),
      ReachedIn rule catalog roots 0 v.id := fun v hv =>
    .root ((hroots _).2 (hids ▸ List.mem_map.2 ⟨v, hv, rfl⟩))
  have hdist : ∀ v ∈ first.map (ofDefinition rule catalog true),
      distance rule catalog roots v.id = 0 := fun v hv =>
    Nat.le_zero.1 (distance_le (hzero v hv))
  constructor
  case looked =>
    intro v hv
    obtain ⟨d, hmem, rfl⟩ := List.mem_map.1 hv
    exact looked_ofDefinition true (hlook d hmem)
  case nodup => exact hids ▸ hnd
  case roots_mem => exact fun id hid => hids ▸ (hroots id).1 hid
  case fresh_eq =>
    intro id
    rw [List.nil_append, hids, Catalog.lookup, List.find?_filter]
    split
    · next hmem =>
      refine List.find?_eq_none.2 fun d _ hd => ?_
      obtain ⟨hnot, heq⟩ := of_decide_eq_true hd
      rw [beq_iff_eq.1 heq, Bool.not_eq_true', List.contains_eq_mem, decide_eq_false_iff_not] at hnot
      exact hnot hmem
    · next hmem =>
      congr 1
      funext d
      by_cases hd : d.id = id
      · simp [hd, hmem]
      · simp [hd]
  case closed => exact fun v hv => absurd hv List.not_mem_nil
  case reached => exact fun v hv => ⟨0, hzero v hv⟩
  case sorted =>
    exact List.pairwise_of_forall_mem_list fun v hv w _ => (hdist v hv).symm ▸ Nat.zero_le _
  case narrow =>
    intro v _ w hw
    rw [hdist w hw]
    exact Nat.zero_le _

end Collecting

/-! ### The collected units -/

/-- Only the units on the queue at the start can be placed. -/
theorem closure_eq_append (rule : ReferenceRule) (catalog : Catalog) (fresh : List CapsuleDefinition)
    (queue : List CompilationUnit) :
    ∃ later, closure rule catalog fresh queue = queue ++ later ∧ ∀ u ∈ later, u.placed = false := by
  fun_induction closure rule catalog fresh queue with
  | case1 fresh => exact ⟨[], rfl, by simp⟩
  | case2 fresh u queue step =>
    rename_i ih
    obtain ⟨later, heq, hlater⟩ := ih
    refine ⟨step.1.map (ofDefinition rule catalog false) ++ later, by simp [heq], fun v hv => ?_⟩
    rcases List.mem_append.1 hv with hv | hv
    · obtain ⟨d, _, rfl⟩ := List.mem_map.1 hv
      rfl
    · exact hlater v hv

variable (rule) {ds : List CapsuleDefinition} (hlook : ∀ d ∈ ds, catalog.lookup d.id = some d)

theorem ids_distinct_nil (ds : List CapsuleDefinition) :
    (distinct [] ds).map (·.id) = (ds.map (·.id)).eraseDups := by
  rw [ids_distinct, List.filter_eq_self.2 (by simp)]

theorem placed_collect (catalog : Catalog) (ds : List CapsuleDefinition) : ∃ later : List CapsuleId,
    (collect rule catalog ds).map (fun u => (u.id, u.placed)) =
      (ds.map (·.id)).eraseDups.map (·, true) ++ later.map (·, false) := by
  rw [collect]
  obtain ⟨later, heq, hlater⟩ := closure_eq_append rule catalog
    (catalog.definitions.filter fun d => !((distinct [] ds).map (·.id)).contains d.id)
    ((distinct [] ds).map (ofDefinition rule catalog true))
  refine ⟨later.map (·.id), ?_⟩
  rw [heq, List.map_append, ← ids_distinct_nil, List.map_map, List.map_map, List.map_map]
  congr 1
  exact List.map_congr_left fun u hu => congrArg (u.id, ·) (hlater u hu)

include hlook

theorem collected : ∃ left, Collecting rule catalog (ds.map (·.id)) left (collect rule catalog ds) [] :=
  (Collecting.start rule (fun d hd => hlook d (mem_of_mem_distinct hd)) (nodup_distinct [] ds).1 fun id => by
    rw [ids_distinct_nil, List.mem_eraseDups]).run

theorem nodup_collect : ((collect rule catalog ds).map (·.id)).Nodup := by
  obtain ⟨left, h⟩ := collected rule hlook
  simpa using h.nodup

theorem mem_collect_iff {id : CapsuleId} :
    id ∈ (collect rule catalog ds).map (·.id) ↔
      id ∈ ds.map (·.id) ∨ catalog.contains id ∧
        ∃ root ∈ ds.map (·.id), TransGen (References rule catalog) root id := by
  obtain ⟨left, h⟩ := collected rule hlook
  have hclosed : ∀ {a b : CapsuleId}, a ∈ (collect rule catalog ds).map (·.id) →
      References rule catalog a b → catalog.contains b → b ∈ (collect rule catalog ds).map (·.id) := by
    intro a b ha hab hb
    obtain ⟨u, hu, rfl⟩ := List.mem_map.1 ha
    simpa using h.closed u hu b ((mem_references (h.looked u (by simpa using hu))).2 hab) hb
  constructor
  · intro hid
    obtain ⟨u, hu, rfl⟩ := List.mem_map.1 hid
    rw [← List.append_nil (collect ..)] at hu
    obtain ⟨root, hroot, hwalk⟩ := exists_reachedIn_iff.1 (h.reached u hu)
    rcases Relation.reflTransGen_iff_eq_or_transGen.1 hwalk with heq | hwalk
    · exact .inl (heq ▸ hroot)
    · exact .inr ⟨contains_iff.2 ⟨_, (h.looked u hu).1⟩, root, hroot, hwalk⟩
  · rintro (hroot | ⟨hid, root, hroot, hwalk⟩)
    · simpa using h.roots_mem id hroot
    · induction hwalk with
      | single hab => exact hclosed (by simpa using h.roots_mem root hroot) hab hid
      | tail _ hab ih => exact hclosed (ih hab.contains) hab hid

theorem contains_of_mem_collect (hid : id ∈ (collect rule catalog ds).map (·.id)) : catalog.contains id := by
  rcases (mem_collect_iff rule hlook).1 hid with hplaced | ⟨hknown, -⟩
  · obtain ⟨d, hd, rfl⟩ := List.mem_map.1 hplaced
    exact contains_iff.2 ⟨d, hlook d hd⟩
  · exact hknown

/-- **The collected units.**  They are the placed capsules and all known capsules that these reach, each once, with
the placed ones in front and the distances from them never falling. -/
theorem collect_breadth_first :
    ((collect rule catalog ds).map (·.id)).Nodup ∧
    (∃ later : List CapsuleId, (collect rule catalog ds).map (fun u => (u.id, u.placed)) =
      (ds.map (·.id)).eraseDups.map (·, true) ++ later.map (·, false)) ∧
    (∀ id, id ∈ (collect rule catalog ds).map (·.id) ↔
      id ∈ ds.map (·.id) ∨ catalog.contains id ∧
        ∃ root ∈ ds.map (·.id), TransGen (References rule catalog) root id) ∧
    (∀ u ∈ collect rule catalog ds, Looked rule catalog u ∧
      ReachedIn rule catalog (ds.map (·.id)) (distance rule catalog (ds.map (·.id)) u.id) u.id) ∧
    (collect rule catalog ds).Pairwise fun u v =>
      distance rule catalog (ds.map (·.id)) u.id ≤ distance rule catalog (ds.map (·.id)) v.id := by
  obtain ⟨left, h⟩ := collected rule hlook
  have hall : collect rule catalog ds ++ [] = collect rule catalog ds := List.append_nil _
  refine ⟨nodup_collect rule hlook, placed_collect rule catalog ds, fun id => mem_collect_iff rule hlook, ?_,
    hall ▸ h.sorted⟩
  intro u hu
  have hu : u ∈ collect rule catalog ds ++ [] := hall.symm ▸ hu
  obtain ⟨n, hn⟩ := h.reached u hu
  exact ⟨h.looked u hu, reachedIn_distance hn⟩

omit hlook

def ringCard : CapsuleDefinition :=
  ⟨⟨"card"⟩, "Card", "", "import Link from './components/link'\nimport Icon from './components/icon'\n", .none, none,
    .empty⟩

def ringLink : CapsuleDefinition :=
  ⟨⟨"link"⟩, "Link", "", "import Card from './components/card'\n", .none, none, .empty⟩

/-- Two capsules that reference each other, one of which references a third that is missing. -/
def ringCatalog : Catalog := .ofList [ringCard, ringLink]

theorem collect_breadth_first_ring :
    (∀ d ∈ [ringCard], ringCatalog.lookup d.id = some d) ∧
      ((collect (.ofPrefixes ["./components/"]) ringCatalog [ringCard]).map (·.id)).Nodup ∧
      ∃ later : List CapsuleId, (collect (.ofPrefixes ["./components/"]) ringCatalog [ringCard]).map
        (fun u => (u.id, u.placed)) = (⟨"card"⟩, true) :: later.map (·, false) := by
  have hlook : ∀ d ∈ [ringCard], ringCatalog.lookup d.id = some d := by
    intro d hd
    rw [List.mem_singleton.1 hd]
    rfl
  obtain ⟨hnd, hplaced, -⟩ := collect_breadth_first (.ofPrefixes ["./components/"]) hlook
  exact ⟨hlook, hnd, hplaced⟩

end CapsuleCompiler.CompilationUnit
