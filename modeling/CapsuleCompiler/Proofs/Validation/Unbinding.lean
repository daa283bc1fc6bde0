import CapsuleCompiler.Proofs.Validation.Findings

/-!
# Proofs.Validation.Unbinding — compositions without a binding, and the finding on a reference

Without one of its bindings a composition has the same connections, and the same outputs can be read
(`connections_unbind`, `isOutput_unbind`).  The finding on a reference that cannot be read tells the reference: where
port names have no quotes it is found exactly if the source is no output (`danglingSource_mem_iff`).
-/

namespace CapsuleCompiler

/-! ### Dictionaries without a key -/

namespace Dict

variable {α β : Type} {d : Dict α} {key : String}

def erase (d : Dict α) (key : String) : Dict α := ⟨d.entries.filter (·.1 != key), d.sorted.filter _⟩

theorem get?_erase (d : Dict α) (key k : String) : (d.erase key).get? k = if k = key then none else d.get? k := by
  unfold get? erase
  dsimp only
  induction d.entries with
  | nil => simp
  | cons e es ih =>
    by_cases he : e.1 = key
    · have hfilter : (e :: es).filter (·.1 != key) = es.filter (·.1 != key) := by simp [he]
      rw [hfilter, ih]
      by_cases hk : k = key
      · rw [if_pos hk, if_pos hk]
      · rw [if_neg hk, if_neg hk, List.lookup_cons, beq_eq_false_iff_ne.2 (he ▸ hk)]
    · have hfilter : (e :: es).filter (·.1 != key) = e :: es.filter (·.1 != key) := by simp [he]
      rw [hfilter, List.lookup_cons, List.lookup_cons, ih]
      by_cases hk : k = e.1
      · simp [hk, he]
      · rw [beq_eq_false_iff_ne.2 hk]

/-- What an entry is not used for does not miss it. -/
theorem filterMap_entries_erase {f : String × α → Option β}
    (h : ∀ value, d.get? key = some value → f (key, value) = none) :
    (d.erase key).entries.filterMap f = d.entries.filterMap f := by
  unfold erase
  rw [List.filterMap_filter]
  refine List.filterMap_congr fun e he => ?_
  by_cases hkey : e.1 = key
  · rw [if_neg (by simpa using hkey), ← h e.2 (hkey ▸ (mem_entries_iff d e.1 e.2).1 he), ← hkey]
  · rw [if_pos (by simpa using hkey)]

end Dict

/-! ### Compositions without a binding -/

/-- The node without what is bound to one of its ports, if it is the one of an instance. -/
def Node.unbind (id : InstanceId) (port : String) (n : Node) : Node :=
  if n.id = id then { n with bindings := n.bindings.erase port } else n

def PlacedNode.unbind (id : InstanceId) (port : String) (p : PlacedNode) : PlacedNode :=
  { p with node := p.node.unbind id port }

def Composition.unbind (c : Composition) (id : InstanceId) (port : String) : Composition :=
  { c with nodes := c.nodes.map (Node.unbind id port) }

variable {c : Composition} {catalog : Catalog} {id : InstanceId} {port : String}

@[simp] theorem Node.id_unbind (n : Node) : (n.unbind id port).id = n.id := by
  unfold unbind
  split <;> rfl

@[simp] theorem Node.capsule_unbind (n : Node) : (n.unbind id port).capsule = n.capsule := by
  unfold unbind
  split <;> rfl

theorem Node.unbind_of_ne {n : Node} (h : n.id ≠ id) : n.unbind id port = n := if_neg h

theorem Node.bindings_unbind_self (n : Node) : (n.unbind n.id port).bindings = n.bindings.erase port := by
  unfold unbind
  rw [if_pos rfl]

namespace Composition

theorem ids_unbind : (c.unbind id port).nodes.map (·.id) = c.nodes.map (·.id) := by
  unfold unbind
  simp

theorem nodup_unbind (hnd : (c.nodes.map (·.id)).Nodup) : ((c.unbind id port).nodes.map (·.id)).Nodup := by
  rwa [ids_unbind]

theorem places_unbind : (c.unbind id port).Places catalog = c.Places catalog := by
  funext i d
  unfold Places unbind
  simp

theorem offers_unbind : (c.unbind id port).Offers catalog = c.Offers catalog := by
  unfold Offers
  rw [places_unbind]

theorem links_unbind : (c.unbind id port).Links catalog = c.Links catalog := by
  unfold Links Takes
  rw [offers_unbind, places_unbind]

end Composition

namespace Validation

variable {p p' : PlacedNode} {source source' : PortRef} {port' : String}

theorem placed_unbind : (ofComposition catalog (c.unbind id port)).placed =
    (ofComposition catalog c).placed.map (PlacedNode.unbind id port) := by
  have hplace (nodes : List Node) : place catalog (nodes.map (Node.unbind id port)) =
      (place catalog nodes).map (PlacedNode.unbind id port) := by
    unfold place
    rw [List.filterMap_map, List.map_filterMap]
    refine List.filterMap_congr fun n _ => ?_
    simp only [Function.comp_apply, Node.capsule_unbind, Option.map_map]
    rfl
  exact hplace c.nodes

section

variable (hnd : (c.nodes.map (·.id)).Nodup)
include hnd

theorem connections_unbind :
    (ofComposition catalog (c.unbind id port)).connections = (ofComposition catalog c).connections := by
  refine List.filter_congr fun k _ => ?_
  rw [Bool.eq_iff_iff, isKept_iff (Composition.nodup_unbind hnd), isKept_iff hnd, Composition.links_unbind]

theorem isOutput_unbind : isOutput (ofComposition catalog (c.unbind id port)).placed =
    isOutput (ofComposition catalog c).placed := by
  funext source
  have hunbound : isOutput (ofComposition catalog (c.unbind id port)).placed source ↔ _ :=
    isOutput_iff (Composition.nodup_unbind hnd)
  have hbound : isOutput (ofComposition catalog c).placed source ↔ _ := isOutput_iff hnd
  rw [Bool.eq_iff_iff, hunbound, hbound, Composition.offers_unbind]

end

/-! ### The finding on a reference -/

/-- Texts without quotes are told by what they stand between. -/
theorem eq_of_quoted {as bs as' bs' : List Char} (middle rest : List Char) (ha : '"' ∉ as) (hb : '"' ∉ bs)
    (h : as ++ '"' :: (middle ++ (bs ++ '"' :: rest)) = as' ++ '"' :: (middle ++ (bs' ++ '"' :: rest))) :
    as = as' ∧ bs = bs' := by
  have ha' : '"' ∉ as' := by
    have hcount := congrArg (List.count '"') h
    simp only [List.count_append, List.count_cons_self, List.count_eq_zero.2 ha, List.count_eq_zero.2 hb] at hcount
    exact List.count_eq_zero.1 (by omega)
  have hpieces := congrArg (Text.splitOn '"') h
  rw [Text.splitOn_append_cons ha, Text.splitOn_append_cons ha'] at hpieces
  obtain rfl := (List.cons_eq_cons.1 hpieces).1
  have hrest := (List.cons_eq_cons.1 (List.append_cancel_left h)).2
  exact ⟨rfl, List.append_cancel_right (List.append_cancel_left hrest)⟩

theorem danglingSource_injective (hport : '"' ∉ port.toList) (hsource : '"' ∉ source.port.toList)
    (h : danglingSource p port source = danglingSource p' port' source') :
    p.node.id = p'.node.id ∧ port = port' ∧ source = source' := by
  obtain ⟨-, -, hmessage, haffected⟩ := Diagnostic.mk.inj h
  simp only [List.cons.injEq, and_true] at haffected
  obtain ⟨hid, howner⟩ := haffected
  have hquote : "\" references \"".toList = '"' :: " references \"".toList := rfl
  have hend : "\", which is not a declared output of a placed instance".toList =
      '"' :: ", which is not a declared output of a placed instance".toList := rfl
  have hchars := congrArg String.toList hmessage
  simp only [PortRef.text, String.toList_append, hid, howner, hquote, hend, List.append_assoc, List.cons_append,
    List.append_cancel_left_eq] at hchars
  obtain ⟨hport', hsource'⟩ := eq_of_quoted (" references \"".toList ++ source.owner.text.toList ++ ".".toList) _
    hport hsource (by simpa only [List.append_assoc, howner] using hchars)
  exact ⟨congrArg InstanceId.mk hid, String.toList_inj.1 hport',
    congrArg₂ PortRef.mk (congrArg InstanceId.mk howner) (String.toList_inj.1 hsource')⟩

theorem danglingSource_ne_undeclaredInput : danglingSource p port source ≠ undeclaredInput p' port' := by
  intro h
  obtain ⟨-, -, hmessage, -⟩ := Diagnostic.mk.inj h
  have hlast := congrArg (·.toList.getLast?) hmessage
  have hquote : "\"".toList = ['"'] := rfl
  have hend : "\", which is not a declared output of a placed instance".toList =
      "\", which is not a declared output of a placed instanc".toList ++ ['e'] := rfl
  simp only [String.toList_append, hquote, hend, ← List.append_assoc, List.getLast?_append,
    List.getLast?_singleton, Option.some_or] at hlast
  exact absurd hlast (by decide)

variable {b : Binding}

theorem checkBinding_eq_some {placed : List PlacedNode} {d : Diagnostic} (h : checkBinding placed p port b = some d) :
    (p.definition.input? port = none ∧ d = undeclaredInput p port) ∨
      ∃ source, b = .reference source ∧ ¬isOutput placed source ∧ d = danglingSource p port source := by
  unfold checkBinding at h
  split_ifs at h with hinput
  · exact .inl ⟨Option.isNone_iff_eq_none.1 hinput, (Option.some.inj h).symm⟩
  · cases b with
    | literal value => cases h
    | reference source =>
      dsimp only at h
      split_ifs at h with houtput
      exact .inr ⟨source, rfl, houtput, (Option.some.inj h).symm⟩

theorem mem_diagnostics_of_checkBinding {d : Diagnostic} (hp : p ∈ (ofComposition catalog c).placed)
    (hbound : p.node.bindings.get? port = some b)
    (h : checkBinding (ofComposition catalog c).placed p port b = some d) :
    d ∈ (ofComposition catalog c).diagnostics := by
  refine List.mem_append_left _ (List.mem_append_right _ (List.mem_flatMap.2 ⟨p, hp, ?_⟩))
  exact List.mem_filterMap.2 ⟨(port, b), (Dict.mem_entries_iff _ _ _).2 hbound, h⟩

/-- A warning about a port is the finding on a binding. -/
theorem exists_checkBinding_of_mem {d : Diagnostic} (hd : d ∈ (ofComposition catalog c).diagnostics)
    (hseverity : d.severity = .warning) (hkind : d.kind = .invalidPort) :
    ∃ q ∈ (ofComposition catalog c).placed, ∃ port b, q.node.bindings.get? port = some b ∧
      checkBinding (ofComposition catalog c).placed q port b = some d := by
  rcases List.mem_append.1 hd with hd | hd
  · rcases List.mem_append.1 hd with hd | hd
    · obtain ⟨n, -, rfl⟩ := List.mem_map.1 hd
      cases hkind
    · obtain ⟨q, hq, hd⟩ := List.mem_flatMap.1 hd
      obtain ⟨⟨port, b⟩, hentry, hfound⟩ := List.mem_filterMap.1 hd
      exact ⟨q, hq, port, b, (Dict.mem_entries_iff _ _ _).1 hentry, hfound⟩
  · obtain ⟨k, -, hfound⟩ := List.mem_filterMap.1 hd
    unfold checkConnection at hfound
    split at hfound
    · cases hfound
      cases hseverity
    · split_ifs at hfound
      cases hfound
      cases hkind

/-- The finding on a reference is there exactly if its source cannot be read. -/
theorem danglingSource_mem_iff (hp : p ∈ (ofComposition catalog c).placed)
    (hbound : p.node.bindings.get? port = some (.reference source)) (hinput : (p.definition.input? port).isSome)
    (hquotes : isOutput (ofComposition catalog c).placed source → '"' ∉ port.toList ∧ '"' ∉ source.port.toList) :
    danglingSource p port source ∈ (ofComposition catalog c).diagnostics ↔
      ¬isOutput (ofComposition catalog c).placed source := by
  constructor
  · intro hmem houtput
    obtain ⟨hport, hsource⟩ := hquotes houtput
    obtain ⟨q, -, port', b, -, hfound⟩ := exists_checkBinding_of_mem hmem rfl rfl
    rcases checkBinding_eq_some hfound with ⟨-, h⟩ | ⟨source', -, hdangling, h⟩
    · exact danglingSource_ne_undeclaredInput h
    · exact hdangling ((danglingSource_injective hport hsource h).2.2 ▸ houtput)
  · intro hdangling
    refine mem_diagnostics_of_checkBinding hp hbound ?_
    unfold checkBinding
    rw [if_neg (by simpa [← Option.isSome_iff_ne_none] using hinput)]
    dsimp only
    rw [if_neg hdangling]

end Validation

end CapsuleCompiler
