import CapsuleCompiler.Proofs.Generation.Wiring
import CapsuleCompiler.Proofs.Validation.Findings

/-!
# Proofs.Generation.Flow — how outputs reach inputs through state variables

The sources of a composition are the outputs that a kept connection or a reference binding reads (`IsSource`).  Each has
one variable, and nothing else has one.  The element of the owner of a source passes the setter on, the element of the
consumer of the first connection into an input reads the value, and no element names a variable of another source
(`Plan.Faithful`).
-/

namespace CapsuleCompiler

variable {v : Validation} {plan : Plan} {name : String} {catalog : Catalog} {c : Composition}

/-! ### Sources -/

namespace Validation

/-- A declared output of a placed instance. -/
def Declares (v : Validation) (source : PortRef) : Prop :=
  ∃ p ∈ v.placed, p.node.id = source.owner ∧ (p.definition.output? source.port).isSome

/-- The outputs that a kept connection reads, or a reference that is bound to a declared input. -/
inductive IsSource (v : Validation) : PortRef → Prop
  | connection {k : Connection} (hk : k ∈ v.connections) : IsSource v k.source
  | binding {p : PlacedNode} {port : String} {source : PortRef} (hp : p ∈ v.placed)
    (hbound : p.node.bindings.get? port = some (.reference source)) (hinput : (p.definition.input? port).isSome)
    (hsource : v.Declares source) : IsSource v source

/-- The output that an input reads: the source of the first connection into it, else the one bound to it. -/
def inputSource? (v : Validation) (n : Node) (port : String) : Option PortRef :=
  match v.feeder? ⟨n.id, port⟩, n.bindings.get? port with
  | some k, _ => some k.source
  | none, some (.reference source) => some source
  | none, _ => none

theorem isOutput_iff_declares (hnd : (c.nodes.map (·.id)).Nodup) {source : PortRef} :
    isOutput (ofComposition catalog c).placed source ↔ (ofComposition catalog c).Declares source := by
  unfold isOutput Declares
  rw [Option.any_eq_true]
  constructor
  · rintro ⟨p, hp, hsome⟩
    obtain ⟨hmem, hid⟩ := (findPlaced_eq_some_iff hnd).1 hp
    exact ⟨p, hmem, hid, hsome⟩
  · rintro ⟨p, hmem, hid, hsome⟩
    exact ⟨p, (findPlaced_eq_some_iff hnd).2 ⟨hmem, hid⟩, hsome⟩

/-- A source is a declared output of a placed instance. -/
theorem IsSource.declares (hnd : (c.nodes.map (·.id)).Nodup) {source : PortRef}
    (h : (ofComposition catalog c).IsSource source) : (ofComposition catalog c).Declares source := by
  cases h with
  | connection hk =>
    obtain ⟨output, d, ⟨n, hn, hid, hd⟩, houtput⟩ := ((isKept_iff hnd).1 (List.mem_filter.1 hk).2).1
    exact ⟨⟨n, d⟩, mem_place_iff.2 ⟨hn, hd⟩, hid, Option.isSome_iff_exists.2 ⟨output, houtput⟩⟩
  | binding _ _ _ hsource => exact hsource

end Validation

namespace Plan

theorem mem_referenceSources_iff {p : PlacedNode} {source : PortRef} : source ∈ referenceSources v p ↔
    ∃ port, p.node.bindings.get? port = some (.reference source) ∧ (p.definition.input? port).isSome ∧
      Validation.isOutput v.placed source := by
  unfold referenceSources
  rw [List.mem_filterMap]
  constructor
  · rintro ⟨⟨port, binding⟩, hentry, h⟩
    cases binding with
    | literal value => cases h
    | reference r =>
      dsimp only at h
      split_ifs at h with hboth
      cases h
      rw [Bool.and_eq_true] at hboth
      exact ⟨port, (Dict.mem_entries_iff _ _ _).1 hentry, hboth⟩
  · rintro ⟨port, hbound, hboth⟩
    refine ⟨(port, .reference source), (Dict.mem_entries_iff _ _ _).2 hbound, ?_⟩
    dsimp only
    rw [if_pos (by rwa [Bool.and_eq_true])]

theorem mem_sources_iff (hnd : (c.nodes.map (·.id)).Nodup) {source : PortRef} :
    source ∈ sources (.ofComposition catalog c) ↔ (Validation.ofComposition catalog c).IsSource source := by
  rw [sources, List.mem_append, List.mem_map, List.mem_flatMap]
  constructor
  · rintro (⟨k, hk, rfl⟩ | ⟨p, hp, h⟩)
    · exact .connection hk
    · obtain ⟨port, hbound, hinput, hsource⟩ := mem_referenceSources_iff.1 h
      exact .binding hp hbound hinput ((Validation.isOutput_iff_declares hnd).1 hsource)
  · rintro (⟨hk⟩ | ⟨hp, hbound, hinput, hsource⟩)
    · exact .inl ⟨_, hk, rfl⟩
    · have houtput := (Validation.isOutput_iff_declares hnd).2 hsource
      exact .inr ⟨_, hp, mem_referenceSources_iff.2 ⟨_, hbound, hinput, houtput⟩⟩

end Plan

/-! ### Faithful plans -/

/-- The line of a declaration. -/
def StateVariable.declaration (x : StateVariable) : List Char :=
  ("  const [" ++ x.value ++ ", " ++ x.setter ++ "] = useState(null)").toList

/-- The element of an instance has a prop. -/
def Plan.Passes (plan : Plan) (v : Validation) (id : InstanceId) (prop : Markup.ElementProp) : Prop :=
  ∃ p e, (p, e) ∈ v.placed.zip plan.elements ∧ p.node.id = id ∧ prop ∈ e.props

/-- A variable that an element names is that of the output that its input reads, or that of an output of its own. -/
def Plan.NamesOwn (v : Validation) (state : List StateVariable) (p : PlacedNode) (e : Markup.Element) : Prop :=
  ∀ prop ∈ e.props, ∀ x, prop.value = .reference x → ∃ var ∈ state,
    (x = var.value ∧ v.inputSource? p.node prop.name = some var.source ∧
      ∃ input ∈ p.definition.ports.inputs, input.name = prop.name) ∨
    (x = var.setter ∧ var.source.owner = p.node.id ∧ prop.name = "on" ++ Naming.pascal var.source.port ∧
      ∃ output ∈ p.definition.ports.outputs, output.name = var.source.port)

/-- What it means that a plan leads the outputs of a composition to its inputs. -/
structure Plan.Faithful (plan : Plan) (v : Validation) : Prop where
  /-- One element for each instance. -/
  instances : (v.placed.map (·.node.id)).Nodup ∧ v.placed.length = plan.elements.length
  nodup : (plan.state.map (·.source)).Nodup
  sources : ∀ r, r ∈ plan.state.map (·.source) ↔ v.IsSource r
  /-- Sources share a variable only if they are the same. -/
  apart : ∀ x ∈ plan.state, ∀ y ∈ plan.state,
    (x.value = y.value ↔ x.source = y.source) ∧ (x.setter = y.setter ↔ x.source = y.source)
  /-- The state block is one declaration for each variable, with an empty line behind them. -/
  declared : Text.lines plan.stateBlock.toList =
    plan.state.map StateVariable.declaration ++ if plan.state = [] then [] else [[]]
  /-- The first connection into an input leads from its producer to its consumer. -/
  connected : ∀ k, v.feeder? k.target = some k → ∃ x ∈ plan.state, x.source = k.source ∧
    plan.Passes v k.target.owner ⟨k.target.port, .reference x.value⟩ ∧
    plan.Passes v k.source.owner ⟨"on" ++ Naming.pascal k.source.port, .reference x.setter⟩
  set : ∀ x ∈ plan.state,
    plan.Passes v x.source.owner ⟨"on" ++ Naming.pascal x.source.port, .reference x.setter⟩
  own : List.Forall₂ (Plan.NamesOwn v plan.state) v.placed plan.elements

/-! ### Declarations -/

namespace Plan

open StateVariable (declaration)

theorem inLine_declaration (h : StateVariable.Named plan.state) {x : StateVariable} (hx : x ∈ plan.state) :
    Text.InLine (declaration x) := by
  have hcamel {word : String} (hword : Naming.IsCamel word) : Text.InLine word.toList := by
    obtain ⟨c, rest, heq, hlower, hrest⟩ := hword
    refine (plain_of_forall (p := Char.isAlphanum) (fun d hd => ?_) (by decide)).inLine
    rw [heq] at hd
    rcases List.mem_cons.1 hd with rfl | hd
    · simp [Char.isAlphanum, Char.isAlpha, hlower]
    · exact hrest d hd
  simp only [declaration, String.toList_append]
  exact .append (.append (.append (.append (by decide) (hcamel (h.camel x hx))) (by decide))
    (hcamel (h.isCamel_setter hx))) (by decide)

theorem lines_stateBlock (h : StateVariable.Named plan.state) : Text.lines plan.stateBlock.toList =
    plan.state.map declaration ++ if plan.state = [] then [] else [[]] := by
  unfold stateBlock
  cases hstate : plan.state with
  | nil => rfl
  | cons first others =>
    have hall : ∀ l ∈ (first :: others).map declaration, Text.InLine l := by
      rw [← hstate]
      exact List.forall_mem_map.2 fun x hx => inLine_declaration h hx
    have htext : (String.join ((first :: others).map StateVariable.text) ++ "\n").toList =
        ((first :: others).map declaration).flatMap (· ++ ['\n']) ++ ['\n'] := by
      have hone (x : StateVariable) : x.text.toList = declaration x ++ ['\n'] := by
        have hend : "] = useState(null)\n" = "] = useState(null)" ++ "\n" := rfl
        rw [StateVariable.text, hend, ← String.append_assoc, String.toList_append]
        rfl
      rw [String.toList_append, String.toList_join, List.flatMap_map, List.flatMap_map]
      simp only [hone]
      rfl
    rw [if_neg (by simp), if_neg (by simp), htext, Text.lines_flatMap hall]
    rfl

/-! ### Elements -/

theorem ofJson_ne_reference (value : Json) (x : String) : Markup.Attribute.ofJson value ≠ .reference x := by
  cases value with
  | string s =>
    by_cases hquotable : s.toList.any Markup.isUnquotable <;> simp [Markup.Attribute.ofJson, hquotable]
  | _ => simp [Markup.Attribute.ofJson]

theorem standIn?_ne_reference (input : PortSpec) (x : String) : standIn? input ≠ some (.reference x) := by
  unfold standIn?
  by_cases hrequired : input.required
  · rw [if_pos hrequired]
    cases input.type <;> simp [Markup.Attribute.placeholder, ofJson_ne_reference]
  · simp [hrequired]

/-- An input that reads a variable reads the one of its source. -/
theorem inputSource?_of_inputValue? {state : List StateVariable} {n : Node} {input : PortSpec} {x : String}
    (hstate : ∀ k ∈ v.connections, ∃ var, StateVariable.find? state k.source = some var)
    (h : inputValue? v state n input = some (.reference x)) :
    ∃ var ∈ state, x = var.value ∧ v.inputSource? n input.name = some var.source := by
  cases hfeeder : v.feeder? ⟨n.id, input.name⟩ with
  | some k =>
    obtain ⟨var, hvar⟩ := hstate k (List.mem_of_find?_eq_some hfeeder)
    rw [inputValue?_of_feeder hfeeder hvar] at h
    cases h
    obtain ⟨hmem, hsource⟩ := StateVariable.find?_eq_some hvar
    exact ⟨var, hmem, rfl, by simp [Validation.inputSource?, hfeeder, hsource]⟩
  | none =>
    have hconnected : connected? v state n input = none := by rw [connected?_eq, hfeeder]; rfl
    unfold inputValue? at h
    rw [hconnected] at h
    dsimp only at h
    cases hbound : n.bindings.get? input.name with
    | none =>
      rw [hbound] at h
      exact absurd h (standIn?_ne_reference input x)
    | some binding =>
      rw [hbound] at h
      cases binding with
      | literal value => exact absurd (Option.some.inj h) (ofJson_ne_reference value x)
      | reference source =>
        dsimp only at h
        cases hvar : StateVariable.find? state source with
        | none =>
          rw [hvar] at h
          exact absurd h (standIn?_ne_reference input x)
        | some var =>
          rw [hvar] at h
          cases h
          obtain ⟨hmem, hsource⟩ := StateVariable.find?_eq_some hvar
          exact ⟨var, hmem, rfl, by simp [Validation.inputSource?, hfeeder, hbound, hsource]⟩

theorem namesOwn_of_elementOf {state : List StateVariable} {p : PlacedNode} {e : Markup.Element}
    (hstate : ∀ k ∈ v.connections, ∃ var, StateVariable.find? state k.source = some var)
    (h : elementOf v state p = .ok e) : NamesOwn v state p e := by
  obtain ⟨inputs, outputs, hinputs, houtputs, hprops⟩ := elementOf_eq_ok h
  intro prop hprop x hx
  rw [hprops, List.mem_append] at hprop
  rcases hprop with hprop | hprop
  · obtain ⟨input, hinput, value, hvalue, rfl⟩ := (mem_inputProps_iff hinputs prop).1 hprop
    obtain rfl : value = .reference x := hx
    obtain ⟨var, hvar, hxvar, hsource⟩ := inputSource?_of_inputValue? hstate hvalue
    exact ⟨var, hvar, .inl ⟨hxvar, hsource, input, hinput, rfl⟩⟩
  · obtain ⟨output, houtput, var, hvar, rfl⟩ := (mem_outputProps_iff houtputs prop).1 hprop
    obtain ⟨hmem, hsource⟩ := StateVariable.find?_eq_some hvar
    refine ⟨var, hmem, .inr ⟨(Markup.Attribute.reference.inj hx).symm, ?_, ?_, output, houtput, ?_⟩⟩
    all_goals rw [hsource]
    rfl

/-! ### The whole -/

section

variable (hnd : (c.nodes.map (·.id)).Nodup) (h : ofValidation name (.ofComposition catalog c) = .ok plan)
include h

/-- What the element of a placed node has is passed to its instance. -/
theorem passes_of_elementOf {p : PlacedNode} (hp : p ∈ (Validation.ofComposition catalog c).placed)
    {prop : Markup.ElementProp}
    (hprop : ∀ e, elementOf (.ofComposition catalog c) plan.state p = .ok e → prop ∈ e.props) :
    plan.Passes (.ofComposition catalog c) p.node.id prop := by
  obtain ⟨e, hzip, he⟩ := exists_element h hp
  exact ⟨p, e, hzip, rfl, hprop e he⟩

theorem sources_state : (plan.state.map (·.source)).Nodup ∧
    ∀ r, r ∈ plan.state.map (·.source) ↔ r ∈ sources (.ofComposition catalog c) := by
  have hnone : (([] : List StateVariable).map (·.source)).Nodup := List.nodup_nil
  simpa using StateVariable.sources_ensureAll hnone (ofValidation_eq_ok h).2.1

/-- The value of the first connection into an input is passed to the consumer. -/
theorem passes_value {k : Connection} (hk : (Validation.ofComposition catalog c).feeder? k.target = some k)
    {x : StateVariable} (hx : StateVariable.find? plan.state k.source = some x) :
    plan.Passes (.ofComposition catalog c) k.target.owner ⟨k.target.port, .reference x.value⟩ := by
  obtain ⟨p, hp, hid, input, hinput, hport⟩ := Validation.exists_consumer (List.mem_of_find?_eq_some hk)
  rw [← hid]
  refine passes_of_elementOf h hp fun e he => ?_
  obtain ⟨inputs, outputs, hinputs, -, hprops⟩ := elementOf_eq_ok he
  rw [hprops]
  refine List.mem_append_left _ ((mem_inputProps_iff hinputs _).2 ⟨input, hinput, _, inputValue?_of_feeder ?_ hx, ?_⟩)
  · rw [hid, hport]
    exact hk
  · rw [hport]

include hnd

theorem mem_state_iff (r : PortRef) :
    r ∈ plan.state.map (·.source) ↔ (Validation.ofComposition catalog c).IsSource r := by
  rw [(sources_state h).2, mem_sources_iff hnd]

/-- Every setter is passed to the owner of the source. -/
theorem passes_setter {x : StateVariable} (hx : x ∈ plan.state) : plan.Passes (.ofComposition catalog c)
    x.source.owner ⟨"on" ++ Naming.pascal x.source.port, .reference x.setter⟩ := by
  obtain ⟨p, hp, hid, hsome⟩ := ((mem_state_iff hnd h x.source).1 (List.mem_map_of_mem hx)).declares hnd
  obtain ⟨output, houtput⟩ := Option.isSome_iff_exists.1 hsome
  have hport : output.name = x.source.port := by simpa using List.find?_some houtput
  rw [← hid]
  refine passes_of_elementOf h hp fun e he => ?_
  obtain ⟨inputs, outputs, -, houtputs, hprops⟩ := elementOf_eq_ok he
  rw [hprops]
  refine List.mem_append_right _ ((mem_outputProps_iff houtputs _).2 ⟨output, List.mem_of_find?_eq_some houtput, x, ?_⟩)
  rw [callbackName, hid, hport]
  exact ⟨StateVariable.find?_source (sources_state h).1 hx, rfl⟩

theorem faithful_of_ofValidation : plan.Faithful (.ofComposition catalog c) where
  instances := by
    refine ⟨?_, (forall₂_elementsOf (ofValidation_eq_ok h).2.2.1).length_eq⟩
    have hids : (Validation.ofComposition catalog c).placed.map (·.node.id) =
        (c.nodes.filter (catalog.contains ·.capsule)).map (·.id) := by
      rw [← Validation.map_node_place, List.map_map]
      rfl
    rw [hids]
    exact hnd.sublist (List.filter_sublist.map _)
  nodup := (sources_state h).1
  sources := mem_state_iff hnd h
  apart := by
    intro x hx y hy
    have hnamed := named_state h
    have hvalue := hnamed.value_eq_iff (StateVariable.find?_source (sources_state h).1 hx)
      (StateVariable.find?_source (sources_state h).1 hy)
    refine ⟨hvalue, fun heq => hvalue.1 (hnamed.value_eq_of_setter_eq hx hy heq), fun heq => ?_⟩
    rw [hnamed.setter x hx, hnamed.setter y hy, hvalue.2 heq]
  declared := lines_stateBlock (named_state h)
  connected := by
    intro k hk
    obtain ⟨x, hx⟩ := exists_find?_source h (List.mem_of_find?_eq_some hk)
    obtain ⟨hmem, hsource⟩ := StateVariable.find?_eq_some hx
    refine ⟨x, hmem, hsource, passes_value h hk hx, ?_⟩
    rw [← hsource]
    exact passes_setter hnd h hmem
  set := fun x hx => passes_setter hnd h hx
  own := (forall₂_elementsOf (ofValidation_eq_ok h).2.2.1).imp fun p e he =>
    namesOwn_of_elementOf (fun k hk => exists_find?_source h hk) he

end

end Plan

/-! ### What the main file shows -/

theorem Markup.Element.isInfix_text {e : Element} {prop : ElementProp} (hprop : prop ∈ e.props) :
    prop.text.toList <:+: e.text.toList := by
  have hsome : e.props.isEmpty = false := by
    cases hprops : e.props with
    | nil => simp [hprops] at hprop
    | cons _ _ => rfl
  have hmem : prop.text.toList ∈ (e.props.map ElementProp.text).map String.toList :=
    List.mem_map_of_mem (List.mem_map_of_mem hprop)
  unfold text
  rw [if_neg (by simp [hsome])]
  refine List.IsInfix.trans ?_ (isInfix_append ("<" ++ e.tag ++ " ") _ " />")
  rw [String.toList_intercalate]
  exact isInfix_intercalate _ hmem

theorem Generator.isInfix_stateBlock {versions : PackageVersions} {shape : Shape} {text : String}
    (h : (standard versions).primaryText plan shape = .ok text) : plan.stateBlock.toList <:+: text.toList := by
  obtain ⟨rest, hrest⟩ := primaryText_standard versions plan shape
  cases h.symm.trans hrest
  exact isInfix_append _ _ _

namespace Compiler

variable {compiler : Compiler} {shape : Shape} {timing : Timing} {a : Artifact}

/-- **Data flow.**  A composition that compiles has a faithful plan, whatever the templates are, and its elements show
their props; with the built-in templates the main file shows the declarations of the plan and its elements. -/
theorem run_faithful (h : compiler.run c shape timing = .ok a) :
    ∃ plan text, Plan.ofValidation c.name (.ofComposition compiler.catalog c) = .ok plan ∧
      plan.Faithful (.ofComposition compiler.catalog c) ∧
      compiler.generator.primaryText plan shape = .ok text ∧ a.primary? = some text ∧
      (∀ e ∈ plan.elements, ∀ prop ∈ e.props, prop.text.toList <:+: e.text.toList) ∧
      ∀ versions, compiler.generator = .standard versions → plan.stateBlock.toList <:+: text.toList ∧
        ∀ e ∈ plan.elements, e.text.toList <:+: text.toList := by
  obtain ⟨s, out, hs, hout, rfl⟩ := run_eq_ok.1 h
  obtain ⟨plan, text, hplan, htext, hfile⟩ := Generator.primary_of_generateFiles hout
  obtain ⟨v, hv, heq⟩ := bind_eq_ok.1 hs
  obtain ⟨hnd, rfl⟩ := Composition.validate_eq_ok_iff.1 hv
  have hvalidation : s.validation = .ofComposition compiler.catalog c := by
    rw [stages_eq_ok hs]
    rfl
  rw [hvalidation] at hplan
  refine ⟨plan, text, hplan, Plan.faithful_of_ofValidation hnd hplan, htext, hfile,
    fun e _ prop => Markup.Element.isInfix_text, fun versions hstandard => ?_⟩
  rw [hstandard] at htext
  exact ⟨Generator.isInfix_stateBlock htext, fun e he => Generator.isInfix_primaryText htext he⟩

/-- A search whose query filters a list, and is bound to its note as well. -/
def echoPlacement : Composition :=
  ⟨"Store", none, [⟨⟨"search"⟩, ⟨"search-bar"⟩, .empty⟩,
      ⟨⟨"list"⟩, ⟨"item-list"⟩, .ofList [("note", .reference ⟨⟨"search"⟩, "query"⟩)]⟩],
    [⟨⟨⟨"search"⟩, "query"⟩, ⟨⟨"list"⟩, "filter"⟩⟩]⟩

theorem run_faithful_echo : ∃ a plan text,
    (ofConfig storeCatalog .standard).run echoPlacement .page ⟨0, ""⟩ = .ok a ∧
      Plan.ofValidation "Store" (.ofComposition storeCatalog echoPlacement) = .ok plan ∧
      plan.Faithful (.ofComposition storeCatalog echoPlacement) ∧ a.primary? = some text ∧
      plan.stateBlock = "  const [searchQuery, setSearchQuery] = useState(null)\n\n" ∧
      (plan.elements.map fun e => (e.tag, e.props.map Markup.ElementProp.text)) =
        [("SearchBar", ["onQuery=\x7bsetSearchQuery\x7d"]),
          ("ItemList", ["filter=\x7bsearchQuery\x7d", "note=\x7bsearchQuery\x7d"])] := by
  obtain ⟨a, ha⟩ : ∃ a, (ofConfig storeCatalog .standard).run echoPlacement .page ⟨0, ""⟩ = .ok a :=
    run_mainFile_isOk rfl (by decide +kernel) (by decide)
  obtain ⟨plan, text, hplan, hfaithful, -, hfile, -, -⟩ := run_faithful ha
  have hparts : (Plan.ofValidation "Store" (.ofComposition storeCatalog echoPlacement)).toOption.map (fun plan =>
      (plan.stateBlock, plan.elements.map fun e => (e.tag, e.props.map Markup.ElementProp.text))) =
      some ("  const [searchQuery, setSearchQuery] = useState(null)\n\n",
        [("SearchBar", ["onQuery=\x7bsetSearchQuery\x7d"]),
          ("ItemList", ["filter=\x7bsearchQuery\x7d", "note=\x7bsearchQuery\x7d"])]) := by decide +kernel
  obtain ⟨plan', hplan', hparts⟩ := exists_ok_of_toOption_map hparts
  obtain rfl : plan = plan' := Except.ok.inj (hplan.symm.trans hplan')
  obtain ⟨hblock, helements⟩ := Prod.mk.inj hparts
  exact ⟨a, plan, text, ha, hplan, hfaithful, hfile, hblock, helements⟩

end Compiler

end CapsuleCompiler
