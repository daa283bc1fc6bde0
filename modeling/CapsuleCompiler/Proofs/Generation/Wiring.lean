import CapsuleCompiler.Proofs.Generation.Scope

/-!
# Proofs.Generation.Wiring — which connections reach the inputs that they lead to

An input is fed by the first kept connection into it (`feeder?`), and by no other.  Its source has a state variable, and
the element of the consumer, which the main file shows, gives the value of this variable to the input.  So a connection
is read exactly when it has the source of the first one into its input (`Compiler.connection_read_iff`): a second source
has a variable, which its element sets and nobody reads.
-/

namespace CapsuleCompiler

variable {v : Validation} {state : List StateVariable}

/-! ### The connections into an input -/

namespace Validation

variable {catalog : Catalog} {c : Composition} {k : Connection}

/-- The kept connection that feeds an input. -/
def feeder? (v : Validation) (target : PortRef) : Option Connection := v.connections.find? (·.target == target)

theorem exists_feeder (hk : k ∈ v.connections) : ∃ first ∈ v.connections, v.feeder? k.target = some first := by
  have hfound : (v.feeder? k.target).isSome := List.find?_isSome.2 ⟨k, hk, beq_self_eq_true _⟩
  obtain ⟨first, hfirst⟩ := Option.isSome_iff_exists.1 hfound
  exact ⟨first, List.mem_of_find?_eq_some hfirst, hfirst⟩

theorem endpoint_eq_ok {placed : List PlacedNode} {unknown : List InstanceId} {id : InstanceId} {p : PlacedNode}
    (h : endpoint placed unknown id = .ok p) : p ∈ placed ∧ p.node.id = id := by
  unfold endpoint at h
  split at h
  · next q hq =>
    cases h
    exact ⟨List.mem_of_find?_eq_some hq, by simpa using List.find?_some hq⟩
  · cases h

/-- A kept connection leads to a declared input of a placed instance. -/
theorem exists_consumer (hk : k ∈ (ofComposition catalog c).connections) :
    ∃ p ∈ (ofComposition catalog c).placed, p.node.id = k.target.owner ∧
      ∃ input ∈ p.definition.ports.inputs, input.name = k.target.port := by
  obtain ⟨-, hkept⟩ := List.mem_filter.1 hk
  unfold isKept at hkept
  split at hkept
  · next ports hports =>
    obtain ⟨producer, -, hports⟩ := bind_eq_ok.1 hports
    obtain ⟨consumer, hconsumer, hports⟩ := bind_eq_ok.1 hports
    obtain ⟨hplaced, howner⟩ := endpoint_eq_ok hconsumer
    refine ⟨consumer, hplaced, howner, ?_⟩
    split at hports
    · cases hports
    · split at hports
      · cases hports
      · next input hinput =>
        exact ⟨input, List.mem_of_find?_eq_some hinput, by simpa using List.find?_some hinput⟩
  · cases hkept

end Validation

/-! ### Elements -/

namespace Plan

variable {p : PlacedNode} {n : Node} {input : PortSpec} {first : Connection} {var : StateVariable}

theorem forall₂_elementsOf {ps : List PlacedNode} {es : List Markup.Element} (h : elementsOf v state ps = .ok es) :
    List.Forall₂ (fun p e => elementOf v state p = .ok e) ps es := by
  induction ps generalizing es with
  | nil =>
    cases h
    exact .nil
  | cons p ps ih =>
    obtain ⟨e, he, h⟩ := bind_eq_ok.1 h
    obtain ⟨es', hes, h⟩ := bind_eq_ok.1 h
    cases h
    exact .cons he (ih hes)

/-- The props of an element are those of the inputs, then those of the outputs. -/
theorem elementOf_eq_ok {e : Markup.Element} (h : elementOf v state p = .ok e) : ∃ inputs outputs,
    inputProps v state p.node p.definition.ports.inputs = .ok inputs ∧
      outputProps state p.node p.definition.ports.outputs = .ok outputs ∧ e.props = inputs ++ outputs := by
  obtain ⟨inputs, hinputs, h⟩ := bind_eq_ok.1 h
  obtain ⟨outputs, houtputs, h⟩ := bind_eq_ok.1 h
  obtain ⟨tag, -, h⟩ := bind_eq_ok.1 h
  cases h
  exact ⟨inputs, outputs, hinputs, houtputs, rfl⟩

/-- Every placed node has its element. -/
theorem exists_element {plan : Plan} {name : String} (h : ofValidation name v = .ok plan) (hp : p ∈ v.placed) :
    ∃ e, (p, e) ∈ v.placed.zip plan.elements ∧ elementOf v plan.state p = .ok e := by
  have hall := forall₂_elementsOf (ofValidation_eq_ok h).2.2.1
  generalize v.placed = ps, plan.elements = es at hp hall ⊢
  induction hall with
  | nil => cases hp
  | cons he _ ih =>
    rcases List.mem_cons.1 hp with rfl | hp
    · exact ⟨_, List.mem_cons_self, he⟩
    · obtain ⟨e, hzip, he⟩ := ih hp
      exact ⟨e, List.mem_cons_of_mem _ hzip, he⟩

theorem propOf_eq_ok {name : String} {value : Markup.Attribute} {prop : Markup.ElementProp}
    (h : propOf name value = .ok prop) : prop = ⟨name, value⟩ := by
  unfold propOf at h
  split_ifs at h
  cases h
  rfl

/-- An input has a prop exactly when it is given something. -/
theorem mem_inputProps_iff {inputs : List PortSpec} {props : List Markup.ElementProp}
    (h : inputProps v state n inputs = .ok props) (prop : Markup.ElementProp) :
    prop ∈ props ↔ ∃ input ∈ inputs, ∃ value, inputValue? v state n input = some value ∧
      prop = ⟨input.name, value⟩ := by
  induction inputs generalizing props with
  | nil =>
    cases h
    simp
  | cons input inputs ih =>
    unfold inputProps at h
    cases hvalue : inputValue? v state n input with
    | none =>
      rw [hvalue] at h
      rw [ih h]
      simp [hvalue]
    | some value =>
      rw [hvalue] at h
      obtain ⟨first, hfirst, h⟩ := bind_eq_ok.1 h
      obtain ⟨later, hlater, h⟩ := bind_eq_ok.1 h
      cases h
      rw [List.mem_cons, ih hlater, propOf_eq_ok hfirst]
      simp [hvalue]

/-- An output has a prop exactly when it has a variable. -/
theorem mem_outputProps_iff {outputs : List PortSpec} {props : List Markup.ElementProp}
    (h : outputProps state n outputs = .ok props) (prop : Markup.ElementProp) :
    prop ∈ props ↔ ∃ output ∈ outputs, ∃ var, StateVariable.find? state ⟨n.id, output.name⟩ = some var ∧
      prop = ⟨callbackName output, .reference var.setter⟩ := by
  induction outputs generalizing props with
  | nil =>
    cases h
    simp
  | cons output outputs ih =>
    unfold outputProps at h
    cases hvar : StateVariable.find? state ⟨n.id, output.name⟩ with
    | none =>
      rw [hvar] at h
      rw [ih h]
      simp [hvar]
    | some var =>
      rw [hvar] at h
      dsimp only at h
      split_ifs at h
      obtain ⟨first, hfirst, h⟩ := bind_eq_ok.1 h
      obtain ⟨later, hlater, h⟩ := bind_eq_ok.1 h
      cases h
      rw [List.mem_cons, ih hlater, propOf_eq_ok hfirst]
      simp [hvar]

theorem connected?_eq (v : Validation) (state : List StateVariable) (n : Node) (input : PortSpec) :
    connected? v state n input = (v.feeder? ⟨n.id, input.name⟩).bind fun k => StateVariable.find? state k.source := by
  have hsame (k : Connection) : (k.target.owner == n.id && k.target.port == input.name) =
      (k.target == ⟨n.id, input.name⟩) := by
    obtain ⟨source, owner, port⟩ := k
    rw [Bool.eq_iff_iff]
    simp
  unfold connected? Validation.feeder?
  simp only [hsame]
  rfl

/-- An input with a feeder is given the value of its source, whatever is bound to it. -/
theorem inputValue?_of_feeder (hfeeder : v.feeder? ⟨n.id, input.name⟩ = some first)
    (hvar : StateVariable.find? state first.source = some var) :
    inputValue? v state n input = some (.reference var.value) := by
  have hconnected : connected? v state n input = some var := by
    rw [connected?_eq, hfeeder]
    exact hvar
  unfold inputValue?
  rw [hconnected]

/-- Every source of a kept connection has a variable. -/
theorem exists_find?_source {plan : Plan} {name : String} (h : ofValidation name v = .ok plan) {k : Connection}
    (hk : k ∈ v.connections) : ∃ var, StateVariable.find? plan.state k.source = some var := by
  refine StateVariable.exists_find?_ensureAll (ofValidation_eq_ok h).2.1 ?_
  exact List.mem_append_left _ (List.mem_map_of_mem hk)

end Plan

/-! ### What the main file shows -/

theorem isInfix_intercalate {α : Type} (sep : List α) {x : List α} {xs : List (List α)} (h : x ∈ xs) :
    x <:+: sep.intercalate xs := by
  induction xs with
  | nil => cases h
  | cons y ys ih =>
    cases ys with
    | nil =>
      rw [List.mem_singleton.1 h]
      simp
    | cons z zs =>
      rw [List.intercalate_cons_cons]
      rcases List.mem_cons.1 h with rfl | h
      · exact ⟨[], sep ++ sep.intercalate (z :: zs), by simp⟩
      · exact (ih h).trans (List.suffix_append _ _).isInfix

theorem isInfix_append (as bs cs : String) : bs.toList <:+: (as ++ bs ++ cs).toList := by
  rw [String.toList_append, String.toList_append]
  exact List.infix_append _ _ _

theorem Markup.Element.isInfix_block {elements : List Element} {e : Element} (he : e ∈ elements) (columns : Nat)
    (inFragment : Bool) : e.text.toList <:+: (block elements columns inFragment).toList := by
  have hlines (columns : Nat) :
      e.text.toList <:+: ("\n".intercalate (elements.map fun e => indented columns e.text)).toList := by
    have hmem : (indented columns e.text).toList ∈ (elements.map fun e => indented columns e.text).map String.toList :=
      List.mem_map_of_mem (List.mem_map_of_mem he)
    have hindented : e.text.toList <:+: (indented columns e.text).toList := by
      unfold indented
      rw [String.toList_append]
      exact (List.suffix_append _ _).isInfix
    rw [String.toList_intercalate]
    exact hindented.trans (isInfix_intercalate _ hmem)
  have hsome : elements.isEmpty = false := by
    cases elements with
    | nil => cases he
    | cons _ _ => rfl
  unfold block
  rw [if_neg (by simp [hsome])]
  by_cases hfragment : inFragment
  · rw [if_pos hfragment]
    have hinner := isInfix_append (indented columns "<>" ++ "\n")
      ("\n".intercalate (elements.map fun e => indented (columns + 2) e.text)) ("\n" ++ indented columns "</>")
    rw [← String.append_assoc] at hinner
    exact (hlines (columns + 2)).trans hinner
  · rw [if_neg hfragment]
    exact hlines columns

namespace Generator

variable {plan : Plan} {text : String}

theorem isInfix_fill {t : Template} {parts : List Template.Part} {further : List String} {columns : Nat}
    {inFragment : Bool} (hsource : t.source = String.join (parts.map Template.Part.source))
    (hfits : parts.all Template.Part.fits)
    (hbound : parts.all (Template.Part.bound (fillings plan further columns inFragment)))
    (hmarkup : Template.Part.slot "markup" ∈ parts) (h : fill t plan further columns inFragment = .ok text) :
    (Markup.Element.block plan.elements columns inFragment).toList <:+: text.toList := by
  cases (Template.render_parts hsource hfits hbound).symm.trans h
  have hfilled : Template.Part.filled (fillings plan further columns inFragment) (.slot "markup") =
      Markup.Element.block plan.elements columns inFragment := by
    simp [Template.Part.filled, get?_fillings, List.lookup_cons]
  rw [← hfilled, String.toList_join, List.flatMap_map]
  exact List.infix_of_mem_flatten (List.mem_map_of_mem hmarkup)

/-- The main file shows every element of its plan. -/
theorem isInfix_primaryText {versions : PackageVersions} {shape : Shape}
    (h : (standard versions).primaryText plan shape = .ok text) {e : Markup.Element} (he : e ∈ plan.elements) :
    e.text.toList <:+: text.toList := by
  cases shape with
  | component =>
    exact (Markup.Element.isInfix_block he 4 true).trans
      (isInfix_fill rfl (by decide) (bound_componentParts ..) (by simp [Template.componentParts]) h)
  | page =>
    exact (Markup.Element.isInfix_block he 8 false).trans
      (isInfix_fill rfl (by decide) (bound_pageParts ..) (by simp [Template.pageParts]) h)
  | application =>
    exact (Markup.Element.isInfix_block he 8 false).trans
      (isInfix_fill rfl (by decide) (bound_pageParts ..) (by simp [Template.pageParts]) h)

end Generator

/-! ### Connections -/

/-- The element of a consumer, for a connection into one of its inputs. -/
structure Plan.Consumes (plan : Plan) (v : Validation) (k : Connection) (p : PlacedNode) (e : Markup.Element)
    (inputs outputs : List Markup.ElementProp) : Prop where
  placed : (p, e) ∈ v.placed.zip plan.elements
  owner : p.node.id = k.target.owner
  props : e.props = inputs ++ outputs
  inputs : Plan.inputProps v plan.state p.node p.definition.ports.inputs = .ok inputs

theorem Plan.exists_consumes {plan : Plan} {name : String} {catalog : Catalog} {c : Composition} {k : Connection}
    (h : ofValidation name (.ofComposition catalog c) = .ok plan)
    (hk : k ∈ (Validation.ofComposition catalog c).connections) :
    ∃ p e inputs outputs, plan.Consumes (.ofComposition catalog c) k p e inputs outputs ∧
      ∃ input ∈ p.definition.ports.inputs, input.name = k.target.port := by
  obtain ⟨p, hp, howner, hinput⟩ := Validation.exists_consumer hk
  obtain ⟨e, hzip, he⟩ := exists_element h hp
  obtain ⟨inputs, outputs, hinputs, -, hprops⟩ := elementOf_eq_ok he
  exact ⟨p, e, inputs, outputs, ⟨hzip, howner, hprops, hinputs⟩, hinput⟩

namespace Compiler

variable {catalog : Catalog} {rule : ReferenceRule} {versions : PackageVersions} {c : Composition} {shape : Shape}
  {timing : Timing} {a : Artifact} {k : Connection}

/-- **Which connections are read.**  For every kept connection the element of its consumer, as the main file shows it,
gives its input the variable of the first kept connection into that input; so the input reads the source of the
connection exactly if the first one has the same source. -/
theorem connection_read_iff (h : (Compiler.mk catalog rule (.standard versions)).run c shape timing = .ok a)
    (hk : k ∈ (Validation.ofComposition catalog c).connections) :
    ∃ plan text p e inputs outputs first fed own,
      Plan.ofValidation c.name (.ofComposition catalog c) = .ok plan ∧ a.primary? = some text ∧
      plan.Consumes (.ofComposition catalog c) k p e inputs outputs ∧ e.text.toList <:+: text.toList ∧
      (Validation.ofComposition catalog c).feeder? k.target = some first ∧
      StateVariable.find? plan.state first.source = some fed ∧ StateVariable.find? plan.state k.source = some own ∧
      ⟨k.target.port, .reference fed.value⟩ ∈ inputs ∧
      (⟨k.target.port, .reference own.value⟩ ∈ inputs ↔ k.source = first.source) := by
  obtain ⟨s, out, hs, hout, rfl⟩ := run_eq_ok.1 h
  obtain ⟨plan, text, hplan, htext, hfile⟩ := Generator.primary_of_generateFiles hout
  have hvalidation : s.validation = .ofComposition catalog c := by
    rw [stages_eq_ok hs]
    rfl
  rw [hvalidation] at hplan
  obtain ⟨p, e, inputs, outputs, hconsumes, input, hinput, hname⟩ := Plan.exists_consumes hplan hk
  obtain ⟨first, hfirst, hfeeder⟩ := Validation.exists_feeder hk
  obtain ⟨fed, hfed⟩ := Plan.exists_find?_source hplan hfirst
  obtain ⟨own, hown⟩ := Plan.exists_find?_source hplan hk
  have hvalue {input : PortSpec} (hname : input.name = k.target.port) :
      Plan.inputValue? (.ofComposition catalog c) plan.state p.node input = some (.reference fed.value) := by
    refine Plan.inputValue?_of_feeder ?_ hfed
    rw [hconsumes.owner, hname]
    exact hfeeder
  have hmem := Plan.mem_inputProps_iff hconsumes.inputs
  have he : e ∈ plan.elements := (List.of_mem_zip hconsumes.placed).2
  refine ⟨plan, text, p, e, inputs, outputs, first, fed, own, hplan, hfile, hconsumes,
    Generator.isInfix_primaryText htext he, hfeeder, hfed, hown, ?_, ?_⟩
  · exact (hmem _).2 ⟨input, hinput, _, hvalue hname, by rw [hname]⟩
  · constructor
    · intro hread
      obtain ⟨other, -, value, hother, heq⟩ := (hmem _).1 hread
      obtain ⟨hport, hown_eq⟩ := Markup.ElementProp.mk.inj heq
      rw [hvalue hport.symm, ← hown_eq] at hother
      have hsame : fed.value = own.value := Markup.Attribute.reference.inj (Option.some.inj hother)
      exact ((Plan.named_state hplan).value_eq_iff hown hfed).1 hsame.symm
    · intro hsource
      rw [hsource, hfed] at hown
      cases hown
      exact (hmem _).2 ⟨input, hinput, _, hvalue hname, by rw [hname]⟩

/-- Two searches whose queries lead into one input of a list. -/
def fanInPlacement : Composition :=
  ⟨"Store", none, [⟨⟨"search"⟩, ⟨"search-bar"⟩, .empty⟩, ⟨⟨"lookup"⟩, ⟨"search-bar"⟩, .empty⟩,
      ⟨⟨"list"⟩, ⟨"item-list"⟩, .empty⟩],
    [⟨⟨⟨"search"⟩, "query"⟩, ⟨⟨"list"⟩, "filter"⟩⟩, ⟨⟨⟨"lookup"⟩, "query"⟩, ⟨⟨"list"⟩, "filter"⟩⟩]⟩

def fanInValidation : Validation := .ofComposition storeCatalog fanInPlacement

theorem run_fanIn_isOk : ∃ a, (ofConfig storeCatalog .standard).run fanInPlacement .component ⟨0, ""⟩ = .ok a :=
  run_mainFile_isOk rfl (by decide +kernel) (by decide)

/-- The variables and the elements of the plan. -/
theorem plan_fanIn : ∃ plan, Plan.ofValidation "Store" fanInValidation = .ok plan ∧
    plan.state = [⟨⟨⟨"search"⟩, "query"⟩, "searchQuery", "setSearchQuery"⟩,
      ⟨⟨⟨"lookup"⟩, "query"⟩, "lookupQuery", "setLookupQuery"⟩] ∧
    (plan.elements.map fun e => (e.tag, e.props.map Markup.ElementProp.text)) =
      [("SearchBar", ["onQuery=\x7bsetSearchQuery\x7d"]), ("SearchBar", ["onQuery=\x7bsetLookupQuery\x7d"]),
        ("ItemList", ["filter=\x7bsearchQuery\x7d"])] := by
  have hplan : (Plan.ofValidation "Store" fanInValidation).toOption.map (fun plan =>
      (plan.state, plan.elements.map fun e => (e.tag, e.props.map Markup.ElementProp.text))) =
      some ([⟨⟨⟨"search"⟩, "query"⟩, "searchQuery", "setSearchQuery"⟩,
          ⟨⟨⟨"lookup"⟩, "query"⟩, "lookupQuery", "setLookupQuery"⟩],
        [("SearchBar", ["onQuery=\x7bsetSearchQuery\x7d"]), ("SearchBar", ["onQuery=\x7bsetLookupQuery\x7d"]),
          ("ItemList", ["filter=\x7bsearchQuery\x7d"])]) := by decide +kernel
  obtain ⟨plan, hplan, hparts⟩ := exists_ok_of_toOption_map hplan
  obtain ⟨hstate, helements⟩ := Prod.mk.inj hparts
  exact ⟨plan, hplan, hstate, helements⟩

/-- The second of two connections into an input, for which the input reads the source of the first. -/
theorem connection_read_iff_fanIn : ∃ a plan p e inputs outputs,
    (ofConfig storeCatalog .standard).run fanInPlacement .component ⟨0, ""⟩ = .ok a ∧
      Plan.ofValidation "Store" fanInValidation = .ok plan ∧
      plan.Consumes fanInValidation ⟨⟨⟨"lookup"⟩, "query"⟩, ⟨⟨"list"⟩, "filter"⟩⟩ p e inputs outputs ∧
      ⟨"filter", .reference "searchQuery"⟩ ∈ inputs ∧ ⟨"filter", .reference "lookupQuery"⟩ ∉ inputs := by
  obtain ⟨a, ha⟩ := run_fanIn_isOk
  obtain ⟨plan, hplan, hstate, -⟩ := plan_fanIn
  have hk : (⟨⟨⟨"lookup"⟩, "query"⟩, ⟨⟨"list"⟩, "filter"⟩⟩ : Connection) ∈ fanInValidation.connections := by
    decide +kernel
  obtain ⟨plan', text, p, e, inputs, outputs, first, fed, own, hplan', -, hconsumes, -, hfirst, hfed, hown, hread,
    hiff⟩ := connection_read_iff ha hk
  obtain rfl : plan = plan' := Except.ok.inj (hplan.symm.trans hplan')
  have hfeeder : fanInValidation.feeder? ⟨⟨"list"⟩, "filter"⟩ =
      some ⟨⟨⟨"search"⟩, "query"⟩, ⟨⟨"list"⟩, "filter"⟩⟩ := by decide +kernel
  cases hfeeder.symm.trans hfirst
  rw [hstate] at hfed hown
  cases hfed
  cases hown
  exact ⟨a, plan, p, e, inputs, outputs, ha, hplan, hconsumes, hread, fun hmem => absurd (hiff.1 hmem) (by decide)⟩

/-- Both connections are kept without a finding, and nothing reads the source of the second. -/
theorem second_source_unread : ∃ a plan,
    (ofConfig storeCatalog .standard).run fanInPlacement .component ⟨0, ""⟩ = .ok a ∧
      Plan.ofValidation "Store" fanInValidation = .ok plan ∧
      fanInValidation.connections = fanInPlacement.connections ∧ fanInValidation.diagnostics = [] ∧
      ¬∀ k ∈ fanInValidation.connections, ∃ p e var, (p, e) ∈ fanInValidation.placed.zip plan.elements ∧
        p.node.id = k.target.owner ∧ StateVariable.find? plan.state k.source = some var ∧
          ⟨k.target.port, .reference var.value⟩ ∈ e.props := by
  obtain ⟨a, ha⟩ := run_fanIn_isOk
  obtain ⟨plan, hplan, hstate, helements⟩ := plan_fanIn
  refine ⟨a, plan, ha, hplan, by decide +kernel, by decide +kernel, fun hall => ?_⟩
  obtain ⟨p, e, var, hzip, -, hvar, hprop⟩ := hall ⟨⟨⟨"lookup"⟩, "query"⟩, ⟨⟨"list"⟩, "filter"⟩⟩ (by decide +kernel)
  rw [hstate] at hvar
  cases hvar
  have he := List.mem_map_of_mem (f := fun e => (e.tag, e.props.map Markup.ElementProp.text)) (List.of_mem_zip hzip).2
  have htext : "filter=\x7blookupQuery\x7d" ∈ e.props.map Markup.ElementProp.text := List.mem_map_of_mem hprop
  rw [helements] at he
  have hnone : ∀ shown ∈ [("SearchBar", ["onQuery=\x7bsetSearchQuery\x7d"]),
      ("SearchBar", ["onQuery=\x7bsetLookupQuery\x7d"]), ("ItemList", ["filter=\x7bsearchQuery\x7d"])],
      "filter=\x7blookupQuery\x7d" ∉ shown.2 := by decide
  exact hnone _ he htext

end Compiler

end CapsuleCompiler
