import CapsuleCompiler.Proofs.Generation.Flow

/-!
# Proofs.Generation.Props — the props of an element

The element of a placed node has the symbol of its capsule as its tag, and its props are those of the declared inputs
that are given something, then those of the declared outputs with a variable, each in the order of declaration
(`props_of_elementOf`).  An input is given something if it is required or fed (`isSome_inputValue?_iff`), and an output
has a variable if it is a source (`isSome_find?_state_iff`).
-/

namespace CapsuleCompiler

variable {v : Validation} {state : List StateVariable} {n : Node} {p : PlacedNode}

/-- What gives an input of a placed node a prop. -/
inductive Validation.Fed (v : Validation) (p : PlacedNode) (input : PortSpec) : Prop
  | required (h : input.required)
  | connection {k : Connection} (hk : k ∈ v.connections) (htarget : k.target = ⟨p.node.id, input.name⟩)
  | literal {value : Json} (h : p.node.bindings.get? input.name = some (.literal value))
  | reference {source : PortRef} (h : p.node.bindings.get? input.name = some (.reference source))
    (hsource : v.Declares source)

theorem Validation.feeder?_eq_none_iff {target : PortRef} :
    v.feeder? target = none ↔ ∀ k ∈ v.connections, k.target ≠ target := by
  simp [feeder?]

namespace Plan

/-! ### Props by declaration -/

/-- The prop of an input, if it is given something. -/
def inputProp? (v : Validation) (state : List StateVariable) (n : Node) (input : PortSpec) :
    Option Markup.ElementProp := (inputValue? v state n input).map (⟨input.name, ·⟩)

/-- The prop of an output, if it has a variable. -/
def outputProp? (state : List StateVariable) (n : Node) (output : PortSpec) : Option Markup.ElementProp :=
  (StateVariable.find? state ⟨n.id, output.name⟩).map fun x => ⟨callbackName output, .reference x.setter⟩

@[simp] theorem isSome_inputProp? (input : PortSpec) :
    (inputProp? v state n input).isSome = (inputValue? v state n input).isSome := Option.isSome_map

@[simp] theorem isSome_outputProp? (output : PortSpec) :
    (outputProp? state n output).isSome = (StateVariable.find? state ⟨n.id, output.name⟩).isSome := Option.isSome_map

theorem name_of_inputProp? {input : PortSpec} {prop : Markup.ElementProp}
    (h : inputProp? v state n input = some prop) : prop.name = input.name := by
  obtain ⟨value, -, rfl⟩ := Option.map_eq_some_iff.1 h
  rfl

theorem name_of_outputProp? {output : PortSpec} {prop : Markup.ElementProp}
    (h : outputProp? state n output = some prop) : prop.name = callbackName output := by
  obtain ⟨x, -, rfl⟩ := Option.map_eq_some_iff.1 h
  rfl

theorem propOf_eq_ok_iff {name : String} {value : Markup.Attribute} {prop : Markup.ElementProp} :
    propOf name value = .ok prop ↔ prop = ⟨name, value⟩ ∧ Naming.isIdentifier name := by
  unfold propOf
  by_cases hident : Naming.isIdentifier name
  · rw [if_pos hident]
    simp [hident, eq_comm]
  · rw [if_neg hident]
    simp [hident]

/-- The inputs that are given something have names that can be props. -/
theorem inputProps_eq_ok_iff {inputs : List PortSpec} {props : List Markup.ElementProp} :
    inputProps v state n inputs = .ok props ↔ props = inputs.filterMap (inputProp? v state n) ∧
      ∀ input ∈ inputs, (inputValue? v state n input).isSome → Naming.isIdentifier input.name := by
  induction inputs generalizing props with
  | nil =>
    constructor
    · intro h
      cases h
      simp
    · rintro ⟨rfl, -⟩
      rfl
  | cons input inputs ih =>
    rw [inputProps, List.filterMap_cons, List.forall_mem_cons, inputProp?]
    cases hvalue : inputValue? v state n input with
    | none => simpa using ih
    | some value =>
      simp only [bind_eq_ok, propOf_eq_ok_iff, ih, Option.map_some, Option.isSome_some, true_imp_iff]
      constructor
      · rintro ⟨first, ⟨rfl, hident⟩, later, ⟨rfl, hothers⟩, h⟩
        cases h
        exact ⟨rfl, hident, hothers⟩
      · rintro ⟨rfl, hident, hothers⟩
        exact ⟨_, ⟨rfl, hident⟩, _, ⟨rfl, hothers⟩, rfl⟩

/-- The outputs with a variable have names that can be props, as their callbacks have. -/
theorem outputProps_eq_ok_iff {outputs : List PortSpec} {props : List Markup.ElementProp} :
    outputProps state n outputs = .ok props ↔ props = outputs.filterMap (outputProp? state n) ∧
      ∀ output ∈ outputs, (StateVariable.find? state ⟨n.id, output.name⟩).isSome →
        Naming.isIdentifier output.name ∧ Naming.isIdentifier (callbackName output) := by
  induction outputs generalizing props with
  | nil =>
    constructor
    · intro h
      cases h
      simp
    · rintro ⟨rfl, -⟩
      rfl
  | cons output outputs ih =>
    rw [outputProps, List.filterMap_cons, List.forall_mem_cons, outputProp?]
    cases hvar : StateVariable.find? state ⟨n.id, output.name⟩ with
    | none => simpa using ih
    | some x =>
      by_cases hname : Naming.isIdentifier output.name
      · simp only [hname, if_true, bind_eq_ok, propOf_eq_ok_iff, ih, Option.map_some, Option.isSome_some,
          true_imp_iff, true_and]
        constructor
        · rintro ⟨first, ⟨rfl, hident⟩, later, ⟨rfl, hothers⟩, h⟩
          cases h
          exact ⟨rfl, hident, hothers⟩
        · rintro ⟨rfl, hident, hothers⟩
          exact ⟨_, ⟨rfl, hident⟩, _, ⟨rfl, hothers⟩, rfl⟩
      · simp [hname]

/-- An element is its tag, the props of the inputs and those of the outputs. -/
theorem elementOf_eq_ok_iff {e : Markup.Element} : elementOf v state p = .ok e ↔
    (∃ inputs outputs, inputProps v state p.node p.definition.ports.inputs = .ok inputs ∧
      outputProps state p.node p.definition.ports.outputs = .ok outputs ∧ e.props = inputs ++ outputs) ∧
    symbolOf p.definition.id = .ok e.tag := by
  simp only [elementOf, bind_eq_ok]
  constructor
  · rintro ⟨inputs, hinputs, outputs, houtputs, tag, htag, h⟩
    cases h
    exact ⟨⟨inputs, outputs, hinputs, houtputs, rfl⟩, htag⟩
  · rintro ⟨⟨inputs, outputs, hinputs, houtputs, hprops⟩, htag⟩
    exact ⟨inputs, hinputs, outputs, houtputs, e.tag, htag, by rw [← hprops]; rfl⟩

theorem props_of_elementOf {e : Markup.Element} (h : elementOf v state p = .ok e) : e.props =
    p.definition.ports.inputs.filterMap (inputProp? v state p.node) ++
      p.definition.ports.outputs.filterMap (outputProp? state p.node) := by
  obtain ⟨⟨inputs, outputs, hinputs, houtputs, hprops⟩, -⟩ := elementOf_eq_ok_iff.1 h
  rw [hprops, (inputProps_eq_ok_iff.1 hinputs).1, (outputProps_eq_ok_iff.1 houtputs).1]

theorem isIdentifier_of_inputValue? {e : Markup.Element} (h : elementOf v state p = .ok e) {input : PortSpec}
    (hinput : input ∈ p.definition.ports.inputs) (hvalue : (inputValue? v state p.node input).isSome) :
    Naming.isIdentifier input.name := by
  obtain ⟨⟨inputs, outputs, hinputs, -, -⟩, -⟩ := elementOf_eq_ok_iff.1 h
  exact (inputProps_eq_ok_iff.1 hinputs).2 input hinput hvalue

theorem isIdentifier_of_find? {e : Markup.Element} (h : elementOf v state p = .ok e) {output : PortSpec}
    (houtput : output ∈ p.definition.ports.outputs)
    (hvar : (StateVariable.find? state ⟨p.node.id, output.name⟩).isSome) : Naming.isIdentifier output.name := by
  obtain ⟨⟨inputs, outputs, -, houtputs, -⟩, -⟩ := elementOf_eq_ok_iff.1 h
  exact ((outputProps_eq_ok_iff.1 houtputs).2 output houtput hvar).1

/-! ### What has a prop -/

@[simp] theorem isSome_standIn? (input : PortSpec) : (standIn? input).isSome = input.required := by
  unfold standIn?
  cases input.required <;> rfl

/-- An input without a connection is given what is bound to it. -/
theorem inputValue?_of_not_feeder {input : PortSpec} (h : v.feeder? ⟨n.id, input.name⟩ = none) :
    inputValue? v state n input = match n.bindings.get? input.name with
      | some (.literal value) => some (.ofJson value)
      | some (.reference source) =>
        ((StateVariable.find? state source).map fun x => .reference x.value).or (standIn? input)
      | none => standIn? input := by
  have hconnected : connected? v state n input = none := by
    rw [connected?_eq, h]
    rfl
  unfold inputValue?
  rw [hconnected]
  dsimp only
  rcases n.bindings.get? input.name with _ | _ | source
  · rfl
  · rfl
  · dsimp only
    cases StateVariable.find? state source <;> rfl

section

variable {plan : Plan} {name : String} {catalog : Catalog} {c : Composition} (hnd : (c.nodes.map (·.id)).Nodup)
  (h : ofValidation name (.ofComposition catalog c) = .ok plan)
include hnd h

theorem isSome_find?_state_iff (r : PortRef) :
    (StateVariable.find? plan.state r).isSome ↔ (Validation.ofComposition catalog c).IsSource r := by
  rw [StateVariable.isSome_find?_iff, mem_state_iff hnd h]

/-- An input has a prop if something feeds it. -/
theorem isSome_inputValue?_iff (hp : p ∈ (Validation.ofComposition catalog c).placed) {input : PortSpec}
    (hinput : input ∈ p.definition.ports.inputs) :
    (inputValue? (.ofComposition catalog c) plan.state p.node input).isSome ↔
      (Validation.ofComposition catalog c).Fed p input := by
  cases hfeeder : (Validation.ofComposition catalog c).feeder? ⟨p.node.id, input.name⟩ with
  | some k =>
    have hk := List.mem_of_find?_eq_some hfeeder
    obtain ⟨x, hx⟩ := exists_find?_source h hk
    rw [inputValue?_of_feeder hfeeder hx]
    simp only [Option.isSome_some, true_iff]
    exact .connection hk (by simpa using List.find?_some hfeeder)
  | none =>
    have hdeclared : (p.definition.input? input.name).isSome := List.find?_isSome.2 ⟨input, hinput, beq_self_eq_true _⟩
    have hnone := Validation.feeder?_eq_none_iff.1 hfeeder
    rw [inputValue?_of_not_feeder hfeeder]
    constructor
    · intro hsome
      cases hbound : p.node.bindings.get? input.name with
      | none => exact .required (by simpa [hbound] using hsome)
      | some binding =>
        cases binding with
        | literal value => exact .literal hbound
        | reference source =>
          by_cases hvar : (StateVariable.find? plan.state source).isSome
          · exact .reference hbound (((isSome_find?_state_iff hnd h source).1 hvar).declares hnd)
          · exact .required (by simpa [hbound, hvar] using hsome)
    · rintro (hrequired | ⟨hk, htarget⟩ | hbound | ⟨hbound, hsource⟩)
      · rcases p.node.bindings.get? input.name with _ | _ | source <;> simp [hrequired]
      · exact absurd htarget (hnone _ hk)
      · simp [hbound]
      · have hvar := (isSome_find?_state_iff hnd h _).2 (.binding hp hbound hdeclared hsource)
        simp [hbound, hvar]

end

/-! ### Names -/

theorem map_name_filterMap {f : PortSpec → Option Markup.ElementProp} {key : PortSpec → String}
    (h : ∀ port prop, f port = some prop → prop.name = key port) (ports : List PortSpec) :
    (ports.filterMap f).map (·.name) = (ports.filter fun port => (f port).isSome).map key := by
  induction ports with
  | nil => rfl
  | cons port ports ih =>
    rw [List.filterMap_cons, List.filter_cons]
    cases hf : f port with
    | none => simpa using ih
    | some prop => simpa using ⟨h port prop hf, ih⟩

/-- The names of the props are those of the inputs and the callbacks that have one. -/
theorem names_of_elementOf {e : Markup.Element} (h : elementOf v state p = .ok e) : e.props.map (·.name) =
    (p.definition.ports.inputs.filter fun input => (inputValue? v state p.node input).isSome).map (·.name) ++
      (p.definition.ports.outputs.filter fun output =>
        (StateVariable.find? state ⟨p.node.id, output.name⟩).isSome).map callbackName := by
  rw [props_of_elementOf h, List.map_append, map_name_filterMap fun _ _ => name_of_inputProp?,
    map_name_filterMap fun _ _ => name_of_outputProp?]
  simp only [isSome_inputProp?, isSome_outputProp?]

theorem callbackName_eq_iff {o o' : PortSpec} :
    callbackName o = callbackName o' ↔ Naming.pascal o.name = Naming.pascal o'.name :=
  String.append_right_inj _

/-- Names are distinct if no input is named like a callback, and no two callbacks are named alike. -/
theorem nodup_names_iff {inputs outputs : List PortSpec} (hinputs : (inputs.map (·.name)).Nodup)
    (houtputs : (outputs.map (·.name)).Nodup) : (inputs.map (·.name) ++ outputs.map callbackName).Nodup ↔
      (∀ input ∈ inputs, ∀ output ∈ outputs, input.name ≠ callbackName output) ∧
      ∀ o ∈ outputs, ∀ o' ∈ outputs, Naming.pascal o.name = Naming.pascal o'.name → o = o' := by
  rw [List.nodup_append, List.nodup_map_iff_inj_on houtputs.of_map]
  simp only [callbackName_eq_iff, List.forall_mem_map]
  constructor
  · exact fun ⟨_, hcallbacks, hapart⟩ => ⟨hapart, hcallbacks⟩
  · exact fun ⟨hapart, hcallbacks⟩ => ⟨hinputs, hcallbacks, hapart⟩

/-- The names of the props of an element, by what is declared, and when they are distinct. -/
structure NamesProps (v : Validation) (p : PlacedNode) (e : Markup.Element) : Prop where
  /-- The inputs that are fed, and the callbacks of the outputs that are sources, in order. -/
  names : ∃ fed sourced : List PortSpec,
    fed.Sublist p.definition.ports.inputs ∧ sourced.Sublist p.definition.ports.outputs ∧
    (∀ input ∈ p.definition.ports.inputs, input ∈ fed ↔ v.Fed p input) ∧
    (∀ output ∈ p.definition.ports.outputs, output ∈ sourced ↔ v.IsSource ⟨p.node.id, output.name⟩) ∧
    e.props.map (·.name) = fed.map (·.name) ++ sourced.map callbackName
  nodup_iff : (p.definition.ports.inputs.map (·.name)).Nodup → (p.definition.ports.outputs.map (·.name)).Nodup →
    ((e.props.map (·.name)).Nodup ↔
      (∀ input ∈ p.definition.ports.inputs, v.Fed p input → ∀ output ∈ p.definition.ports.outputs,
        v.IsSource ⟨p.node.id, output.name⟩ → input.name ≠ "on" ++ Naming.pascal output.name) ∧
      ∀ o ∈ p.definition.ports.outputs, v.IsSource ⟨p.node.id, o.name⟩ → ∀ o' ∈ p.definition.ports.outputs,
        v.IsSource ⟨p.node.id, o'.name⟩ → Naming.pascal o.name = Naming.pascal o'.name → o = o')

theorem namesProps_of_ofValidation {plan : Plan} {name : String} {catalog : Catalog} {c : Composition}
    (hnd : (c.nodes.map (·.id)).Nodup) (h : ofValidation name (.ofComposition catalog c) = .ok plan)
    {e : Markup.Element} (hp : p ∈ (Validation.ofComposition catalog c).placed)
    (he : elementOf (.ofComposition catalog c) plan.state p = .ok e) :
    NamesProps (.ofComposition catalog c) p e := by
  have hfed : ∀ input ∈ p.definition.ports.inputs,
      input ∈ p.definition.ports.inputs.filter (fun input =>
        (inputValue? (.ofComposition catalog c) plan.state p.node input).isSome) ↔
      (Validation.ofComposition catalog c).Fed p input := fun input hinput => by
    rw [List.mem_filter, isSome_inputValue?_iff hnd h hp hinput, and_iff_right hinput]
  have hsourced : ∀ output ∈ p.definition.ports.outputs,
      output ∈ p.definition.ports.outputs.filter (fun output =>
        (StateVariable.find? plan.state ⟨p.node.id, output.name⟩).isSome) ↔
      (Validation.ofComposition catalog c).IsSource ⟨p.node.id, output.name⟩ := fun output houtput => by
    rw [List.mem_filter, isSome_find?_state_iff hnd h, and_iff_right houtput]
  refine ⟨⟨_, _, List.filter_sublist, List.filter_sublist, hfed, hsourced, names_of_elementOf he⟩,
    fun hinputs houtputs => ?_⟩
  rw [names_of_elementOf he, nodup_names_iff (hinputs.sublist (List.filter_sublist.map _))
    (houtputs.sublist (List.filter_sublist.map _))]
  -- A member of the one list is a declared port of which the other list says nothing more.
  constructor
  · rintro ⟨hapart, hcallbacks⟩
    exact ⟨fun i hi hf o ho hs => hapart i ((hfed i hi).2 hf) o ((hsourced o ho).2 hs),
      fun o ho hs o' ho' hs' => hcallbacks o ((hsourced o ho).2 hs) o' ((hsourced o' ho').2 hs')⟩
  · rintro ⟨hapart, hcallbacks⟩
    refine ⟨fun i hi o ho => ?_, fun o ho o' ho' => ?_⟩
    · have hi' := List.mem_of_mem_filter hi
      have ho' := List.mem_of_mem_filter ho
      exact hapart i hi' ((hfed i hi').1 hi) o ho' ((hsourced o ho').1 ho)
    · have hmem := List.mem_of_mem_filter ho
      have hmem' := List.mem_of_mem_filter ho'
      exact hcallbacks o hmem ((hsourced o hmem).1 ho) o' hmem' ((hsourced o' hmem').1 ho')

end Plan

/-! ### The elements of a main file -/

namespace Compiler

variable {compiler : Compiler} {c : Composition} {shape : Shape} {timing : Timing} {a : Artifact}

/-- A run goes by one plan, which tells the primary file. -/
theorem exists_plan_of_run (h : compiler.run c shape timing = .ok a) : ∃ plan text,
    (c.nodes.map (·.id)).Nodup ∧ Plan.ofValidation c.name (.ofComposition compiler.catalog c) = .ok plan ∧
      compiler.generator.primaryText plan shape = .ok text ∧ a.primary? = some text := by
  obtain ⟨s, out, hs, hout, rfl⟩ := run_eq_ok.1 h
  obtain ⟨plan, text, hplan, htext, hfile⟩ := Generator.primary_of_generateFiles hout
  obtain ⟨v, hv, -⟩ := bind_eq_ok.1 hs
  have hvalidation : s.validation = .ofComposition compiler.catalog c := by
    rw [stages_eq_ok hs]
    rfl
  rw [hvalidation] at hplan
  exact ⟨plan, text, (Composition.validate_eq_ok_iff.1 hv).1, hplan, htext, hfile⟩

/-- **Props of an element.**  They are those of the declared inputs that are fed and the callbacks of the outputs that
are sources.  Where declared names are distinct, so are those of the props, unless an input that is fed is named like
the callback of a source, or two sources of one instance have callbacks of one name. -/
theorem propNames_nodup_iff (h : compiler.run c shape timing = .ok a) : ∃ plan text,
    Plan.ofValidation c.name (.ofComposition compiler.catalog c) = .ok plan ∧
      compiler.generator.primaryText plan shape = .ok text ∧ a.primary? = some text ∧
      List.Forall₂ (Plan.NamesProps (.ofComposition compiler.catalog c))
        (Validation.ofComposition compiler.catalog c).placed plan.elements := by
  obtain ⟨plan, text, hnd, hplan, htext, hfile⟩ := exists_plan_of_run h
  have helements := Plan.forall₂_elementsOf (Plan.ofValidation_eq_ok hplan).2.2.1
  refine ⟨plan, text, hplan, htext, hfile, ?_⟩
  rw [List.forall₂_iff_zip] at helements ⊢
  refine ⟨helements.1, fun {p e} hzip => ?_⟩
  exact Plan.namesProps_of_ofValidation hnd hplan (List.of_mem_zip hzip).1 (helements.2 hzip)

/-- A picker, which takes the function that it calls with what it selects, and a card that shows one item. -/
def itemPicker : CapsuleDefinition :=
  ⟨⟨"item-picker"⟩, "Picker", "", "", ⟨[⟨"onSelect", .function, true, none⟩], [⟨"select", .any, false, none⟩]⟩, none,
    .empty⟩

def itemCard : CapsuleDefinition :=
  ⟨⟨"item-card"⟩, "Card", "", "", ⟨[⟨"item", .any, false, none⟩], []⟩, none, .empty⟩

def pickerCatalog : Catalog := .ofList [itemPicker, itemCard]

/-- A picker that tells a card what to show. -/
def pickerPlacement : Composition :=
  ⟨"Store", none, [⟨⟨"list"⟩, ⟨"item-picker"⟩, .empty⟩, ⟨⟨"card"⟩, ⟨"item-card"⟩, .empty⟩],
    [⟨⟨⟨"list"⟩, "select"⟩, ⟨⟨"card"⟩, "item"⟩⟩]⟩

def pickerValidation : Validation := .ofComposition pickerCatalog pickerPlacement

theorem placed_picker : pickerValidation.placed =
    [⟨⟨⟨"list"⟩, ⟨"item-picker"⟩, .empty⟩, itemPicker⟩, ⟨⟨⟨"card"⟩, ⟨"item-card"⟩, .empty⟩, itemCard⟩] := rfl

theorem run_picker_isOk : ∃ a, (ofConfig pickerCatalog .standard).run pickerPlacement .component ⟨0, ""⟩ = .ok a :=
  run_mainFile_isOk rfl (by decide +kernel) (by decide)

/-- The card has distinct props; the picker has not, for its input is named like the callback of its output. -/
theorem propNames_nodup_iff_picker : ∃ a plan list card,
    (ofConfig pickerCatalog .standard).run pickerPlacement .component ⟨0, ""⟩ = .ok a ∧
      Plan.ofValidation "Store" pickerValidation = .ok plan ∧ plan.elements = [list, card] ∧
      (itemPicker.ports.inputs.map (·.name)).Nodup ∧ (itemPicker.ports.outputs.map (·.name)).Nodup ∧
      ¬(list.props.map (·.name)).Nodup ∧ (card.props.map (·.name)).Nodup := by
  obtain ⟨a, ha⟩ := run_picker_isOk
  obtain ⟨plan, text, hplan, -, -, hall⟩ := propNames_nodup_iff ha
  have hall : List.Forall₂ (Plan.NamesProps pickerValidation) pickerValidation.placed plan.elements := hall
  rw [placed_picker] at hall
  obtain ⟨list, rest, hlist, hrest, helements⟩ := List.forall₂_cons_left_iff.1 hall
  obtain ⟨card, none, hcard, hnone, rfl⟩ := List.forall₂_cons_left_iff.1 hrest
  cases hnone
  have hkept : (⟨⟨⟨"list"⟩, "select"⟩, ⟨⟨"card"⟩, "item"⟩⟩ : Connection) ∈ pickerValidation.connections := by
    decide +kernel
  refine ⟨a, plan, list, card, ha, hplan, helements, by decide, by decide, fun hnodup => ?_, ?_⟩
  · obtain ⟨hapart, -⟩ := (hlist.nodup_iff (by decide) (by decide)).1 hnodup
    exact hapart ⟨"onSelect", .function, true, none⟩ List.mem_cons_self (.required rfl)
      ⟨"select", .any, false, none⟩ List.mem_cons_self (.connection hkept) rfl
  · refine (hcard.nodup_iff (by decide) (by decide)).2 ⟨fun _ _ _ output houtput => ?_, fun output houtput => ?_⟩
    all_goals cases houtput

/-- The placeholder of a required function and the setter go under one name, without a finding. -/
theorem callback_named_like_input : ∃ a plan text list card,
    (ofConfig pickerCatalog .standard).run pickerPlacement .component ⟨0, ""⟩ = .ok a ∧
      Plan.ofValidation "Store" pickerValidation = .ok plan ∧ plan.elements = [list, card] ∧
      a.primary? = some text ∧ list.text.toList <:+: text.toList ∧ pickerValidation.diagnostics = [] ∧
      list.text = "<ItemPicker onSelect=\x7b() => \x7b\x7d\x7d onSelect=\x7bsetListSelect\x7d />" ∧
      (∀ p ∈ pickerValidation.placed, (p.definition.ports.inputs.map (·.name)).Nodup ∧
        (p.definition.ports.outputs.map (·.name)).Nodup) ∧
      ¬∀ e ∈ plan.elements, (e.props.map (·.name)).Nodup := by
  obtain ⟨a, ha⟩ := run_picker_isOk
  obtain ⟨plan, text, -, hplan, htext, hfile⟩ := exists_plan_of_run ha
  have hparts : (Plan.ofValidation "Store" pickerValidation).toOption.map (fun plan =>
      plan.elements.map fun e => (e.text, e.props.map (·.name))) =
      some [("<ItemPicker onSelect=\x7b() => \x7b\x7d\x7d onSelect=\x7bsetListSelect\x7d />", ["onSelect", "onSelect"]),
        ("<ItemCard item=\x7blistSelect\x7d />", ["item"])] := by decide +kernel
  obtain ⟨plan', hplan', hparts⟩ := exists_ok_of_toOption_map hparts
  obtain rfl : plan = plan' := Except.ok.inj (hplan.symm.trans hplan')
  obtain ⟨list, rest, helements, hlist, hrest⟩ := List.map_eq_cons_iff.1 hparts
  obtain ⟨card, none, rfl, -, hnone⟩ := List.map_eq_cons_iff.1 hrest
  obtain rfl := List.map_eq_nil_iff.1 hnone
  obtain ⟨hlisttext, hnames⟩ := Prod.mk.inj hlist
  have hmem : list ∈ plan.elements := helements ▸ List.mem_cons_self
  refine ⟨a, plan, text, list, card, ha, hplan, helements, hfile, Generator.isInfix_primaryText htext hmem,
    by decide +kernel, hlisttext, ?_, fun hall => ?_⟩
  · rw [placed_picker]
    simp [itemPicker, itemCard]
  · have hnodup := hall list hmem
    rw [hnames] at hnodup
    exact absurd hnodup (by decide)

end Compiler

end CapsuleCompiler
