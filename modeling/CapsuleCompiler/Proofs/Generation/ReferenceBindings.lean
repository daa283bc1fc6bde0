import CapsuleCompiler.Proofs.Generation.Props
import CapsuleCompiler.Proofs.Validation.Unbinding

/-!
# Proofs.Generation.ReferenceBindings — references that are bound to inputs

A binding with a finding is as good as none: the composition without it has the same plan (`ofValidation_unbind`).  A
reference without a finding, on an input that no connection leads to, passes the variable of its source.  So the
element of a placed node passes the variable exactly if there is no finding on the reference
(`Compiler.reference_read_iff`).
-/

namespace CapsuleCompiler

variable {v v' : Validation} {state : List StateVariable} {p : PlacedNode} {port : String} {source : PortRef}

namespace Plan

/-! ### Plans by their parts -/

theorem importsOf_map {f : PlacedNode → PlacedNode} (hf : ∀ p, (f p).definition = p.definition)
    (seen : List CapsuleId) (ps : List PlacedNode) : importsOf seen (ps.map f) = importsOf seen ps := by
  induction ps generalizing seen with
  | nil => rfl
  | cons p ps ih =>
    rw [List.map_cons, importsOf, importsOf, hf]
    simp only [ih]

theorem elementsOf_map {f : PlacedNode → PlacedNode} {ps : List PlacedNode}
    (h : ∀ p ∈ ps, elementOf v' state (f p) = elementOf v state p) :
    elementsOf v' state (ps.map f) = elementsOf v state ps := by
  induction ps with
  | nil => rfl
  | cons p ps ih =>
    rw [List.forall_mem_cons] at h
    rw [List.map_cons, elementsOf, elementsOf, h.1, ih h.2]

theorem inputProps_congr {n n' : Node} {inputs : List PortSpec}
    (h : ∀ input ∈ inputs, inputValue? v' state n' input = inputValue? v state n input) :
    inputProps v' state n' inputs = inputProps v state n inputs := by
  induction inputs with
  | nil => rfl
  | cons input inputs ih =>
    rw [List.forall_mem_cons] at h
    rw [inputProps, inputProps, h.1, ih h.2]

theorem outputProps_congr {n n' : Node} (hid : n'.id = n.id) (outputs : List PortSpec) :
    outputProps state n' outputs = outputProps state n outputs := by
  induction outputs with
  | nil => rfl
  | cons output outputs ih => rw [outputProps, outputProps, hid, ih]

/-! ### Bindings with a finding -/

/-- What is bound to a port, if anything, has a finding. -/
def Idle (v : Validation) (p : PlacedNode) (port : String) : Prop :=
  ∀ b, p.node.bindings.get? port = some b → (Validation.checkBinding v.placed p port b).isSome

theorem Idle.cases (h : Idle v p port) {b : Binding} (hbound : p.node.bindings.get? port = some b) :
    p.definition.input? port = none ∨ ∃ source, b = .reference source ∧ ¬Validation.isOutput v.placed source := by
  obtain ⟨d, hd⟩ := Option.isSome_iff_exists.1 (h b hbound)
  rcases Validation.checkBinding_eq_some hd with ⟨hinput, -⟩ | ⟨source, hsource, hdangling, -⟩
  · exact .inl hinput
  · exact .inr ⟨source, hsource, hdangling⟩

/-- A binding with a finding gives its source no variable. -/
theorem referenceSources_unbind (houtput : Validation.isOutput v'.placed = Validation.isOutput v.placed)
    (h : Idle v p port) : referenceSources v' (p.unbind p.node.id port) = referenceSources v p := by
  unfold referenceSources PlacedNode.unbind
  dsimp only
  rw [Node.bindings_unbind_self, houtput]
  refine Dict.filterMap_entries_erase fun b hbound => ?_
  rcases h.cases hbound with hinput | ⟨source, rfl, hdangling⟩
  · cases b <;> simp [hinput]
  · simp [hdangling]

section

variable {plan : Plan} {name : String} {catalog : Catalog} {c : Composition} (hnd : (c.nodes.map (·.id)).Nodup)
  (h : ofValidation name (.ofComposition catalog c) = .ok plan)
include hnd h

theorem find?_state_eq_none (hdangling : ¬Validation.isOutput (Validation.ofComposition catalog c).placed source) :
    StateVariable.find? plan.state source = none := by
  rw [← Option.not_isSome_iff_eq_none, isSome_find?_state_iff hnd h]
  exact fun hsource => hdangling ((Validation.isOutput_iff_declares hnd).2 (hsource.declares hnd))

/-- A binding with a finding gives its input nothing. -/
theorem inputValue?_unbind (hidle : Idle (.ofComposition catalog c) p port) {input : PortSpec}
    (hinput : input ∈ p.definition.ports.inputs) :
    inputValue? (.ofComposition catalog (c.unbind p.node.id port)) plan.state (p.node.unbind p.node.id port) input =
      inputValue? (.ofComposition catalog c) plan.state p.node input := by
  have hfeeder : (Validation.ofComposition catalog (c.unbind p.node.id port)).feeder?
      ⟨(p.node.unbind p.node.id port).id, input.name⟩ =
      (Validation.ofComposition catalog c).feeder? ⟨p.node.id, input.name⟩ := by
    unfold Validation.feeder?
    rw [Validation.connections_unbind hnd, Node.id_unbind]
  cases hk : (Validation.ofComposition catalog c).feeder? ⟨p.node.id, input.name⟩ with
  | some k =>
    obtain ⟨x, hx⟩ := exists_find?_source h (List.mem_of_find?_eq_some hk)
    rw [inputValue?_of_feeder (hfeeder.trans hk) hx, inputValue?_of_feeder hk hx]
  | none =>
    rw [inputValue?_of_not_feeder (hfeeder.trans hk), inputValue?_of_not_feeder hk, Node.bindings_unbind_self,
      Dict.get?_erase]
    by_cases hport : input.name = port
    · rw [if_pos hport]
      cases hbound : p.node.bindings.get? input.name with
      | none => rfl
      | some b =>
        rcases hidle.cases (hport ▸ hbound) with hnone | ⟨source, rfl, hdangling⟩
        · have hsome : (p.definition.input? port).isSome := List.find?_isSome.2 ⟨input, hinput, by simpa using hport⟩
          rw [hnone] at hsome
          cases hsome
        · dsimp only
          rw [find?_state_eq_none hnd h hdangling]
          rfl
    · rw [if_neg hport]

theorem elementOf_unbind (hp : p ∈ (Validation.ofComposition catalog c).placed)
    (hidle : Idle (.ofComposition catalog c) p port) {q : PlacedNode}
    (hq : q ∈ (Validation.ofComposition catalog c).placed) :
    elementOf (.ofComposition catalog (c.unbind p.node.id port)) plan.state (q.unbind p.node.id port) =
      elementOf (.ofComposition catalog c) plan.state q := by
  have hinputs : ∀ input ∈ q.definition.ports.inputs,
      inputValue? (.ofComposition catalog (c.unbind p.node.id port)) plan.state (q.node.unbind p.node.id port) input =
        inputValue? (.ofComposition catalog c) plan.state q.node input := by
    intro input hinput
    by_cases hid : q.node.id = p.node.id
    · obtain rfl := List.inj_on_of_nodup_map (Validation.nodup_place hnd) hq hp hid
      exact inputValue?_unbind hnd h hidle hinput
    · have hconnected : connected? (.ofComposition catalog (c.unbind p.node.id port)) plan.state q.node input =
          connected? (.ofComposition catalog c) plan.state q.node input := by
        unfold connected?
        rw [Validation.connections_unbind hnd]
      rw [Node.unbind_of_ne hid, inputValue?, inputValue?, hconnected]
  unfold elementOf PlacedNode.unbind
  dsimp only
  rw [inputProps_congr hinputs, outputProps_congr (Node.id_unbind _)]

/-- Without a binding that has a finding the plan is the same. -/
theorem ofValidation_unbind (hp : p ∈ (Validation.ofComposition catalog c).placed)
    (hidle : Idle (.ofComposition catalog c) p port) :
    ofValidation name (.ofComposition catalog (c.unbind p.node.id port)) = .ok plan := by
  have hsources : sources (.ofComposition catalog (c.unbind p.node.id port)) = sources (.ofComposition catalog c) := by
    unfold sources
    rw [Validation.connections_unbind hnd, Validation.placed_unbind, List.flatMap_map]
    refine congrArg _ (List.flatMap_congr fun q hq => ?_)
    by_cases hid : q.node.id = p.node.id
    · obtain rfl := List.inj_on_of_nodup_map (Validation.nodup_place hnd) hq hp hid
      exact referenceSources_unbind (Validation.isOutput_unbind hnd) hidle
    · unfold referenceSources PlacedNode.unbind
      rw [Node.unbind_of_ne hid, Validation.isOutput_unbind hnd]
  obtain ⟨himports, hstate, helements, hnames⟩ := ofValidation_eq_ok_iff.1 h
  refine ofValidation_eq_ok_iff.2 ⟨?_, hsources ▸ hstate, ?_, hnames⟩
  · rw [Validation.placed_unbind, importsOf_map (f := PlacedNode.unbind p.node.id port) fun _ => rfl]
    exact himports
  · rw [Validation.placed_unbind, elementsOf_map fun q hq => elementOf_unbind hnd h hp hidle hq]
    exact helements

/-! ### References without a finding -/

/-- The name of a port that is a source can be a prop. -/
theorem isIdentifier_of_isSource (hsource : (Validation.ofComposition catalog c).IsSource source) :
    Naming.isIdentifier source.port := by
  obtain ⟨q, hq, howner, houtput⟩ := hsource.declares hnd
  obtain ⟨output, houtput⟩ := Option.isSome_iff_exists.1 houtput
  obtain ⟨e, -, he⟩ := exists_element h hq
  have hname : output.name = source.port := by simpa using List.find?_some houtput
  rw [← hname]
  refine isIdentifier_of_find? he (List.mem_of_find?_eq_some houtput) ?_
  rw [howner, hname, isSome_find?_state_iff hnd h]
  exact hsource

variable (hp : p ∈ (Validation.ofComposition catalog c).placed)
  (hbound : p.node.bindings.get? port = some (.reference source)) (hinput : (p.definition.input? port).isSome)
include hp hbound hinput

/-- In a composition with a plan the finding on a reference tells the reference. -/
theorem danglingSource_mem_iff :
    Validation.danglingSource p port source ∈ (Validation.ofComposition catalog c).diagnostics ↔
      ¬Validation.isOutput (Validation.ofComposition catalog c).placed source := by
  refine Validation.danglingSource_mem_iff hp hbound hinput fun houtput => ?_
  have hdeclared := (Validation.isOutput_iff_declares hnd).1 houtput
  obtain ⟨input, hfound⟩ := Option.isSome_iff_exists.1 hinput
  obtain rfl : input.name = port := by simpa using List.find?_some hfound
  have hmem := List.mem_of_find?_eq_some hfound
  obtain ⟨e, -, he⟩ := exists_element h hp
  have hvalue := (isSome_inputValue?_iff hnd h hp hmem).2 (.reference hbound hdeclared)
  exact ⟨Naming.quote_notMem_of_isIdentifier (isIdentifier_of_inputValue? he hmem hvalue),
    Naming.quote_notMem_of_isIdentifier (isIdentifier_of_isSource hnd h (.binding hp hbound hinput hdeclared))⟩

end

/-- What the element of a placed node makes of a reference that is bound to an input. -/
structure ReadsReference (plan : Plan) (v : Validation) (p : PlacedNode) (e : Markup.Element) (port : String)
    (source : PortRef) : Prop where
  /-- It passes the variable of the source exactly if there is no finding on the reference. -/
  reads_iff : (∃ x ∈ plan.state, x.source = source ∧ ⟨port, .reference x.value⟩ ∈ e.props) ↔
    Validation.danglingSource p port source ∉ v.diagnostics
  /-- With a finding the input is given what it would be given without the reference. -/
  unread : Validation.danglingSource p port source ∈ v.diagnostics →
    ∀ input ∈ p.definition.ports.inputs, input.name = port → inputProp? v plan.state p.node input =
      if input.required then some ⟨port, .placeholder input.type⟩ else none

theorem readsReference_of_ofValidation {plan : Plan} {name : String} {catalog : Catalog} {c : Composition}
    (hnd : (c.nodes.map (·.id)).Nodup) (h : ofValidation name (.ofComposition catalog c) = .ok plan)
    (hp : p ∈ (Validation.ofComposition catalog c).placed)
    (hbound : p.node.bindings.get? port = some (.reference source)) (hinput : (p.definition.input? port).isSome)
    (hfeeder : (Validation.ofComposition catalog c).feeder? ⟨p.node.id, port⟩ = none) {e : Markup.Element}
    (he : elementOf (.ofComposition catalog c) plan.state p = .ok e) :
    plan.ReadsReference (.ofComposition catalog c) p e port source := by
  have hfinding := danglingSource_mem_iff hnd h hp hbound hinput
  refine ⟨?_, fun hdangling input _ hname => ?_⟩
  · rw [hfinding, not_not]
    constructor
    · rintro ⟨x, hx, rfl, -⟩
      have hsource := (mem_state_iff hnd h x.source).1 (List.mem_map_of_mem hx)
      exact (Validation.isOutput_iff_declares hnd).2 (hsource.declares hnd)
    · intro houtput
      have hdeclared := (Validation.isOutput_iff_declares hnd).1 houtput
      have hvar := (isSome_find?_state_iff hnd h source).2 (.binding hp hbound hinput hdeclared)
      obtain ⟨x, hx⟩ := Option.isSome_iff_exists.1 hvar
      obtain ⟨hmem, hsource⟩ := StateVariable.find?_eq_some hx
      obtain ⟨input, hfound⟩ := Option.isSome_iff_exists.1 hinput
      obtain rfl : input.name = port := by simpa using List.find?_some hfound
      refine ⟨x, hmem, hsource, ?_⟩
      rw [props_of_elementOf he]
      refine List.mem_append_left _ (List.mem_filterMap.2 ⟨input, List.mem_of_find?_eq_some hfound, ?_⟩)
      unfold inputProp?
      rw [inputValue?_of_not_feeder hfeeder, hbound]
      dsimp only
      rw [hx]
      rfl
  · subst hname
    unfold inputProp?
    rw [inputValue?_of_not_feeder hfeeder, hbound]
    dsimp only
    rw [find?_state_eq_none hnd h (hfinding.1 hdangling), Option.map_none, Option.none_or, standIn?]
    split <;> rfl

end Plan

/-! ### Runs -/

namespace Compiler

variable {compiler : Compiler} {c : Composition} {shape : Shape} {timing : Timing} {a : Artifact}

/-- **References.**  Where no connection leads to a declared input, its element passes the variable of the reference
that is bound to it exactly if there is no finding on the reference, and else a placeholder if the input is required.
A reference with a finding, and whatever is bound to an input that is not declared, leave the plan as it would be
without them. -/
theorem reference_read_iff (h : compiler.run c shape timing = .ok a) : ∃ plan text,
    Plan.ofValidation c.name (.ofComposition compiler.catalog c) = .ok plan ∧
      compiler.generator.primaryText plan shape = .ok text ∧ a.primary? = some text ∧
      ∀ p e, (p, e) ∈ (Validation.ofComposition compiler.catalog c).placed.zip plan.elements →
        e.props = p.definition.ports.inputs.filterMap
            (Plan.inputProp? (.ofComposition compiler.catalog c) plan.state p.node) ++
          p.definition.ports.outputs.filterMap (Plan.outputProp? plan.state p.node) ∧
        (∀ port source, p.node.bindings.get? port = some (.reference source) → (p.definition.input? port).isSome →
          (∀ k ∈ (Validation.ofComposition compiler.catalog c).connections, k.target ≠ ⟨p.node.id, port⟩) →
          plan.ReadsReference (.ofComposition compiler.catalog c) p e port source) ∧
        ∀ port, (p.definition.input? port = none ∨ ∃ source, p.node.bindings.get? port = some (.reference source) ∧
            Validation.danglingSource p port source ∈ (Validation.ofComposition compiler.catalog c).diagnostics) →
          Plan.ofValidation c.name (.ofComposition compiler.catalog (c.unbind p.node.id port)) = .ok plan := by
  obtain ⟨plan, text, hnd, hplan, htext, hfile⟩ := exists_plan_of_run h
  have helements := Plan.forall₂_elementsOf (Plan.ofValidation_eq_ok hplan).2.2.1
  refine ⟨plan, text, hplan, htext, hfile, fun p e hzip => ?_⟩
  have hp := (List.of_mem_zip hzip).1
  have he := (List.forall₂_iff_zip.1 helements).2 hzip
  refine ⟨Plan.props_of_elementOf he, fun port source hbound hinput hnone => ?_, fun port hport => ?_⟩
  · exact Plan.readsReference_of_ofValidation hnd hplan hp hbound hinput (Validation.feeder?_eq_none_iff.2 hnone) he
  · refine Plan.ofValidation_unbind hnd hplan hp fun b hb => ?_
    unfold Validation.checkBinding
    by_cases hinput : (p.definition.input? port).isNone
    · rw [if_pos hinput]
      rfl
    · rcases hport with hport | ⟨source, hbound, hfound⟩
      · rw [hport] at hinput
        exact absurd rfl hinput
      · cases hb.symm.trans hbound
        have hsome : (p.definition.input? port).isSome := by simpa [← Option.isSome_iff_ne_none] using hinput
        rw [if_neg hinput]
        dsimp only
        rw [if_neg ((Plan.danglingSource_mem_iff hnd hplan hp hb hsome).1 hfound)]
        rfl

def boundCatalog : Catalog := .ofList [searchBar, itemList, itemPicker]

/-- A list and a picker, with references to the query of a search and to an output that it does not have. -/
def boundList : Node :=
  ⟨⟨"list"⟩, ⟨"item-list"⟩, .ofList [("colour", .reference ⟨⟨"search"⟩, "query"⟩),
    ("filter", .reference ⟨⟨"search"⟩, "query"⟩), ("note", .reference ⟨⟨"search"⟩, "reset"⟩)]⟩

def boundPicker : Node :=
  ⟨⟨"picker"⟩, ⟨"item-picker"⟩, .ofList [("onSelect", .reference ⟨⟨"search"⟩, "reset"⟩)]⟩

def boundPlacement : Composition :=
  ⟨"Store", none, [⟨⟨"search"⟩, ⟨"search-bar"⟩, .empty⟩, boundList, boundPicker], []⟩

def boundValidation : Validation := .ofComposition boundCatalog boundPlacement

theorem placed_bound : boundValidation.placed =
    [⟨⟨⟨"search"⟩, ⟨"search-bar"⟩, .empty⟩, searchBar⟩, ⟨boundList, itemList⟩, ⟨boundPicker, itemPicker⟩] := rfl

theorem reference_read_iff_bound : ∃ a plan search list picker,
    (ofConfig boundCatalog .standard).run boundPlacement .component ⟨0, ""⟩ = .ok a ∧
      Plan.ofValidation "Store" boundValidation = .ok plan ∧ plan.elements = [search, list, picker] ∧
      (∃ x ∈ plan.state, x.source = ⟨⟨"search"⟩, "query"⟩ ∧ ⟨"filter", .reference x.value⟩ ∈ list.props) ∧
      (¬∃ x ∈ plan.state, x.source = ⟨⟨"search"⟩, "reset"⟩ ∧ ⟨"onSelect", .reference x.value⟩ ∈ picker.props) ∧
      Plan.inputProp? boundValidation plan.state boundPicker ⟨"onSelect", .function, true, none⟩ =
        some ⟨"onSelect", .placeholder .function⟩ ∧
      Plan.ofValidation "Store" (.ofComposition boundCatalog (boundPlacement.unbind ⟨"list"⟩ "note")) = .ok plan ∧
      Plan.ofValidation "Store" (.ofComposition boundCatalog (boundPlacement.unbind ⟨"list"⟩ "colour")) = .ok plan := by
  obtain ⟨a, ha⟩ : ∃ a, (ofConfig boundCatalog .standard).run boundPlacement .component ⟨0, ""⟩ = .ok a :=
    run_mainFile_isOk rfl (by decide +kernel) (by decide)
  obtain ⟨plan, text, hplan, -, -, hall⟩ := reference_read_iff ha
  have hall : ∀ p e, (p, e) ∈ boundValidation.placed.zip plan.elements → _ := hall
  have hlength := (Plan.forall₂_elementsOf (Plan.ofValidation_eq_ok hplan).2.2.1).length_eq
  have hlength : boundValidation.placed.length = plan.elements.length := hlength
  rw [placed_bound] at hlength hall
  obtain ⟨search, list, picker, helements⟩ := List.length_eq_three.1 hlength.symm
  rw [helements] at hall
  obtain ⟨-, hlist, hlistUnbind⟩ := hall ⟨boundList, itemList⟩ list (by simp)
  obtain ⟨-, hpicker, -⟩ := hall ⟨boundPicker, itemPicker⟩ picker (by simp)
  have hconnections (target : PortRef) : ∀ k ∈ boundValidation.connections, k.target ≠ target := by
    intro k hk
    cases hk
  have hfilter := hlist "filter" ⟨⟨"search"⟩, "query"⟩ rfl rfl (hconnections _)
  have hselect := hpicker "onSelect" ⟨⟨"search"⟩, "reset"⟩ rfl rfl (hconnections _)
  have hread : Validation.danglingSource ⟨boundList, itemList⟩ "filter" ⟨⟨"search"⟩, "query"⟩ ∉
      boundValidation.diagnostics := by decide +kernel
  have hdangling : Validation.danglingSource ⟨boundPicker, itemPicker⟩ "onSelect" ⟨⟨"search"⟩, "reset"⟩ ∈
      boundValidation.diagnostics := by decide +kernel
  refine ⟨a, plan, search, list, picker, ha, hplan, helements, hfilter.reads_iff.2 hread,
    fun hpasses => hselect.reads_iff.1 hpasses hdangling, hselect.unread hdangling _ List.mem_cons_self rfl,
    hlistUnbind "note" (.inr ⟨⟨⟨"search"⟩, "reset"⟩, rfl, by decide +kernel⟩), hlistUnbind "colour" (.inl rfl)⟩

end Compiler

end CapsuleCompiler
