import CapsuleCompiler.Document.Composition
import CapsuleCompiler.Document.Config
import CapsuleCompiler.Proofs.Json.Origin
import CapsuleCompiler.Proofs.Json.Record

/-!
# Proofs.Document.RoundTrip — what a document says survives being written

Each kind of document is written as a record that its own reader takes back (`readsBack`).  Only two things that a
document can hold are not read back wherever they come from: a literal, which may be too deep or have a number that
does not fit, and a timeout of more than 64 bits.  Neither comes out of a text that was read (`yields_literals`,
`timeoutMs_lt`), but for floats, of which a second reading may miss the last place.  So what was read once is read again
from its compact form, in whichever form the first text had it (`documents_roundTrip`).
-/

namespace CapsuleCompiler

open Json (Fields ReadsBack Readable Reader)
open Json.Reader (choose_of_lookup mem_of_choose readsBack_bool readsBack_constant readsBack_constants readsBack_dict
  readsBack_list readsBack_map readsBack_natural readsBack_optional readsBack_record readsBack_string readsBack_value
  readsBack_variant)

variable {depth : Nat}

/-! ### Written documents -/

theorem CapsuleId.readsBack (depth : Nat) (id : CapsuleId) : ReadsBack CapsuleId.reader depth (.string id.text) id :=
  readsBack_map (readsBack_string depth id.text)

theorem InstanceId.readsBack (depth : Nat) (id : InstanceId) : ReadsBack InstanceId.reader depth (.string id.text) id :=
  readsBack_map (readsBack_string depth id.text)

theorem PortRef.readsBack (depth : Nat) (r : PortRef) : ReadsBack PortRef.reader (depth + 1) r.toJson r := by
  have hwritten : PortRef.fields.Written depth (r.owner, r.port, ())
      [("instance", .string r.owner.text), ("port", .string r.port)] :=
    .present (InstanceId.readsBack depth r.owner) (.present (readsBack_string depth r.port) .done)
  exact readsBack_map (readsBack_record hwritten (by decide) "PortRef")

theorem Binding.readsBack {b : Binding} (h : ∀ x, b = .literal x → Readable (depth + 1) x) :
    ReadsBack Binding.reader (depth + 2) b.toJson b := by
  cases b with
  | literal x =>
    exact readsBack_variant (choose_of_lookup rfl none)
      (readsBack_map (readsBack_value (h x rfl)))
  | reference source =>
    exact readsBack_variant (choose_of_lookup rfl none)
      (readsBack_map (PortRef.readsBack depth source))

def Binding.literal? : Binding → Option Json
  | literal x => some x
  | reference _ => none

/-- The literal values that are bound to the inputs of a node. -/
def Node.literals (n : Node) : List Json := n.bindings.values.filterMap Binding.literal?

def Composition.literals (c : Composition) : List Json := c.nodes.flatMap Node.literals

theorem Node.mem_literals {n : Node} {x : Json} : x ∈ n.literals ↔ ∃ e ∈ n.bindings.entries, e.2 = .literal x := by
  have hliteral (b : Binding) : b.literal? = some x ↔ b = .literal x := by
    cases b <;> simp [Binding.literal?]
  unfold Node.literals Dict.values
  simp [hliteral]

theorem Node.readsBack {n : Node} (h : ∀ x ∈ n.literals, Readable (depth + 1) x) :
    ReadsBack Node.reader (depth + 4) n.toJson n := by
  have hbindings : ReadsBack (.dict Binding.reader) (depth + 3) (.ofDict Binding.toJson n.bindings) n.bindings :=
    readsBack_dict fun e he => Binding.readsBack fun x hx => h x (Node.mem_literals.2 ⟨e, he, hx⟩)
  have hwritten : Node.fields.Written (depth + 3) (n.id, n.capsule, n.bindings, ())
      [("instanceId", .string n.id.text), ("capsuleId", .string n.capsule.text),
        ("inputBindings", .ofDict Binding.toJson n.bindings)] :=
    .present (InstanceId.readsBack _ n.id) (.present (CapsuleId.readsBack _ n.capsule) (.present hbindings .done))
  exact readsBack_map (readsBack_record hwritten (by decide) "CompositionNode")

theorem Connection.readsBack (depth : Nat) (k : Connection) : ReadsBack Connection.reader (depth + 2) k.toJson k := by
  have hwritten : Connection.fields.Written (depth + 1) (k.source, k.target, ())
      [("from", k.source.toJson), ("to", k.target.toJson)] :=
    .present (PortRef.readsBack depth k.source) (.present (PortRef.readsBack depth k.target) .done)
  exact readsBack_map (readsBack_record hwritten (by decide) "Connection")

/-- A field for a text that may be left out. -/
theorem written_optional {β : Type} {later : Fields β} {key : String} {xs : β} {ms : List (String × Json)}
    (s : Option String) (h : later.Written depth xs ms) :
    (Fields.field key (.optional .string) (.anywhere none) later).Written depth (s, xs)
      (optionalMember key s ++ ms) := by
  cases s with
  | none => exact .left rfl h
  | some s => exact .present (readsBack_optional (readsBack_string depth s) (by simp [Json.kind])) h

theorem Composition.readsBack {c : Composition} (h : ∀ x ∈ c.literals, Readable (depth + 1) x) :
    ReadsBack Composition.reader (depth + 6) c.toJson c := by
  have hnodes : ReadsBack (.list Node.reader) (depth + 5) (.array (c.nodes.map Node.toJson)) c.nodes :=
    readsBack_list fun n hn => Node.readsBack fun x hx => h x (List.mem_flatMap.2 ⟨n, hn, hx⟩)
  have hconnections : ReadsBack (.list Connection.reader) (depth + 5)
      (.array (c.connections.map Connection.toJson)) c.connections :=
    readsBack_list fun k _ => Connection.readsBack (depth + 2) k
  have hwritten : Composition.fields.Written (depth + 5) (c.name, c.description, c.nodes, c.connections, ())
      (("name", .string c.name) :: (optionalMember "description" c.description ++
        [("nodes", .array (c.nodes.map Node.toJson)),
          ("connections", .array (c.connections.map Connection.toJson))])) :=
    .present (readsBack_string _ c.name)
      (written_optional c.description (.present hnodes (.present hconnections .done)))
  exact readsBack_map (readsBack_record hwritten (by decide) "Composition")

theorem PortType.readsBack (depth : Nat) (t : PortType) : ReadsBack PortType.reader depth (.string t.name) t := by
  have hlookup : (PortType.all.map fun t => (t.name, Json.Reader.Content.constant t)).lookup t.name =
      some (.constant t) := by
    cases t <;> rfl
  exact readsBack_constant (choose_of_lookup hlookup _) depth

theorem PortSpec.readsBack (depth : Nat) (p : PortSpec) : ReadsBack PortSpec.reader (depth + 1) p.toJson p := by
  have hwritten : PortSpec.fields.Written depth (p.name, p.type, p.required, p.description, ())
      (("name", .string p.name) :: ("type", .string p.type.name) :: ("required", .bool p.required) ::
        (optionalMember "description" p.description ++ [])) :=
    .present (readsBack_string depth p.name) (.present (PortType.readsBack depth p.type)
      (.present (readsBack_bool depth p.required) (written_optional p.description .done)))
  rw [List.append_nil] at hwritten
  exact readsBack_map (readsBack_record hwritten (by decide) "PortSpec")

theorem DeclaredPorts.readsBack (depth : Nat) (p : DeclaredPorts) :
    ReadsBack DeclaredPorts.reader (depth + 3) p.toJson p := by
  have hinputs := readsBack_list fun i (_ : i ∈ p.inputs) => PortSpec.readsBack depth i
  have houtputs := readsBack_list fun o (_ : o ∈ p.outputs) => PortSpec.readsBack depth o
  have hwritten : DeclaredPorts.fields.Written (depth + 2) (p.inputs, p.outputs, ())
      [("inputs", .array (p.inputs.map PortSpec.toJson)), ("outputs", .array (p.outputs.map PortSpec.toJson))] :=
    .present hinputs (.present houtputs .done)
  exact readsBack_map (readsBack_record hwritten (by decide) "DeclaredPorts")

theorem CapsuleDefinition.written_packages (depth : Nat) (packages : Dict String) :
    (Fields.field "packages" (.dict .string) (.anywhere .empty) .done).Written (depth + 1) (packages, ())
      (if packages.isEmpty then [] else [("packages", .ofDict .string packages)]) := by
  by_cases hempty : packages.isEmpty
  · have heq : packages = .empty := Dict.ext (List.isEmpty_iff.1 hempty)
    rw [if_pos hempty, heq]
    exact .left rfl .done
  · rw [if_neg hempty]
    exact .present (readsBack_dict fun e _ => readsBack_string depth e.2) .done

theorem CapsuleDefinition.readsBack (depth : Nat) (d : CapsuleDefinition) :
    ReadsBack CapsuleDefinition.reader (depth + 4) d.toJson d := by
  have hwritten : CapsuleDefinition.fields.Written (depth + 3)
      (d.id, d.name, d.category, d.source, d.ports, d.version, d.packages, ())
      (("id", .string d.id.text) :: ("name", .string d.name) :: ("category", .string d.category) ::
        ("sourceTemplate", .string d.source) :: ("declaredPorts", d.ports.toJson) ::
          (optionalMember "version" d.version ++
            if d.packages.isEmpty then [] else [("packages", .ofDict .string d.packages)])) :=
    .present (CapsuleId.readsBack _ d.id) (.present (readsBack_string _ d.name)
      (.present (readsBack_string _ d.category) (.present (readsBack_string _ d.source)
        (.present (DeclaredPorts.readsBack depth d.ports)
          (written_optional d.version (CapsuleDefinition.written_packages _ d.packages))))))
  exact readsBack_map (readsBack_record hwritten (by decide) "CapsuleDefinition")

theorem Severity.readsBack (depth : Nat) (s : Severity) : ReadsBack Severity.reader depth (.string s.name) s := by
  have hlookup : (Severity.all.map fun s => (s.name, s)).lookup s.name = some s := by
    cases s <;> rfl
  exact readsBack_constants hlookup depth

theorem DiagnosticKind.readsBack (depth : Nat) (k : DiagnosticKind) :
    ReadsBack DiagnosticKind.reader depth (.string k.name) k := by
  have hlookup : (DiagnosticKind.all.map fun k => (k.name, k)).lookup k.name = some k := by
    cases k <;> rfl
  exact readsBack_constants hlookup depth

theorem readsBack_strings (depth : Nat) (xs : List String) :
    ReadsBack (.list .string) (depth + 1) (.strings xs) xs :=
  readsBack_list fun s _ => readsBack_string depth s

theorem Diagnostic.readsBack (depth : Nat) (d : Diagnostic) : ReadsBack Diagnostic.reader (depth + 2) d.toJson d := by
  have hwritten : Diagnostic.fields.Written (depth + 1) (d.severity, d.kind, d.message, d.affected, ())
      [("severity", .string d.severity.name), ("kind", .string d.kind.name), ("message", .string d.message),
        ("affectedIds", .strings d.affected)] :=
    .present (Severity.readsBack _ d.severity) (.present (DiagnosticKind.readsBack _ d.kind)
      (.present (readsBack_string _ d.message) (.present (readsBack_strings depth d.affected) .done)))
  exact readsBack_map (readsBack_record hwritten (by decide) "Diagnostic")

theorem PackageVersions.readsBack (depth : Nat) (p : PackageVersions) :
    ReadsBack PackageVersions.reader (depth + 1) p.toJson p := by
  have hwritten : PackageVersions.fields.Written depth (p.react, p.next, p.typescript, ())
      [("reactVersion", .string p.react), ("nextVersion", .string p.next),
        ("typescriptVersion", .string p.typescript)] :=
    .present (readsBack_string depth p.react) (.present (readsBack_string depth p.next)
      (.present (readsBack_string depth p.typescript) .done))
  exact readsBack_map (readsBack_record hwritten (by decide) "PackageConfig")

theorem CompilerConfig.readsBack {k : CompilerConfig} (h : k.timeoutMs < 2 ^ 64) (depth : Nat) :
    ReadsBack CompilerConfig.reader (depth + 2) k.toJson k := by
  have hwritten : CompilerConfig.fields.Written (depth + 1)
      (k.timeoutMs, k.isolation, k.cacheEnabled, k.referencePrefixes, k.package, ())
      [("timeoutMs", .integer k.timeoutMs), ("isolation", .bool k.isolation), ("cacheEnabled", .bool k.cacheEnabled),
        ("referencePrefixes", .strings k.referencePrefixes), ("package", k.package.toJson)] :=
    .present (readsBack_natural h _ _) (.present (readsBack_bool _ k.isolation)
      (.present (readsBack_bool _ k.cacheEnabled)
        (.present (readsBack_strings depth k.referencePrefixes)
          (.present (PackageVersions.readsBack depth k.package) .done))))
  exact readsBack_map (readsBack_record hwritten (by decide) "CompilerConfig")

/-! ### What was read -/

theorem Binding.yields_literal {b : Binding} {x : Json} (h : Binding.reader.Yields depth b) (hx : b = .literal x) :
    ∃ d, depth = d + 1 ∧ Reader.value.Yields d x := by
  unfold Binding.reader at h
  rcases h.of_choice with ⟨name, hname⟩ | ⟨d, name, reader, hd, hname, hb⟩
  · have hmem := mem_of_choose hname
    simp at hmem
  · have hmem := mem_of_choose hname
    simp only [List.mem_cons, Prod.mk.injEq, Json.Reader.Content.value.injEq, List.not_mem_nil, or_false] at hmem
    rcases hmem with ⟨-, rfl⟩ | ⟨-, rfl⟩
    · obtain ⟨y, hy, heq⟩ := hb.of_map
      cases heq.trans hx
      exact ⟨d, hd, hy⟩
    · obtain ⟨r, -, heq⟩ := hb.of_map
      cases heq.trans hx

theorem Node.yields_literals {n : Node} (h : Node.reader.Yields depth n) :
    ∀ x ∈ n.literals, ∃ d, depth = d + 3 ∧ Reader.value.Yields d x := by
  intro x hx
  obtain ⟨⟨id, capsule, bindings, u⟩, hfields, rfl⟩ := h.of_map
  obtain ⟨d, rfl, -, -, hbindings, -⟩ := hfields.of_record
  obtain ⟨e, he, hliteral⟩ := Node.mem_literals.1 hx
  rcases hbindings with hbindings | hempty
  · obtain ⟨d₁, rfl, hentries⟩ := hbindings.of_dict
    obtain ⟨d₂, rfl, hvalue⟩ := Binding.yields_literal (hentries e he) hliteral
    exact ⟨d₂, rfl, hvalue⟩
  · cases hempty
    cases he

/-- Literals stand inside five brackets: those of the composition, of its nodes, of their node, of its bindings and of
their binding. -/
theorem Composition.yields_literals {c : Composition} (h : Composition.reader.Yields depth c) :
    ∀ x ∈ c.literals, ∃ d, depth = d + 5 ∧ Reader.value.Yields d x := by
  intro x hx
  obtain ⟨⟨name, description, nodes, connections, u⟩, hfields, rfl⟩ := h.of_map
  obtain ⟨d, rfl, -, -, hnodes, -⟩ := hfields.of_record
  obtain ⟨n, hn, hliteral⟩ := List.mem_flatMap.1 hx
  rcases hnodes with hnodes | hempty
  · obtain ⟨d₁, rfl, hnode⟩ := hnodes.of_list
    obtain ⟨d₂, rfl, hvalue⟩ := Node.yields_literals (hnode n hn) x hliteral
    exact ⟨d₂, rfl, hvalue⟩
  · cases hempty
    cases hn

theorem CompilerConfig.timeoutMs_lt {k : CompilerConfig} (h : CompilerConfig.reader.Yields depth k) :
    k.timeoutMs < 2 ^ 64 := by
  obtain ⟨⟨timeoutMs, isolation, cacheEnabled, prefixes, package, u⟩, hfields, rfl⟩ := h.of_map
  obtain ⟨d, rfl, htimeout, -⟩ := hfields.of_record
  rcases htimeout with htimeout | hstandard
  · exact htimeout.lt_of_natural
  · cases hstandard
    show 10000 < 2 ^ 64
    omega

/-! ### Whole documents -/

theorem ofDocument_eq_ok {α : Type} {reader : Reader α} {document : String} {x : α} :
    ofDocument reader document = .ok x ↔ reader.run document = .ok x := by
  unfold ofDocument
  cases reader.run document <;> simp

theorem ofDocument_text {α : Type} {reader : Reader α} {j : Json} {x : α} (h : ReadsBack reader Reader.nesting j x) :
    ofDocument reader j.text = .ok x := by
  have hread := h [] Json.ended_nil
  rw [List.append_nil] at hread
  rw [ofDocument_eq_ok]
  unfold Reader.run
  rw [Json.text, String.toList_ofList, hread]
  rfl

theorem Composition.ofText_text {document : String} {c : Composition} (h : ofText document = .ok c)
    (hfloat : ∀ x ∈ c.literals, x.hasFloat = false) : ofText c.toJson.text = .ok c := by
  have hyields := Reader.Yields.of_run (ofDocument_eq_ok.1 h)
  have hreadable : ∀ x ∈ c.literals, Readable 122 x := by
    intro x hx
    obtain ⟨d, hd, hvalue⟩ := Composition.yields_literals hyields x hx
    cases hd
    exact hvalue.readable (hfloat x hx)
  exact ofDocument_text (Composition.readsBack hreadable)

theorem CompilerConfig.ofDocument_text {document : String} {k : CompilerConfig}
    (h : ofDocument reader document = .ok k) : ofDocument reader k.toJson.text = .ok k := by
  have hyields := Reader.Yields.of_run (ofDocument_eq_ok.1 h)
  exact CapsuleCompiler.ofDocument_text (CompilerConfig.readsBack (timeoutMs_lt hyields) 125)

theorem CompilerConfig.ofText_text {document : String} {k : CompilerConfig} (h : ofText document = .ok k) :
    ofText k.toJson.text = .ok k := by
  obtain ⟨k', hread, h⟩ := bind_eq_ok.1 h
  obtain ⟨_, hvalid, heq⟩ := bind_eq_ok.1 h
  obtain rfl : k' = k := Except.ok.inj heq
  unfold ofText
  rw [CompilerConfig.ofDocument_text hread]
  show (do k'.validate; return k') = _
  rw [hvalid]
  rfl

/-- **What a document said is what its compact form says.**  A composition that was read reads back if none of its
literals has a float, and so does every configuration that was read; a definition and a diagnostic read back wherever
they come from. -/
theorem documents_roundTrip :
    (∀ document c, Composition.ofText document = .ok c → (∀ x ∈ c.literals, x.hasFloat = false) →
      Composition.ofText c.toJson.text = .ok c) ∧
    (∀ d : CapsuleDefinition, ofDocument CapsuleDefinition.reader d.toJson.text = .ok d) ∧
    (∀ d : Diagnostic, ofDocument Diagnostic.reader d.toJson.text = .ok d) ∧
    (∀ document k, ofDocument CompilerConfig.reader document = .ok k →
      ofDocument CompilerConfig.reader k.toJson.text = .ok k) ∧
    ∀ document k, CompilerConfig.ofText document = .ok k → CompilerConfig.ofText k.toJson.text = .ok k := by
  refine ⟨fun document c h hfloat => Composition.ofText_text h hfloat, fun d => ?_, fun d => ?_,
    fun document k h => CompilerConfig.ofDocument_text h, fun document k h => CompilerConfig.ofText_text h⟩
  · exact ofDocument_text (CapsuleDefinition.readsBack 123 d)
  · exact ofDocument_text (Diagnostic.readsBack 125 d)

/-- A node in array form with a binding that is given twice, and one in object form with a member that means nothing. -/
def terseComposition : String :=
  "[\"One\", null, [[\"a\", \"card\", " ++
    "\x7b\"n\": \x7b\"value\": 1\x7d, \"n\": \x7b\"value\": [-5, \"\\u00e9\"]\x7d\x7d], " ++
    "\x7b\"note\": [1.5], \"capsuleId\": \"card\", \"instanceId\": \"b\"\x7d]]"

/-- What it says, in the form in which compositions are written. -/
def terseCompositionText : String :=
  "\x7b\"name\":\"One\",\"nodes\":[\x7b\"instanceId\":\"a\",\"capsuleId\":\"card\"," ++
    "\"inputBindings\":\x7b\"n\":\x7b\"value\":[-5,\"é\"]\x7d\x7d\x7d," ++
    "\x7b\"instanceId\":\"b\",\"capsuleId\":\"card\",\"inputBindings\":\x7b\x7d\x7d],\"connections\":[]\x7d"

theorem ofText_terseComposition : (Composition.ofText terseComposition).toOption.map
    (fun c => (c.toJson.text, c.literals.all (!·.hasFloat))) = some (terseCompositionText, true) := by
  decide +kernel

theorem documents_roundTrip_terse : ∃ c k, Composition.ofText terseComposition = .ok c ∧
    c.toJson.text = terseCompositionText ∧ Composition.ofText terseCompositionText = .ok c ∧
      CompilerConfig.ofText "[250,false]" = .ok k ∧ k.timeoutMs = 250 ∧
        CompilerConfig.ofText k.toJson.text = .ok k := by
  obtain ⟨c, hc, hvalue⟩ := exists_ok_of_toOption_map ofText_terseComposition
  have hconfig : (CompilerConfig.ofText "[250,false]").toOption.map CompilerConfig.timeoutMs = some 250 := by
    decide +kernel
  obtain ⟨k, hk, htimeout⟩ := exists_ok_of_toOption_map hconfig
  obtain ⟨htext, hfloat⟩ := Prod.mk.inj hvalue
  have hnone : ∀ x ∈ c.literals, x.hasFloat = false := by
    intro x hx
    simpa using List.all_eq_true.1 hfloat x hx
  have hagain := documents_roundTrip.1 _ c hc hnone
  rw [htext] at hagain
  exact ⟨c, k, hc, htext, hagain, hk, htimeout, documents_roundTrip.2.2.2.2 _ k hk⟩

end CapsuleCompiler
