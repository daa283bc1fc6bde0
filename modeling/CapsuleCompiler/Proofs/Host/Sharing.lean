import CapsuleCompiler.Proofs.Compilation.References
import CapsuleCompiler.Proofs.Generation.Scope
import CapsuleCompiler.Proofs.Host.History

/-!
# Proofs.Host.Sharing — whose artifact a shared cache answers with

A fingerprint covers the composition and the shape and nothing of a host.  So hosts that share a cache answer for each
other: an artifact is the host's own, or that of a host that compiled the same composition and shape since the entries
were disposed of.  Hosts whose compilers agree on it, whatever else their settings are, cannot tell the difference.
-/

namespace CapsuleCompiler

/-- What is compiled, without the circumstances. -/
def Artifact.content (a : Artifact) : Dict String × List Diagnostic := (a.files, a.diagnostics)

namespace Host

variable {g h : Host} {r : Request} {earlier : List Event} {cache : Cache Artifact} {a : Artifact}

/-- What the compiler of a host makes of a composition at a given time. -/
def content (h : Host) (r : Request) (t : Timing) : Except CompileError (Dict String × List Diagnostic) :=
  (h.compiler.run r.composition r.shape t).map Artifact.content

/-- The host has compiled the same composition and shape since entries were disposed of, and keeps what it compiles. -/
def Compiled (g : Host) (r : Request) (earlier : List Event) : Prop :=
  g.config.cacheEnabled ∧ ∃ r', (g, r') ∈ recentRequests earlier ∧ r'.pair = r.pair ∧ (g.reply r').isOk

theorem content_of_run_eq {r' : Request} (hpair : r'.pair = r.pair) (hrun : g.run r' = .ok a) (t : Timing) :
    g.content r t = .ok a.content := by
  rw [content, run_eq_retimed hpair hrun]
  rfl

/-- **Answers from a shared cache.**  An artifact has the content that the host itself makes, or another host made
of the same composition and shape; where the compilers agree, it is the host's own in any case. -/
theorem content_of_ask_eq (hfree : CollisionFree (hashedTexts (⟨h, .compile r⟩ :: earlier)))
    (ha : (h.ask r (cacheAfter earlier)).1 = .ok a) :
    (∃ g : Host, (g = h ∨ g.Compiled r earlier) ∧ ∀ t, g.content r t = .ok a.content) ∧
      ((∀ g : Host, g.Compiled r earlier → ∀ t, g.content r t = h.content r t) →
        ∀ t, h.content r t = .ok a.content) := by
  have hmaker : ∃ g : Host, (g = h ∨ g.Compiled r earlier) ∧ ∀ t, g.content r t = .ok a.content := by
    rcases ask_eq_ok ha with hp | hrun
    · obtain ⟨⟨g, r'⟩, hmem, he, hf, hreply⟩ := reply_eq_of_peek? hp
      have hpair : r'.pair = r.pair :=
        hfree.pair_eq (List.mem_cons_of_mem _ (recentRequests_subset earlier hmem)) List.mem_cons_self hf
      exact ⟨g, .inr ⟨he, r', hmem, hpair, isOk_iff.2 ⟨a, hreply⟩⟩,
        content_of_run_eq hpair (run_eq_of_reply_eq hreply)⟩
    · exact ⟨h, .inl rfl, content_of_run_eq rfl hrun⟩
  refine ⟨hmaker, fun hagree t => ?_⟩
  obtain ⟨g, rfl | hcompiled, hcontent⟩ := hmaker
  · exact hcontent t
  · rw [← hagree g hcompiled, hcontent]

/-- What one host has just answered, every other one answers as well. -/
theorem fst_ask_ask (hg : g.config.cacheEnabled) (hh : h.config.cacheEnabled) (ha : (g.ask r cache).1 = .ok a) :
    (h.ask r (g.ask r cache).2).1 = .ok a := by
  refine fst_ask_of_peek? hh ?_
  rcases g.ask_cases r cache with ⟨b, -, hp, heq⟩ | ⟨b, -, -, -, heq⟩ | ⟨e, -, -, -, heq⟩ | ⟨hdisabled, -⟩
  · rw [heq] at ha ⊢
    cases ha
    exact hp
  · rw [heq] at ha ⊢
    cases ha
    rw [Cache.peek?_put, if_pos rfl]
  · rw [heq] at ha
    cases ha
  · cases hg.symm.trans hdisabled

def cardDefinition : CapsuleDefinition := ⟨⟨"card"⟩, "Card", "", "", .none, none, .empty⟩

/-- One card on a page. -/
def cardRequest : Request :=
  ⟨⟨"One", none, [⟨⟨"c"⟩, ⟨"card"⟩, .empty⟩], []⟩, .page, .blocking, .inTime, ⟨0, ""⟩⟩

def cardHost : Host := .standard (.ofList [cardDefinition])

/-- A host with the same catalog that has no workers. -/
def inlineHost : Host := ⟨cardHost.compiler, { CompilerConfig.standard with isolation := false, timeoutMs := 1 }⟩

/-- A host that knows no capsules. -/
def emptyHost : Host := .standard .empty

theorem collisionFree_cardRequest (g h : Host) :
    CollisionFree (hashedTexts [⟨h, .compile cardRequest⟩, ⟨g, .compile cardRequest⟩]) := by
  have hsame : ∀ t ∈ hashedTexts [⟨h, .compile cardRequest⟩, ⟨g, .compile cardRequest⟩], t = cardRequest.text := by
    simp [hashedTexts, requests]
  intro t ht u hu _
  rw [hsame t ht, hsame u hu]

theorem run_cardRequest_isOk {catalog : Catalog}
    (hplan : (Plan.ofValidation "One" (.ofComposition catalog cardRequest.composition)).isOk) :
    ∃ a, (Compiler.ofConfig catalog .standard).run cardRequest.composition .page cardRequest.timing = .ok a :=
  Compiler.run_mainFile_isOk rfl hplan (by decide)

theorem exists_cardHost_answer :
    ∃ a, (cardHost.ask cardRequest .empty).1 = .ok a ∧ cardHost.run cardRequest = .ok a := by
  obtain ⟨a, ha⟩ : ∃ a, cardHost.run cardRequest = .ok a := run_cardRequest_isOk (by decide +kernel)
  rcases fst_ask_cases (show cardHost.InTime cardRequest from fun _ => rfl) with h | ⟨b, -, hp, -⟩
  · exact ⟨a, h.trans ha, ha⟩
  · cases hp

theorem content_of_ask_eq_inlineHost : ∃ a,
    (inlineHost.ask cardRequest (cacheAfter [⟨cardHost, .compile cardRequest⟩])).1 = .ok a ∧
      ∀ t, inlineHost.content cardRequest t = .ok a.content := by
  obtain ⟨a, ha, -⟩ := exists_cardHost_answer
  have hanswer : (inlineHost.ask cardRequest (cacheAfter [⟨cardHost, .compile cardRequest⟩])).1 = .ok a :=
    fst_ask_ask rfl rfl ha
  refine ⟨a, hanswer, (content_of_ask_eq (collisionFree_cardRequest _ _) hanswer).2 ?_⟩
  rintro g ⟨-, r', hmem, -⟩ t
  cases List.mem_singleton.1 hmem
  rfl

open Compiler (hasErrors_of_run)

/-- The host that knows no capsules answers without an error, where its own compiler misses the card. -/
theorem emptyHost_answers_for_cardHost : ∃ a b,
    CollisionFree (hashedTexts [⟨emptyHost, .compile cardRequest⟩, ⟨cardHost, .compile cardRequest⟩]) ∧
      cardHost.config.cacheEnabled ∧ emptyHost.config.cacheEnabled ∧
      (emptyHost.ask cardRequest (cacheAfter [⟨cardHost, .compile cardRequest⟩])).1 = .ok a ∧
      emptyHost.run cardRequest = .ok b ∧ a.hasErrors = false ∧ b.hasErrors = true ∧
      a.diagnostics ≠ b.diagnostics := by
  obtain ⟨a, ha, hrun⟩ := exists_cardHost_answer
  obtain ⟨b, hb⟩ : ∃ b, emptyHost.run cardRequest = .ok b := run_cardRequest_isOk (by decide +kernel)
  have hnone : a.hasErrors = false := (hasErrors_of_run hrun).trans (by decide +kernel)
  have hsome : b.hasErrors = true := (hasErrors_of_run hb).trans (by decide +kernel)
  refine ⟨a, b, collisionFree_cardRequest _ _, rfl, rfl, fst_ask_ask rfl rfl ha, hb, hnone, hsome, fun heq => ?_⟩
  rw [Artifact.hasErrors, heq, ← Artifact.hasErrors, hsome] at hnone
  cases hnone

end Host

end CapsuleCompiler
