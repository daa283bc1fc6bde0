import CapsuleCompiler.Host
import CapsuleCompiler.Proofs.Compilation.Fingerprint
import CapsuleCompiler.Proofs.Fallible

/-!
# Proofs.Host.History — what a cache holds after a history of calls

Hosts that share a cache take turns: each call of the history is a request to one of them, or disposes of the entries.
Every entry of the cache comes from a request since the last disposal whose caller got it (`reply_eq_of_peek?`), and
every request whose run succeeded in time has an entry (`isSome_peek?_of_run_eq`).  Unless two of the hashed texts collide, requests with one
fingerprint ask for the same composition and shape (`CollisionFree.pair_eq`).
-/

namespace CapsuleCompiler

/-! ### Time stamps -/

/-- The same artifact, made at another time. -/
def Artifact.retimed (a : Artifact) (t : Timing) : Artifact :=
  { a with
    metadata :=
      { a.metadata with
        stats := { a.metadata.stats with durationMs := t.durationMs }
        compiledAt := t.compiledAt } }

/-- What a run gives depends on the time in the time stamps only. -/
theorem Compiler.map_retimed_run (compiler : Compiler) (c : Composition) (s : Shape) (t u : Timing) :
    (compiler.run c s t).map (·.retimed u) = compiler.run c s u := by
  rw [run, run]
  cases compiler.stages c with
  | error e => rfl
  | ok stages =>
    simp only [bind, Except.bind]
    cases compiler.generator.generate ⟨c, stages.validation, stages.units, stages.resolution, stages.graph.order?⟩ s <;>
      rfl

theorem Compiler.fingerprint_of_run {compiler : Compiler} {c : Composition} {s : Shape} {t : Timing} {a : Artifact}
    (h : compiler.run c s t = .ok a) : a.metadata.fingerprint = fingerprint c s := by
  rw [run] at h
  obtain ⟨stages, -, h⟩ := bind_eq_ok.1 h
  obtain ⟨files, -, h⟩ := bind_eq_ok.1 h
  cases h
  rfl

/-! ### Calls -/

/-- What a caller asks for, how it waits, and how the run for it goes if there is one. -/
structure Request where
  composition : Composition
  shape : Shape
  waiting : Waiting
  delivery : Delivery
  timing : Timing

namespace Request

def pair (r : Request) : Composition × Shape := (r.composition, r.shape)

/-- The text that is hashed. -/
def text (r : Request) : String := fingerprintText r.composition r.shape

def fingerprint (r : Request) : Fingerprint := CapsuleCompiler.fingerprint r.composition r.shape

end Request

inductive Call
  | compile (r : Request)
  | dispose

/-- A call of one host. -/
structure Event where
  host : Host
  call : Call

namespace Host

/-- A host over a catalog with the standard settings. -/
def standard (catalog : Catalog) : Host := ⟨.ofConfig catalog .standard, .standard⟩

variable {h : Host} {r : Request} {cache : Cache Artifact} {f : Fingerprint} {a : Artifact}

def ask (h : Host) (r : Request) (cache : Cache Artifact) : Except CompileError Artifact × Cache Artifact :=
  h.compile r.waiting r.delivery r.timing r.composition r.shape cache

/-- The run of the compiler on its own. -/
def run (h : Host) (r : Request) : Except CompileError Artifact := h.compiler.run r.composition r.shape r.timing

/-- What reaches the caller if the compiler runs. -/
def reply (h : Host) (r : Request) : Except CompileError Artifact := h.answer r.waiting r.delivery (h.run r)

/-- Whether a request is answered from the cache. -/
def recalls (h : Host) (r : Request) (cache : Cache Artifact) : Bool := (h.lookup r.fingerprint cache).1.isSome

/-- Whether nothing happens to the answer of a worker, if a worker gives it. -/
def InTime (h : Host) (r : Request) : Prop := h.isIsolated r.waiting → r.delivery = .inTime

/-! ### One request -/

theorem reply_eq_run (ht : h.InTime r) : h.reply r = h.run r := by
  rw [reply, answer]
  split
  · next hisolated => rw [ht hisolated, received]
  · rfl

/-- Only what a run has given can reach a caller as an artifact. -/
theorem run_eq_of_reply_eq (ha : h.reply r = .ok a) : h.run r = .ok a := by
  rw [reply, answer] at ha
  split at ha
  · cases hdelivery : r.delivery <;> rw [hdelivery, received] at ha
    · exact ha
    · cases ha
    · cases ha
  · exact ha

theorem run_eq_retimed {r' : Request} (hpair : r'.pair = r.pair) (hrun : h.run r' = .ok a) (t : Timing) :
    h.compiler.run r.composition r.shape t = .ok (a.retimed t) := by
  obtain ⟨hc, hs⟩ := Prod.ext_iff.1 hpair
  have hcomposition : r'.composition = r.composition := hc
  have hshape : r'.shape = r.shape := hs
  rw [run, hcomposition, hshape] at hrun
  rw [← h.compiler.map_retimed_run r.composition r.shape r'.timing t, hrun]
  rfl

/-- The four ways of a request: it is recalled, or its run succeeds and is kept, or its run fails, or the host has no
cache. -/
theorem ask_cases (h : Host) (r : Request) (cache : Cache Artifact) :
    (∃ a, h.config.cacheEnabled ∧ cache.peek? r.fingerprint = some a ∧
      h.ask r cache = (.ok a, { cache with hits := cache.hits + 1 })) ∨
    (∃ a, h.config.cacheEnabled ∧ cache.peek? r.fingerprint = none ∧
      h.reply r = .ok a ∧
      h.ask r cache = (.ok a, { cache with misses := cache.misses + 1 }.put r.fingerprint a)) ∨
    (∃ e, h.config.cacheEnabled ∧ cache.peek? r.fingerprint = none ∧
      h.reply r = .error e ∧
      h.ask r cache = (.error e, { cache with misses := cache.misses + 1 })) ∨
    (h.config.cacheEnabled = false ∧ h.ask r cache = (h.reply r, cache)) := by
  rw [ask, compile, ← Request.fingerprint, ← run, ← reply, lookup]
  cases he : h.config.cacheEnabled with
  | false =>
    refine .inr (.inr (.inr ⟨rfl, ?_⟩))
    cases h.reply r <;> simp [keep, he]
  | true =>
    rw [if_pos rfl, Cache.get]
    cases cache.peek? r.fingerprint with
    | some a => exact .inl ⟨a, rfl, rfl, rfl⟩
    | none =>
      cases h.reply r with
      | ok a => exact .inr (.inl ⟨a, rfl, rfl, rfl, by simp [keep, he]⟩)
      | error e => exact .inr (.inr (.inl ⟨e, rfl, rfl, rfl, rfl⟩))

theorem recalls_eq (he : h.config.cacheEnabled) : h.recalls r cache = (cache.peek? r.fingerprint).isSome := by
  rw [recalls, lookup, if_pos he, Cache.fst_get]

/-- Where an entry comes from that is there after a request. -/
theorem peek?_ask_cases (hp : (h.ask r cache).2.peek? f = some a) :
    cache.peek? f = some a ∨ h.config.cacheEnabled ∧ f = r.fingerprint ∧ h.reply r = .ok a := by
  rcases h.ask_cases r cache with ⟨b, -, -, heq⟩ | ⟨b, he, -, hb, heq⟩ | ⟨e, -, -, -, heq⟩ | ⟨-, heq⟩ <;>
    rw [heq] at hp
  · exact .inl hp
  · rw [Cache.peek?_put] at hp
    split at hp
    · next hf =>
      cases hp
      exact .inr ⟨he, hf, hb⟩
    · exact .inl hp
  · exact .inl hp
  · exact .inl hp

/-- A request leaves no fingerprint without the entry that it had. -/
theorem isSome_peek?_ask (hp : (cache.peek? f).isSome) : ((h.ask r cache).2.peek? f).isSome := by
  rcases h.ask_cases r cache with ⟨b, -, -, heq⟩ | ⟨b, -, -, -, heq⟩ | ⟨e, -, -, -, heq⟩ | ⟨-, heq⟩ <;> rw [heq]
  · exact hp
  · rw [Cache.peek?_put]
    split
    · rfl
    · exact hp
  · exact hp
  · exact hp

/-- Behind a request whose run succeeded there is an entry. -/
theorem isSome_peek?_ask_self (he : h.config.cacheEnabled) (ht : h.InTime r) (hr : h.run r = .ok a) :
    ((h.ask r cache).2.peek? r.fingerprint).isSome := by
  rcases h.ask_cases r cache with ⟨b, -, hp, -⟩ | ⟨b, -, -, -, heq⟩ | ⟨e, -, -, hfail, -⟩ | ⟨hdisabled, -⟩
  · exact isSome_peek?_ask (by rw [hp]; rfl)
  · rw [heq, Cache.peek?_put, if_pos rfl]
    rfl
  · rw [reply_eq_run ht, hr] at hfail
    cases hfail
  · rw [he] at hdisabled
    cases hdisabled

/-- An artifact is answered from the cache, or a run has given it. -/
theorem ask_eq_ok (ha : (h.ask r cache).1 = .ok a) : cache.peek? r.fingerprint = some a ∨ h.run r = .ok a := by
  rcases h.ask_cases r cache with ⟨b, -, hp, heq⟩ | ⟨b, -, -, hb, heq⟩ | ⟨e, -, -, -, heq⟩ | ⟨-, heq⟩ <;>
    rw [heq] at ha
  · exact .inl (by rw [hp]; exact congrArg some (Except.ok.inj ha))
  · exact .inr (run_eq_of_reply_eq (hb.trans ha))
  · cases ha
  · exact .inr (run_eq_of_reply_eq ha)

theorem fst_ask_of_peek? (he : h.config.cacheEnabled) (hp : cache.peek? r.fingerprint = some a) :
    (h.ask r cache).1 = .ok a := by
  rcases h.ask_cases r cache with ⟨b, -, hb, heq⟩ | ⟨b, -, hnone, -⟩ | ⟨e, -, hnone, -⟩ | ⟨hdisabled, -⟩
  · rw [heq, Option.some.inj (hp.symm.trans hb)]
  · cases hp.symm.trans hnone
  · cases hp.symm.trans hnone
  · cases he.symm.trans hdisabled

/-- Without an entry the answer is that of a run. -/
theorem fst_ask_cases (ht : h.InTime r) : (h.ask r cache).1 = h.run r ∨
    ∃ a, h.config.cacheEnabled ∧ cache.peek? r.fingerprint = some a ∧ (h.ask r cache).1 = .ok a := by
  rcases h.ask_cases r cache with ⟨a, he, hp, heq⟩ | ⟨a, -, -, ha, heq⟩ | ⟨e, -, -, ha, heq⟩ | ⟨-, heq⟩ <;> rw [heq]
  · exact .inr ⟨a, he, hp, rfl⟩
  · exact .inl (ha.symm.trans (reply_eq_run ht))
  · exact .inl (ha.symm.trans (reply_eq_run ht))
  · exact .inl (reply_eq_run ht)

end Host

/-! ### Histories

The latest call stands first. -/

/-- The cache that hosts share, after their calls. -/
def cacheAfter : List Event → Cache Artifact
  | [] => .empty
  | ⟨h, .compile r⟩ :: earlier => (h.ask r (cacheAfter earlier)).2
  | ⟨_, .dispose⟩ :: earlier => (cacheAfter earlier).dispose

/-- All requests, with the hosts that were asked. -/
def requests : List Event → List (Host × Request)
  | [] => []
  | ⟨h, .compile r⟩ :: earlier => (h, r) :: requests earlier
  | ⟨_, .dispose⟩ :: earlier => requests earlier

/-- The requests since entries were disposed of. -/
def recentRequests : List Event → List (Host × Request)
  | [] => []
  | ⟨h, .compile r⟩ :: earlier => (h, r) :: recentRequests earlier
  | ⟨_, .dispose⟩ :: _ => []

variable {history earlier : List Event} {f : Fingerprint} {a : Artifact} {d e : Host × Request}

theorem recentRequests_subset : ∀ history : List Event, recentRequests history ⊆ requests history
  | [] => List.Subset.refl _
  | ⟨_, .compile _⟩ :: earlier => List.cons_subset_cons _ (recentRequests_subset earlier)
  | ⟨_, .dispose⟩ :: _ => List.nil_subset _

theorem event_mem_of_mem_requests : ∀ {history : List Event}, e ∈ requests history →
    ⟨e.1, .compile e.2⟩ ∈ history
  | ⟨_, .compile _⟩ :: earlier, he => by
    rcases List.mem_cons.1 he with rfl | he
    · exact List.mem_cons_self
    · exact List.mem_cons_of_mem _ (event_mem_of_mem_requests he)
  | ⟨_, .dispose⟩ :: earlier, he => List.mem_cons_of_mem _ (event_mem_of_mem_requests he)

/-- Every entry comes from a recent request, whose caller got it. -/
theorem reply_eq_of_peek? : ∀ {history : List Event}, (cacheAfter history).peek? f = some a →
    ∃ e ∈ recentRequests history, e.1.config.cacheEnabled ∧ e.2.fingerprint = f ∧ e.1.reply e.2 = .ok a
  | ⟨h, .compile r⟩ :: earlier, hp => by
    rcases Host.peek?_ask_cases hp with hp | ⟨he, rfl, hreply⟩
    · obtain ⟨e, hmem, hrest⟩ := reply_eq_of_peek? hp
      exact ⟨e, List.mem_cons_of_mem _ hmem, hrest⟩
    · exact ⟨(h, r), List.mem_cons_self, he, rfl, hreply⟩

/-- Every recent request whose run succeeded has an entry. -/
theorem isSome_peek?_of_run_eq : ∀ {history : List Event}, e ∈ recentRequests history → e.1.config.cacheEnabled →
    e.1.InTime e.2 → e.1.run e.2 = .ok a → ((cacheAfter history).peek? e.2.fingerprint).isSome
  | ⟨_, .compile _⟩ :: earlier, hmem, he, ht, hrun => by
    rcases List.mem_cons.1 hmem with rfl | hmem
    · exact Host.isSome_peek?_ask_self he ht hrun
    · exact Host.isSome_peek?_ask (isSome_peek?_of_run_eq hmem he ht hrun)

/-! ### Telling requests apart -/

/-- No two different texts of a list have one digest. -/
def CollisionFree (texts : List String) : Prop :=
  ∀ t ∈ texts, ∀ u ∈ texts, Digest.sha256Hex t = Digest.sha256Hex u → t = u

/-- The texts that are hashed for the requests of a history. -/
def hashedTexts (history : List Event) : List String := (requests history).map (·.2.text)

theorem CollisionFree.pair_eq (h : CollisionFree (hashedTexts history)) (hd : d ∈ requests history)
    (he : e ∈ requests history) (hf : d.2.fingerprint = e.2.fingerprint) : d.2.pair = e.2.pair := by
  have htext : d.2.text = e.2.text :=
    h _ (List.mem_map_of_mem hd) _ (List.mem_map_of_mem he) (congrArg Fingerprint.hex hf)
  obtain ⟨hc, hs⟩ := eq_of_fingerprintText_eq htext
  rw [Request.pair, Request.pair, hc, hs]

theorem Request.fingerprint_eq_of_pair_eq {r r' : Request} (h : r.pair = r'.pair) : r.fingerprint = r'.fingerprint := by
  obtain ⟨hc, hs⟩ := Prod.ext_iff.1 h
  exact congrArg₂ CapsuleCompiler.fingerprint hc hs

end CapsuleCompiler
