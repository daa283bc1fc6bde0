import CapsuleCompiler.Proofs.Generation.Scope
import CapsuleCompiler.Proofs.Host.History
import Mathlib.Data.Set.Card

/-!
# Proofs.Host.Memory — a host that owns its cache

Nobody can tell an answer from a run by what it says, other than by its time stamps (`owned_cache_exact`).  The hits
are the requests answered from the cache, the misses those that ran the compiler, and there is one entry for each
composition and shape compiled since the entries were disposed of.
-/

namespace CapsuleCompiler

/-! ### Sizes of dictionaries -/

namespace Dict

variable {α : Type}

theorem size_eq_ncard (d : Dict α) : d.size = {key | (d.get? key).isSome}.ncard := by
  have hkeys : {key | (d.get? key).isSome} = (d.keys.toFinset : Set String) := by
    ext key
    simp [mem_keys_iff]
  rw [hkeys, Set.ncard_coe_finset, List.toFinset_card_of_nodup d.nodup_keys, keys, List.length_map, size]

end Dict

/-! ### What is counted -/

/-- The number of requests that were answered from the cache. -/
def recallCount : List Event → Nat
  | [] => 0
  | ⟨h, .compile r⟩ :: earlier => recallCount earlier + (h.recalls r (cacheAfter earlier)).toNat
  | ⟨_, .dispose⟩ :: earlier => recallCount earlier

/-- The number of requests for which the compiler ran. -/
def runCount : List Event → Nat
  | [] => 0
  | ⟨h, .compile r⟩ :: earlier => runCount earlier + (!h.recalls r (cacheAfter earlier)).toNat
  | ⟨_, .dispose⟩ :: earlier => runCount earlier

/-- What was compiled since the entries were disposed of. -/
def compiledPairs (history : List Event) : Set (Composition × Shape) :=
  {p | ∃ e ∈ recentRequests history, e.2.pair = p ∧ (e.1.run e.2).isOk}

/-- One host makes all calls, and nothing happens to the answers of its workers. -/
structure Owned (h : Host) (history : List Event) : Prop where
  host_eq : ∀ e ∈ history, e.host = h
  inTime : ∀ e ∈ requests history, h.InTime e.2

/-- What the counters and the entries of a cache say about the history. -/
structure Accounted (history : List Event) : Prop where
  hits_eq : (cacheAfter history).hits = recallCount history
  misses_eq : (cacheAfter history).misses = runCount history
  size_eq : (cacheAfter history).size = (compiledPairs history).ncard
  /-- Every entry stands under its own fingerprint. -/
  fingerprint_eq : ∀ f a, (cacheAfter history).peek? f = some a → a.metadata.fingerprint = f
  /-- A request is answered from the cache if what it asks for is compiled. -/
  recalls_iff : ∀ h r earlier, ⟨h, .compile r⟩ :: earlier <:+ history →
    (h.recalls r (cacheAfter earlier) ↔ r.pair ∈ compiledPairs earlier)

section

variable {h : Host} {r : Request} {history earlier : List Event} {f : Fingerprint} {a : Artifact}

theorem requests_subset_of_suffix : ∀ {history : List Event}, earlier <:+ history →
    requests earlier ⊆ requests history
  | [], hs => by
    rw [List.suffix_nil.1 hs]
    exact List.Subset.refl _
  | ⟨g, call⟩ :: later, hs => by
    rcases List.suffix_cons_iff.1 hs with rfl | hs
    · exact List.Subset.refl _
    · have hsub := requests_subset_of_suffix hs
      cases call with
      | compile r => exact List.subset_cons_of_subset _ hsub
      | dispose => exact hsub

theorem Owned.of_suffix (ho : Owned h history) (hs : earlier <:+ history) : Owned h earlier :=
  ⟨fun e he => ho.host_eq e (hs.subset he), fun e he => ho.inTime e (requests_subset_of_suffix hs he)⟩

theorem CollisionFree.of_suffix (hfree : CollisionFree (hashedTexts history)) (hs : earlier <:+ history) :
    CollisionFree (hashedTexts earlier) := by
  have hsub : hashedTexts earlier ⊆ hashedTexts history := List.map_subset _ (requests_subset_of_suffix hs)
  exact fun t ht u hu => hfree t (hsub ht) u (hsub hu)

theorem Owned.host_of_mem_requests (ho : Owned h history) {e : Host × Request} (he : e ∈ requests history) :
    e.1 = h :=
  ho.host_eq _ (event_mem_of_mem_requests he)

/-! ### Answers -/

/-- An answer is what the compiler gives, whether it ran or not. -/
theorem Owned.map_retimed_ask (ho : Owned h (⟨h, .compile r⟩ :: earlier))
    (hfree : CollisionFree (hashedTexts (⟨h, .compile r⟩ :: earlier))) (t : Timing) :
    (h.ask r (cacheAfter earlier)).1.map (·.retimed t) = h.compiler.run r.composition r.shape t := by
  rcases Host.fst_ask_cases (ho.inTime (h, r) List.mem_cons_self) with heq | ⟨a, -, hp, heq⟩ <;> rw [heq]
  · exact h.compiler.map_retimed_run _ _ _ _
  · obtain ⟨⟨g, r'⟩, hmem, -, hf, hreply⟩ := reply_eq_of_peek? hp
    have hmem' := List.mem_cons_of_mem (h, r) (recentRequests_subset earlier hmem)
    obtain rfl : g = h := ho.host_of_mem_requests hmem'
    exact (Host.run_eq_retimed (hfree.pair_eq hmem' List.mem_cons_self hf) (Host.run_eq_of_reply_eq hreply) t).symm

/-! ### Entries -/

theorem Owned.isSome_peek?_iff (ho : Owned h history) (he : h.config.cacheEnabled) :
    ((cacheAfter history).peek? f).isSome ↔
      ∃ e ∈ recentRequests history, e.2.fingerprint = f ∧ (e.1.run e.2).isOk := by
  constructor
  · intro hp
    obtain ⟨a, hp⟩ := Option.isSome_iff_exists.1 hp
    obtain ⟨e, hmem, -, hf, hreply⟩ := reply_eq_of_peek? hp
    exact ⟨e, hmem, hf, isOk_iff.2 ⟨a, Host.run_eq_of_reply_eq hreply⟩⟩
  · rintro ⟨e, hmem, rfl, hok⟩
    obtain ⟨a, hrun⟩ := isOk_iff.1 hok
    have hmem' := recentRequests_subset history hmem
    have hhost := ho.host_of_mem_requests hmem'
    exact isSome_peek?_of_run_eq hmem (hhost ▸ he) (hhost ▸ ho.inTime e hmem') hrun

theorem Owned.recalls_iff (ho : Owned h (⟨h, .compile r⟩ :: earlier))
    (hfree : CollisionFree (hashedTexts (⟨h, .compile r⟩ :: earlier))) (he : h.config.cacheEnabled) :
    h.recalls r (cacheAfter earlier) ↔ r.pair ∈ compiledPairs earlier := by
  rw [Host.recalls_eq he, (ho.of_suffix (List.suffix_cons _ _)).isSome_peek?_iff he]
  constructor
  · rintro ⟨e, hmem, hf, hok⟩
    have hmem' := List.mem_cons_of_mem (h, r) (recentRequests_subset earlier hmem)
    exact ⟨e, hmem, hfree.pair_eq hmem' List.mem_cons_self hf, hok⟩
  · rintro ⟨e, hmem, hpair, hok⟩
    exact ⟨e, hmem, Request.fingerprint_eq_of_pair_eq hpair, hok⟩

theorem Owned.size_eq (ho : Owned h history) (hfree : CollisionFree (hashedTexts history)) (he : h.config.cacheEnabled) :
    (cacheAfter history).size = (compiledPairs history).ncard := by
  have hkeys : {key | ((cacheAfter history).entries.get? key).isSome} =
      (fun p => (fingerprint p.1 p.2).hex) '' compiledPairs history := by
    ext key
    have hpeek : ((cacheAfter history).entries.get? key).isSome ↔
        ((cacheAfter history).peek? ⟨key⟩).isSome := Iff.rfl
    rw [Set.mem_ofPred_eq, hpeek, ho.isSome_peek?_iff he]
    constructor
    · rintro ⟨e, hmem, hf, hok⟩
      exact ⟨e.2.pair, ⟨e, hmem, rfl, hok⟩, congrArg Fingerprint.hex hf⟩
    · rintro ⟨-, ⟨e, hmem, rfl, hok⟩, hf⟩
      exact ⟨e, hmem, Cache.hex_inj.1 hf, hok⟩
  have hinj : Set.InjOn (fun p => (fingerprint p.1 p.2).hex) (compiledPairs history) := by
    rintro - ⟨d, hdmem, rfl, -⟩ - ⟨e, hemem, rfl, -⟩ hf
    exact hfree.pair_eq (recentRequests_subset history hdmem) (recentRequests_subset history hemem)
      (Cache.hex_inj.1 hf)
  rw [Cache.size, Dict.size_eq_ncard, hkeys, hinj.ncard_image]

theorem fingerprint_of_peek? (hp : (cacheAfter history).peek? f = some a) : a.metadata.fingerprint = f := by
  obtain ⟨e, -, -, rfl, hreply⟩ := reply_eq_of_peek? hp
  exact Compiler.fingerprint_of_run (Host.run_eq_of_reply_eq hreply)

/-! ### Counters -/

theorem Owned.counts_eq : ∀ {history : List Event}, Owned h history → h.config.cacheEnabled →
    (cacheAfter history).hits = recallCount history ∧ (cacheAfter history).misses = runCount history
  | [], _, _ => ⟨rfl, rfl⟩
  | ⟨_, .dispose⟩ :: earlier, ho, he => (ho.of_suffix (List.suffix_cons _ _)).counts_eq he
  | ⟨g, .compile r⟩ :: earlier, ho, he => by
    obtain rfl : h = g := (ho.host_eq _ List.mem_cons_self).symm
    obtain ⟨hhits, hmisses⟩ := (ho.of_suffix (List.suffix_cons _ _)).counts_eq he
    rw [cacheAfter, recallCount, runCount, Host.recalls_eq he, ← hhits, ← hmisses]
    rcases h.ask_cases r (cacheAfter earlier) with ⟨a, -, hp, heq⟩ | ⟨a, -, hp, -, heq⟩ | ⟨e, -, hp, -, heq⟩ |
      ⟨hdisabled, -⟩
    · rw [heq, hp]
      exact ⟨rfl, rfl⟩
    · rw [heq, hp]
      exact ⟨rfl, rfl⟩
    · rw [heq, hp]
      exact ⟨rfl, rfl⟩
    · cases he.symm.trans hdisabled

/-- A host that may keep nothing leaves the cache as it is. -/
theorem Owned.cacheAfter_eq_empty : ∀ {history : List Event}, Owned h history → h.config.cacheEnabled = false →
    cacheAfter history = .empty
  | [], _, _ => rfl
  | ⟨_, .dispose⟩ :: earlier, ho, he => by
    rw [cacheAfter, (ho.of_suffix (List.suffix_cons _ _)).cacheAfter_eq_empty he]
    rfl
  | ⟨g, .compile r⟩ :: earlier, ho, he => by
    obtain rfl : h = g := (ho.host_eq _ List.mem_cons_self).symm
    have hearlier := (ho.of_suffix (List.suffix_cons _ _)).cacheAfter_eq_empty he
    rw [cacheAfter]
    rcases h.ask_cases r (cacheAfter earlier) with ⟨_, henabled, -⟩ | ⟨_, henabled, -⟩ | ⟨_, henabled, -⟩ | ⟨-, heq⟩
    · cases he.symm.trans henabled
    · cases he.symm.trans henabled
    · cases he.symm.trans henabled
    · rw [heq]
      exact hearlier

end

/-- **A host with a cache of its own** answers every request like its compiler.  With the cache in use its counters and
entries account for all calls, and without it there is nothing to count. -/
theorem owned_cache_exact {h : Host} {history : List Event} (ho : Owned h history)
    (hfree : CollisionFree (hashedTexts history)) :
    (∀ r earlier, ⟨h, .compile r⟩ :: earlier <:+ history → ∀ t,
        (h.ask r (cacheAfter earlier)).1.map (·.retimed t) = h.compiler.run r.composition r.shape t) ∧
      (h.config.cacheEnabled → Accounted history) ∧
      (h.config.cacheEnabled = false →
        (cacheAfter history).size = 0 ∧ (cacheAfter history).hits = 0 ∧ (cacheAfter history).misses = 0) := by
  refine ⟨fun r earlier hs t => (ho.of_suffix hs).map_retimed_ask (hfree.of_suffix hs) t, fun he => ?_, fun he => ?_⟩
  · obtain ⟨hhits, hmisses⟩ := ho.counts_eq he
    refine ⟨hhits, hmisses, ho.size_eq hfree he, fun f a hp => fingerprint_of_peek? hp, fun g r earlier hs => ?_⟩
    obtain rfl : g = h := ho.host_eq _ (hs.subset List.mem_cons_self)
    exact (ho.of_suffix hs).recalls_iff (hfree.of_suffix hs) he
  · rw [ho.cacheAfter_eq_empty he]
    exact ⟨rfl, rfl, rfl⟩

/-! ### A history -/

/-- An empty composition, for which a worker is to run. -/
def blankRequest (s : Shape) : Request := ⟨⟨"A", none, [], []⟩, s, .async, .inTime, ⟨0, ""⟩⟩

def blankEvent (s : Shape) : Event := ⟨.standard .empty, .compile (blankRequest s)⟩

/-- A page, for the first time and for the first time since the entries were disposed of. -/
def pageHistory : List Event := [blankEvent .page, ⟨.standard .empty, .dispose⟩, blankEvent .page]

/-- The page again, and a component. -/
def blankHistory : List Event := blankEvent .component :: blankEvent .page :: pageHistory

theorem recallCount_blankEvent (s : Shape) (earlier : List Event) : recallCount (blankEvent s :: earlier) =
    recallCount earlier + ((Host.standard .empty).recalls (blankRequest s) (cacheAfter earlier)).toNat := rfl

theorem runCount_blankEvent (s : Shape) (earlier : List Event) : runCount (blankEvent s :: earlier) =
    runCount earlier + (!(Host.standard .empty).recalls (blankRequest s) (cacheAfter earlier)).toNat := rfl

theorem owned_blankHistory : Owned (.standard .empty) blankHistory := by
  have hrequest : ∀ e ∈ requests blankHistory, e.2.delivery = .inTime := by
    simp [blankHistory, pageHistory, blankEvent, requests, blankRequest]
  exact ⟨by simp [blankHistory, pageHistory, blankEvent], fun e he _ => hrequest e he⟩

theorem collisionFree_blankHistory : CollisionFree (hashedTexts blankHistory) := by
  have hdigest : Digest.sha256Hex (blankRequest .page).text ≠ Digest.sha256Hex (blankRequest .component).text := by
    decide +kernel
  have htext : ∀ t ∈ hashedTexts blankHistory, t = (blankRequest .page).text ∨ t = (blankRequest .component).text := by
    simp [hashedTexts, blankHistory, pageHistory, blankEvent, requests]
  intro t ht u hu heq
  rcases htext t ht with rfl | rfl <;> rcases htext u hu with rfl | rfl
  · rfl
  · exact absurd heq hdigest
  · exact absurd heq.symm hdigest
  · rfl

theorem run_blankRequest_isOk {s : Shape} (hs : s ≠ .application) :
    ((Host.standard .empty).run (blankRequest s)).isOk := by
  have hplan : (Plan.ofValidation "A" (.ofComposition .empty ⟨"A", none, [], []⟩)).isOk := by decide +kernel
  exact isOk_iff.2 (Compiler.run_mainFile_isOk rfl hplan hs)

theorem compiledPairs_page_pageHistory :
    compiledPairs (blankEvent .page :: pageHistory) = {(blankRequest .page).pair} := by
  ext p
  constructor
  · rintro ⟨e, hmem, rfl, -⟩
    have hpage : ∀ e ∈ recentRequests (blankEvent .page :: pageHistory), e.2 = blankRequest .page := by
      simp [pageHistory, blankEvent, recentRequests]
    rw [hpage e hmem]
    rfl
  · rintro rfl
    exact ⟨_, List.mem_cons_self, rfl, run_blankRequest_isOk (by decide)⟩

theorem compiledPairs_blankHistory :
    compiledPairs blankHistory = {(blankRequest .component).pair, (blankRequest .page).pair} := by
  rw [← Set.singleton_union, ← compiledPairs_page_pageHistory]
  ext p
  constructor
  · rintro ⟨e, hmem, rfl, hok⟩
    rcases List.mem_cons.1 hmem with rfl | hmem
    · exact .inl rfl
    · exact .inr ⟨e, hmem, rfl, hok⟩
  · rintro (rfl | ⟨e, hmem, hrest⟩)
    · exact ⟨_, List.mem_cons_self, rfl, run_blankRequest_isOk (by decide)⟩
    · exact ⟨e, List.mem_cons_of_mem _ hmem, hrest⟩

theorem owned_cache_exact_blankHistory : Accounted blankHistory ∧ (cacheAfter blankHistory).size = 2 ∧
    (cacheAfter blankHistory).hits = 1 ∧ (cacheAfter blankHistory).misses = 3 := by
  have hacc : Accounted blankHistory := (owned_cache_exact owned_blankHistory collisionFree_blankHistory).2.1 rfl
  have hne : (blankRequest .component).pair ≠ (blankRequest .page).pair := by simp [Request.pair, blankRequest]
  have hrecalls (s : Shape) (cache : Cache Artifact) : (Host.standard .empty).recalls (blankRequest s) cache =
      (cache.peek? (blankRequest s).fingerprint).isSome := Host.recalls_eq rfl
  -- Only the second page behind the disposal is recalled.
  have hfirst : (Host.standard .empty).recalls (blankRequest .page) (cacheAfter []) = false := by
    rw [hrecalls, cacheAfter, Cache.peek?_empty, Option.isSome_none]
  have hdisposed : (Host.standard .empty).recalls (blankRequest .page)
      (cacheAfter [⟨.standard .empty, .dispose⟩, blankEvent .page]) = false := by
    rw [hrecalls, cacheAfter, Cache.peek?_dispose, Option.isSome_none]
  have hpage : (Host.standard .empty).recalls (blankRequest .page) (cacheAfter pageHistory) = true :=
    (hacc.recalls_iff _ _ _ ⟨[blankEvent .component], rfl⟩).2
      ⟨_, List.mem_cons_self, rfl, run_blankRequest_isOk (by decide)⟩
  have hcomponent : (Host.standard .empty).recalls (blankRequest .component)
      (cacheAfter (blankEvent .page :: pageHistory)) = false := by
    rw [Bool.eq_false_iff]
    intro h
    have hmem := (hacc.recalls_iff _ _ _ ⟨[], rfl⟩).1 h
    rw [compiledPairs_page_pageHistory] at hmem
    exact hne hmem
  refine ⟨hacc, ?_, ?_, ?_⟩
  · rw [hacc.size_eq, compiledPairs_blankHistory, Set.ncard_pair hne]
  · rw [hacc.hits_eq, blankHistory, recallCount_blankEvent, hcomponent, recallCount_blankEvent, hpage, pageHistory,
      recallCount_blankEvent, hdisposed, recallCount, recallCount_blankEvent, hfirst]
    rfl
  · rw [hacc.misses_eq, blankHistory, runCount_blankEvent, hcomponent, runCount_blankEvent, hpage, pageHistory,
      runCount_blankEvent, hdisposed, runCount, runCount_blankEvent, hfirst]
    rfl

end CapsuleCompiler
