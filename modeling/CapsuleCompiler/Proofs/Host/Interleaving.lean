import CapsuleCompiler.Proofs.Host.Memory

/-!
# Proofs.Host.Interleaving — requests that run at the same time

Hosts that share a cache have any number of requests in flight.  A request is looked up when it starts; from then on
its worker and its caller move on their own: the worker ends with a result or vanishes, early or late, and the caller
takes the result, gives up at the deadline, or hears that the worker is gone.  Entries may be disposed of in between.

* A request that nothing interferes with is `Host.ask` (`canEnd_ask`), so hosts that take turns are a special case.
* `Sound` is what every move keeps: a result is that of a run of the compiler, and every entry is an artifact that
  some caller got, made for the composition and the shape that it stands under.
* An answer is never taken back (`Step.answer_stays`), and entries change only where an artifact is answered or where
  they are disposed of (`Step.entries_cases`).  So a request that has ended with an error has never changed an entry,
  and what its worker makes of it later does not either (`entries_of_interleaving`).
-/

namespace CapsuleCompiler

/-! ### Requests in flight -/

/-- What is asked of a host, and how the caller waits. -/
structure Query where
  host : Host
  composition : Composition
  shape : Shape
  waiting : Waiting

namespace Query

def fingerprint (q : Query) : Fingerprint := CapsuleCompiler.fingerprint q.composition q.shape

/-- The run of the compiler that ends at a given time. -/
def run (q : Query) (t : Timing) : Except CompileError Artifact := q.host.compiler.run q.composition q.shape t

def isIsolated (q : Query) : Bool := q.host.isIsolated q.waiting

end Query

/-- Where the run for a request is; on the thread of the caller it is a worker whose caller cannot give up. -/
inductive Worker
  /-- The request was answered from the cache. -/
  | unneeded
  | busy
  | done (result : Except CompileError Artifact)
  | vanished

structure Job where
  query : Query
  worker : Worker
  /-- What the caller got. -/
  answer : Option (Except CompileError Artifact)

/-- A request behind its look-up. -/
def Job.opened (q : Query) : Option Artifact → Job
  | some a => ⟨q, .unneeded, some (.ok a)⟩
  | none => ⟨q, .busy, none⟩

/-- A cache with the requests that were made of the hosts that share it. -/
structure Service where
  cache : Cache Artifact
  jobs : Nat → Option Job

namespace Service

def idle : Service := ⟨.empty, fun _ => none⟩

variable (s : Service)

def set (i : Nat) (j : Job) : Service := { s with jobs := Function.update s.jobs i (some j) }

/-- A request gets its number and is looked up. -/
def start (i : Nat) (q : Query) : Service :=
  let looked := q.host.lookup q.fingerprint s.cache
  ⟨looked.2, Function.update s.jobs i (some (.opened q looked.1))⟩

/-- The caller of a request gets its answer, which is kept if it is an artifact. -/
def conclude (i : Nat) (j : Job) (answer : Except CompileError Artifact) : Service :=
  ⟨j.query.host.keep j.query.fingerprint answer s.cache,
    Function.update s.jobs i (some { j with answer := some answer })⟩

end Service

/-! ### Moves -/

inductive Move
  | start (i : Nat) (q : Query)
  | finish (i : Nat) (t : Timing)
  | vanish (i : Nat)
  | deliver (i : Nat)
  | expire (i : Nat)
  | lose (i : Nat)
  | dispose

/-- The request that makes a move. -/
def Move.request? : Move → Option Nat
  | start i _ | finish i _ | vanish i | deliver i | expire i | lose i => some i
  | dispose => none

/-- One move of a worker or of a caller, at any time at which it is possible.  A worker does not learn whether its
caller is still there. -/
inductive Step : Service → Move → Service → Prop
  | start {s i q} : s.jobs i = none → Step s (.start i q) (s.start i q)
  | finish {s i j t} : s.jobs i = some j → j.worker = .busy →
      Step s (.finish i t) (s.set i { j with worker := .done (j.query.run t) })
  | vanish {s i j} : s.jobs i = some j → j.worker = .busy → j.query.isIsolated →
      Step s (.vanish i) (s.set i { j with worker := .vanished })
  | deliver {s i j result} : s.jobs i = some j → j.answer = none → j.worker = .done result →
      Step s (.deliver i) (s.conclude i j result)
  | expire {s i j} : s.jobs i = some j → j.answer = none → j.query.isIsolated →
      Step s (.expire i) (s.conclude i j (.error (.timeout j.query.host.config.timeoutMs)))
  | lose {s i j} : s.jobs i = some j → j.answer = none → j.worker = .vanished →
      Step s (.lose i) (s.conclude i j (.error .workerVanished))
  | dispose {s} : Step s .dispose { s with cache := s.cache.dispose }

/-- Moves one after the other. -/
inductive Run : Service → List Move → Service → Prop
  | nil {s} : Run s [] s
  | cons {s m u ms s'} : Step s m u → Run u ms s' → Run s (m :: ms) s'

/-- What an interleaving of requests can lead to. -/
def Reachable (s : Service) : Prop := ∃ moves, Run .idle moves s

variable {s s' u : Service} {m : Move} {moves : List Move} {i : Nat} {j : Job} {q : Query} {f : Fingerprint}
  {a : Artifact} {answer : Except CompileError Artifact}

theorem Run.append {ms ms' : List Move} (h : Run s ms u) (h' : Run u ms' s') : Run s (ms ++ ms') s' := by
  induction h with
  | nil => exact h'
  | cons hstep _ ih => exact .cons hstep (ih h')

/-! ### One move -/

/-- Only the request that moves changes. -/
theorem job_of_update {jobs : Nat → Option Job} {k : Nat} {j₁ : Job}
    (h : Function.update jobs k (some j₁) i = some j) : i = k ∧ j₁ = j ∨ jobs i = some j := by
  by_cases hk : i = k
  · subst hk
    rw [Function.update_self] at h
    exact .inl ⟨rfl, Option.some.inj h⟩
  · rw [Function.update_of_ne hk] at h
    exact .inr h

namespace Host

variable {h : Host} {cache : Cache Artifact}

theorem entries_lookup (h : Host) (f : Fingerprint) (cache : Cache Artifact) :
    (h.lookup f cache).2.entries = cache.entries := by
  unfold lookup
  split
  · exact Cache.entries_get cache f
  · rfl

/-- Keeping an answer leaves the entries as they are, or puts the artifact that is answered. -/
theorem entries_keep_cases (h : Host) (f : Fingerprint) (answer : Except CompileError Artifact)
    (cache : Cache Artifact) : (h.keep f answer cache).entries = cache.entries ∨
      ∃ a, answer = .ok a ∧ (h.keep f answer cache).entries = cache.entries.insert f.hex a := by
  cases answer with
  | error e => exact .inl rfl
  | ok a =>
    unfold keep
    by_cases henabled : h.config.cacheEnabled
    · exact .inr ⟨a, rfl, by simp [henabled, Cache.put]⟩
    · exact .inl (by simp [henabled])

end Host

namespace Step

/-- What a move does to the requests: it touches the one that makes it, and no other. -/
theorem jobs_eq (h : Step s m s') : s'.jobs = s.jobs ∨ ∃ i j, m.request? = some i ∧
    s'.jobs = Function.update s.jobs i (some j) ∧ ∀ old ∈ s.jobs i, j.query = old.query ∧
      ∀ answer ∈ old.answer, j.answer = some answer := by
  cases h with
  | start hfree => exact .inr ⟨_, _, rfl, rfl, by simp [hfree]⟩
  | finish hjob _ => exact .inr ⟨_, _, rfl, rfl, by simp [hjob]⟩
  | vanish hjob _ _ => exact .inr ⟨_, _, rfl, rfl, by simp [hjob]⟩
  | deliver hjob hwaits _ => exact .inr ⟨_, _, rfl, rfl, by simp [hjob, hwaits]⟩
  | expire hjob hwaits _ => exact .inr ⟨_, _, rfl, rfl, by simp [hjob, hwaits]⟩
  | lose hjob hwaits _ => exact .inr ⟨_, _, rfl, rfl, by simp [hjob, hwaits]⟩
  | dispose => exact .inl rfl

/-- Requests stay, and so do their answers. -/
theorem answer_stays (h : Step s m s') (hjob : s.jobs i = some j) (hanswer : j.answer = some answer) :
    ∃ j', s'.jobs i = some j' ∧ j'.query = j.query ∧ j'.answer = some answer := by
  rcases h.jobs_eq with heq | ⟨k, j', -, heq, hold⟩
  · exact ⟨j, by rw [heq, hjob], rfl, hanswer⟩
  · by_cases hk : i = k
    · subst hk
      obtain ⟨hquery, hkept⟩ := hold j hjob
      exact ⟨j', by rw [heq, Function.update_self], hquery, hkept answer hanswer⟩
    · exact ⟨j, by rw [heq, Function.update_of_ne hk, hjob], rfl, hanswer⟩

/-- A caller is answered, for which the entries may change. -/
structure Answers (s : Service) (m : Move) (s' : Service) (i : Nat) (j : Job) (a : Artifact) : Prop where
  request : m.request? = some i
  before : s.jobs i = some j ∧ j.answer = none
  done : j.worker = .done (.ok a)
  after : s'.jobs i = some { j with answer := some (.ok a) }
  entries : s'.cache.entries = s.cache.entries.insert j.query.fingerprint.hex a

/-- The entries stay the same, are disposed of, or get the artifact that a caller is answered with. -/
theorem entries_cases (h : Step s m s') : s'.cache.entries = s.cache.entries ∨
    (m = .dispose ∧ s'.cache = s.cache.dispose) ∨ ∃ i j a, Answers s m s' i j a := by
  have hfailed (i : Nat) (j : Job) (e : CompileError) :
      (s.conclude i j (.error e)).cache.entries = s.cache.entries := rfl
  cases h with
  | @start i q hfree => exact .inl (q.host.entries_lookup q.fingerprint s.cache)
  | finish _ _ => exact .inl rfl
  | vanish _ _ _ => exact .inl rfl
  | @deliver i j result hjob hwaits hdone =>
    rcases j.query.host.entries_keep_cases j.query.fingerprint result s.cache with heq | ⟨a, rfl, heq⟩
    · exact .inl heq
    · exact .inr (.inr ⟨i, j, a, rfl, ⟨hjob, hwaits⟩, hdone, Function.update_self .., heq⟩)
  | expire _ _ _ => exact .inl (hfailed _ _ _)
  | lose _ _ _ => exact .inl (hfailed _ _ _)
  | dispose => exact .inr (.inl ⟨rfl, rfl⟩)

/-- A result is new and comes from a run, or it was there before. -/
theorem done_cases {result : Except CompileError Artifact} (h : Step s m s') (hjob : s'.jobs i = some j)
    (hdone : j.worker = .done result) : (∃ t, j.query.run t = result) ∨
      ∃ old, s.jobs i = some old ∧ old.query = j.query ∧ old.worker = .done result := by
  have hsame (hold : s.jobs i = some j) : ∃ old, s.jobs i = some old ∧ old.query = j.query ∧
      old.worker = .done result := ⟨j, hold, rfl, hdone⟩
  cases h with
  | @start k q hfree =>
    rcases job_of_update hjob with ⟨-, rfl⟩ | hold
    · cases hlooked : (q.host.lookup q.fingerprint s.cache).1 <;> rw [hlooked] at hdone <;> cases hdone
    · exact .inr (hsame hold)
  | @finish k j₀ t hbusy _ =>
    rcases job_of_update hjob with ⟨-, rfl⟩ | hold
    · cases hdone
      exact .inl ⟨t, rfl⟩
    · exact .inr (hsame hold)
  | vanish hbusy _ _ =>
    rcases job_of_update hjob with ⟨-, rfl⟩ | hold
    · cases hdone
    · exact .inr (hsame hold)
  | deliver hwaits _ _ | expire hwaits _ _ | lose hwaits _ _ =>
    rcases job_of_update hjob with ⟨rfl, rfl⟩ | hold
    · exact .inr ⟨_, hwaits, rfl, hdone⟩
    · exact .inr (hsame hold)
  | dispose => exact .inr (hsame hjob)

end Step

/-- Answers are never taken back. -/
theorem Run.answer_stays (h : Run s moves s') (hjob : s.jobs i = some j) (hanswer : j.answer = some answer) :
    ∃ j', s'.jobs i = some j' ∧ j'.query = j.query ∧ j'.answer = some answer := by
  induction h generalizing j with
  | nil => exact ⟨j, hjob, rfl, hanswer⟩
  | cons hstep _ ih =>
    obtain ⟨k, hk, hquery, hkept⟩ := hstep.answer_stays hjob hanswer
    obtain ⟨j', hj', hquery', hkept'⟩ := ih hk hkept
    exact ⟨j', hj', hquery'.trans hquery, hkept'⟩

/-! ### Requests without interference -/

def Query.ofRequest (h : Host) (r : Request) : Query := ⟨h, r.composition, r.shape, r.waiting⟩

/-- Moves of one request alone can lead to its answer. -/
def Service.CanEnd (s : Service) (i : Nat) (q : Query) (answer : Except CompileError Artifact)
    (cache : Cache Artifact) : Prop :=
  ∃ moves s' j, Run s moves s' ∧ s'.cache = cache ∧ s'.jobs = Function.update s.jobs i (some j) ∧ j.query = q ∧
    j.answer = some answer

variable {h : Host} {r : Request}

/-- A caller that is waiting can get what `Host.reply` says of the delivery. -/
theorem canEnd_reply (hjob : s.jobs i = some ⟨.ofRequest h r, .busy, none⟩) :
    s.CanEnd i (.ofRequest h r) (h.reply r) (h.keep r.fingerprint (h.reply r) s.cache) := by
  have hdelivered (heq : h.reply r = h.run r) :
      s.CanEnd i (.ofRequest h r) (h.reply r) (h.keep r.fingerprint (h.reply r) s.cache) := by
    have hfinish := Step.finish (t := r.timing) hjob rfl
    have hdeliver := Step.deliver (s := s.set i ⟨.ofRequest h r, .done (h.run r), none⟩) (Function.update_self ..) rfl
      rfl
    rw [heq]
    exact ⟨_, _, _, .cons hfinish (.cons hdeliver .nil), rfl, Function.update_idem .., rfl, rfl⟩
  by_cases hisolated : h.isIsolated r.waiting
  · cases hdelivery : r.delivery with
    | inTime => exact hdelivered (Host.reply_eq_run fun _ => hdelivery)
    | late =>
      have heq : h.reply r = .error (.timeout h.config.timeoutMs) := by
        rw [Host.reply, Host.answer, if_pos hisolated, hdelivery, Host.received]
      rw [heq]
      exact ⟨_, _, _, .cons (.expire hjob rfl hisolated) .nil, rfl, rfl, rfl, rfl⟩
    | lost =>
      have heq : h.reply r = .error .workerVanished := by
        rw [Host.reply, Host.answer, if_pos hisolated, hdelivery, Host.received]
      have hvanish := Step.vanish hjob rfl hisolated
      have hlose := Step.lose (s := s.set i ⟨.ofRequest h r, .vanished, none⟩) (Function.update_self ..) rfl rfl
      rw [heq]
      exact ⟨_, _, _, .cons hvanish (.cons hlose .nil), rfl, Function.update_idem .., rfl, rfl⟩
  · exact hdelivered (Host.reply_eq_run fun h => absurd h hisolated)

/-- A request that runs alone is what `Host.ask` makes of it. -/
theorem canEnd_ask (h : Host) (r : Request) (hfree : s.jobs i = none) :
    s.CanEnd i (.ofRequest h r) (h.ask r s.cache).1 (h.ask r s.cache).2 := by
  have hstart : Step s (.start i (.ofRequest h r)) ⟨(h.lookup r.fingerprint s.cache).2, Function.update s.jobs i
      (some (.opened (.ofRequest h r) (h.lookup r.fingerprint s.cache).1))⟩ := .start hfree
  rw [Host.ask, Host.compile, ← Request.fingerprint, ← Host.run, ← Host.reply]
  cases hlooked : h.lookup r.fingerprint s.cache with
  | mk found cache =>
    rw [hlooked] at hstart
    cases found with
    | some a => exact ⟨_, _, _, .cons hstart .nil, rfl, rfl, rfl, rfl⟩
    | none =>
      obtain ⟨moves, s', j, hrun, hcache, hjobs, hquery, hanswer⟩ := canEnd_reply (h := h) (r := r)
        (s := ⟨cache, Function.update s.jobs i (some (.opened (.ofRequest h r) none))⟩) (Function.update_self ..)
      exact ⟨_, s', j, .cons hstart hrun, hcache, hjobs.trans (Function.update_idem ..), hquery, hanswer⟩

/-- Hosts that take turns interleave nothing: the cache after their calls is reached by moves. -/
theorem exists_reachable_cacheAfter : ∀ history : List Event, ∃ s n, Reachable s ∧ (∀ i ≥ n, s.jobs i = none) ∧
    s.cache = cacheAfter history
  | [] => ⟨.idle, 0, ⟨[], .nil⟩, fun _ _ => rfl, rfl⟩
  | ⟨h, .compile r⟩ :: earlier => by
    obtain ⟨s, n, ⟨moves, hrun⟩, hfree, hcache⟩ := exists_reachable_cacheAfter earlier
    obtain ⟨moves', s', j, hask, hcache', hjobs, -, -⟩ := canEnd_ask h r (hfree n le_rfl)
    refine ⟨s', n + 1, ⟨_, hrun.append hask⟩, fun i hi => ?_, by rw [hcache', hcache, cacheAfter]⟩
    rw [hjobs, Function.update_of_ne (by omega)]
    exact hfree i (by omega)
  | ⟨_, .dispose⟩ :: earlier => by
    obtain ⟨s, n, ⟨moves, hrun⟩, hfree, hcache⟩ := exists_reachable_cacheAfter earlier
    refine ⟨_, n, ⟨_, hrun.append (.cons .dispose .nil)⟩, hfree, ?_⟩
    rw [cacheAfter, ← hcache]

/-! ### What every move keeps -/

/-- A request made an artifact for a fingerprint, and its caller got it. -/
def Service.Made (s : Service) (f : Fingerprint) (a : Artifact) : Prop :=
  ∃ i j t, s.jobs i = some j ∧ j.answer = some (.ok a) ∧ j.query.fingerprint = f ∧ j.query.run t = .ok a

structure Service.Sound (s : Service) : Prop where
  /-- Results are those of runs. -/
  done : ∀ i j result, s.jobs i = some j → j.worker = .done result → ∃ t, j.query.run t = result
  /-- Entries are artifacts that callers got. -/
  made : ∀ f a, s.cache.peek? f = some a → s.Made f a

theorem Service.sound_idle : idle.Sound := by
  refine ⟨fun i j result hjob => ?_, fun f a hp => ?_⟩
  · cases hjob
  · cases hp

theorem Service.Made.step (h : s.Made f a) (hstep : Step s m s') : s'.Made f a := by
  obtain ⟨i, j, t, hjob, hanswer, hf, hrun⟩ := h
  obtain ⟨j', hjob', hquery, hanswer'⟩ := hstep.answer_stays hjob hanswer
  exact ⟨i, j', t, hjob', hanswer', by rw [hquery, hf], by rw [hquery, hrun]⟩

theorem Service.Sound.step (h : s.Sound) (hstep : Step s m s') : s'.Sound := by
  constructor
  · intro i j result hjob hdone
    rcases hstep.done_cases hjob hdone with ht | ⟨old, hold, hquery, hdone⟩
    · exact ht
    · rw [← hquery]
      exact h.done i old result hold hdone
  · intro f a hp
    have hold (hp : s.cache.peek? f = some a) : s'.Made f a := (h.made f a hp).step hstep
    rcases hstep.entries_cases with heq | ⟨-, heq⟩ | ⟨i, j, b, hanswers⟩
    · exact hold (by rwa [Cache.peek?, ← heq])
    · rw [heq, Cache.peek?_dispose] at hp
      cases hp
    · rw [Cache.peek?, hanswers.entries, Dict.get?_insert] at hp
      split at hp
      · next hf =>
        cases hp
        obtain ⟨t, ht⟩ := h.done i j _ hanswers.before.1 hanswers.done
        exact ⟨i, _, t, hanswers.after, rfl, Cache.hex_inj.1 hf.symm, ht⟩
      · exact hold hp

theorem Service.Sound.run (h : s.Sound) (hrun : Run s moves s') : s'.Sound := by
  induction hrun with
  | nil => exact h
  | cons hstep _ ih => exact ih (h.step hstep)

theorem Reachable.sound (h : Reachable s) : s.Sound := by
  obtain ⟨moves, hrun⟩ := h
  exact Service.sound_idle.run hrun

/-- A move that changes the entries leaves its request with an artifact. -/
theorem Step.answer_of_entries_ne (h : Step s m s') (hi : m.request? = some i)
    (hne : s'.cache.entries ≠ s.cache.entries) : ∃ j a, s'.jobs i = some j ∧ j.answer = some (.ok a) := by
  rcases h.entries_cases with heq | ⟨rfl, -⟩ | ⟨k, j, a, hanswers⟩
  · exact absurd heq hne
  · cases hi
  · cases hi.symm.trans hanswers.request
    exact ⟨_, a, hanswers.after, rfl⟩

/-- **Entries under any interleaving.**  Every entry is the result of the compiler for the composition and the shape
of a request whose caller got it.  Entries change only where a caller is answered with the artifact, or where they are
disposed of.  No move of a request that ends with an error changes them, neither before it ends nor after. -/
theorem entries_of_interleaving (hs : Reachable s) :
    (∀ f a, s.cache.peek? f = some a → s.Made f a) ∧
      (∀ m s', Step s m s' → s'.cache.entries ≠ s.cache.entries →
        m = .dispose ∨ ∃ i j a, Step.Answers s m s' i j a) ∧
      ∀ m s' i moves u j e, Step s m s' → m.request? = some i → Run s' moves u → u.jobs i = some j →
        j.answer = some (.error e) → s'.cache.entries = s.cache.entries := by
  refine ⟨hs.sound.made, fun m s' hstep hne => ?_, fun m s' i moves u j e hstep hi hrun hjob hended => ?_⟩
  · rcases hstep.entries_cases with heq | ⟨hm, -⟩ | hanswers
    · exact absurd heq hne
    · exact .inl hm
    · exact .inr hanswers
  · by_contra hne
    obtain ⟨j', a, hjob', hanswer⟩ := hstep.answer_of_entries_ne hi hne
    obtain ⟨j'', hjob'', -, hanswer'⟩ := hrun.answer_stays hjob' hanswer
    rw [hjob] at hjob''
    cases hjob''
    rw [hended] at hanswer'
    cases hanswer'

/-! ### A late worker -/

/-- An empty page, for which a worker is to run. -/
def blankQuery : Query := .ofRequest (.standard .empty) (blankRequest .page)

/-- The deadline of a request for it has passed. -/
def overdue : Service :=
  (Service.idle.start 0 blankQuery).conclude 0 ⟨blankQuery, .busy, none⟩ (.error (.timeout 10000))

theorem reachable_overdue : Reachable overdue :=
  ⟨_, .cons (.start rfl) (.cons (.expire (i := 0) rfl rfl rfl) .nil)⟩

/-- The worker of the request finishes all the same, and the page is asked for again. -/
theorem entries_of_interleaving_late : ∃ s u a b, Step overdue (.finish 0 ⟨0, ""⟩) s ∧
    s.jobs 0 = some ⟨blankQuery, .done (.ok a), some (.error (.timeout 10000))⟩ ∧
      s.cache.entries = overdue.cache.entries ∧ (∃ moves, Run s moves u) ∧
        u.cache.peek? blankQuery.fingerprint = some b ∧ u.Made blankQuery.fingerprint b := by
  obtain ⟨a, ha⟩ := isOk_iff.1 (run_blankRequest_isOk (s := .page) (by decide))
  have hfinish : Step overdue (.finish 0 ⟨0, ""⟩)
      (overdue.set 0 ⟨blankQuery, .done (.ok a), some (.error (.timeout 10000))⟩) := by
    rw [← ha]
    exact .finish (j := ⟨blankQuery, .busy, some (.error (.timeout 10000))⟩) rfl rfl
  obtain ⟨moves, u, j, hrun, hcache, -, -, -⟩ := canEnd_ask (i := 1) (.standard .empty) (blankRequest .page)
    (show (overdue.set 0 ⟨blankQuery, .done (.ok a), some (.error (.timeout 10000))⟩).jobs 1 = none from rfl)
  obtain ⟨before, hbefore⟩ := reachable_overdue
  have hu : Reachable u := ⟨_, hbefore.append (.cons hfinish hrun)⟩
  obtain ⟨b, hb⟩ := Option.isSome_iff_exists.1
    (Host.isSome_peek?_ask_self (h := .standard .empty) rfl (fun _ => rfl) ha)
  rw [← hcache] at hb
  refine ⟨_, u, a, b, hfinish, rfl, ?_, ⟨moves, hrun⟩, hb, (entries_of_interleaving hu).1 _ _ hb⟩
  exact (entries_of_interleaving reachable_overdue).2.2 _ _ 0 [] _ _ _ hfinish rfl .nil rfl rfl

end CapsuleCompiler
