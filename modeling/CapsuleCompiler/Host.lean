import CapsuleCompiler.Cache
import CapsuleCompiler.Compilation

/-!
# Host — compilations that remember their results

A host answers a request from a cache if it may, and otherwise runs its compiler: on the thread of the caller, or
isolated in a worker whose answer has to arrive within the budget of the configuration. Only an artifact that has
reached its caller is kept. The cache is a value beside the host, so several hosts may share one.
-/

namespace CapsuleCompiler

structure Host where
  compiler : Compiler
  config : CompilerConfig
deriving Inhabited

/-- How a caller waits. -/
inductive Waiting
  /-- Until the run on its own thread is done. -/
  | blocking
  /-- For a worker, where there are workers. -/
  | async
  /-- As for a worker where there are none. -/
  | bare
deriving DecidableEq, Inhabited

/-- What becomes of the answer of a worker. -/
inductive Delivery
  | inTime
  | late
  | lost
deriving DecidableEq, Inhabited

namespace Host

/-- A host over a catalog, if the settings are usable. -/
def ofCatalog (catalog : Catalog) (config : CompilerConfig) : Except CompileError Host := do
  config.validate
  return ⟨.ofConfig catalog config, config⟩

/-! ### Runs -/

def isIsolated (h : Host) (waiting : Waiting) : Bool := waiting == .async && h.config.isolation

/-- What reaches the caller of an isolated run. -/
def received (h : Host) (result : Except CompileError Artifact) :
    Delivery → Except CompileError Artifact
  | .inTime => result
  | .late => .error (.timeout h.config.timeoutMs)
  | .lost => .error .workerVanished

/-- What reaches the caller of a run, whose delivery only matters if a worker does it. -/
def answer (h : Host) (waiting : Waiting) (delivery : Delivery)
    (result : Except CompileError Artifact) : Except CompileError Artifact :=
  if h.isIsolated waiting then h.received result delivery else result

/-! ### Memory -/

def lookup (h : Host) (f : Fingerprint) (cache : Cache Artifact) :
    Option Artifact × Cache Artifact :=
  if h.config.cacheEnabled then cache.get f else (none, cache)

/-- Keeps what has reached a caller. -/
def keep (h : Host) (f : Fingerprint) (answer : Except CompileError Artifact)
    (cache : Cache Artifact) : Cache Artifact :=
  match answer with
  | .ok a => if h.config.cacheEnabled then cache.put f a else cache
  | .error _ => cache

/-- Answers a request and passes the cache on. -/
def compile (h : Host) (waiting : Waiting) (delivery : Delivery) (timing : Timing)
    (c : Composition) (shape : Shape) (cache : Cache Artifact) :
    Except CompileError Artifact × Cache Artifact :=
  let f := fingerprint c shape
  match h.lookup f cache with
  | (some a, cache) => (.ok a, cache)
  | (none, cache) =>
    let answer := h.answer waiting delivery (h.compiler.run c shape timing)
    (answer, h.keep f answer cache)

/-! ### Remote catalogs -/

/-- How a catalog behaves that stands behind a slow or broken line. -/
structure Line where
  /-- How long each look-up takes. -/
  delayMs : Nat
  /-- Whether a look-up ends the worker that makes it. -/
  broken : Bool
deriving Inhabited

/-- The look-ups of nodes: one for each, and none for a composition that is refused before. -/
def lookups (c : Composition) : Nat :=
  if c.repeatedInstance?.isSome then 0 else c.nodes.length

/-- The delivery from a worker that looks up nodes over a line; on a broken one the first look-up is the last. -/
def deliveryOver (h : Host) (line : Line) (c : Composition) : Delivery :=
  let made := if line.broken then min 1 (lookups c) else lookups c
  if h.config.timeoutMs < line.delayMs * made then .late
  else if line.broken && 0 < made then .lost
  else .inTime

end Host

end CapsuleCompiler
