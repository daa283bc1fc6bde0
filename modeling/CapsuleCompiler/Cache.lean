import CapsuleCompiler.Dict
import CapsuleCompiler.Fingerprint

/-!
# Cache — values kept under fingerprints

A cache has one entry for a fingerprint, the one that was put last, and counts the look-ups that found an entry
and those that found none. Disposing of the entries leaves the counters as they are.
-/

namespace CapsuleCompiler

structure Cache (α : Type) where
  /-- The values by the digits of their fingerprints. -/
  entries : Dict α
  hits : Nat
  misses : Nat
deriving Inhabited

namespace Cache

variable {α : Type}

def empty : Cache α := ⟨.empty, 0, 0⟩

def size (c : Cache α) : Nat := c.entries.size

def isEmpty (c : Cache α) : Bool := c.entries.isEmpty

/-- The entry of a fingerprint, without counting. -/
def peek? (c : Cache α) (f : Fingerprint) : Option α := c.entries.get? f.hex

/-- Looks up a fingerprint and counts. -/
def get (c : Cache α) (f : Fingerprint) : Option α × Cache α :=
  match c.peek? f with
  | some x => (some x, { c with hits := c.hits + 1 })
  | none => (none, { c with misses := c.misses + 1 })

def put (c : Cache α) (f : Fingerprint) (x : α) : Cache α :=
  { c with entries := c.entries.insert f.hex x }

def dispose (c : Cache α) : Cache α := { c with entries := .empty }

/-! ### What a look-up sees -/

theorem hex_inj {f g : Fingerprint} : f.hex = g.hex ↔ f = g := by
  cases f; cases g; simp

@[simp] theorem peek?_empty (f : Fingerprint) : (empty : Cache α).peek? f = none := rfl

@[simp] theorem peek?_dispose (c : Cache α) (f : Fingerprint) : c.dispose.peek? f = none := rfl

@[simp] theorem peek?_put (c : Cache α) (f g : Fingerprint) (x : α) :
    (c.put f x).peek? g = if g = f then some x else c.peek? g := by
  simp [put, peek?, hex_inj]

@[simp] theorem fst_get (c : Cache α) (f : Fingerprint) : (c.get f).1 = c.peek? f := by
  unfold get; split <;> simp_all

@[simp] theorem entries_get (c : Cache α) (f : Fingerprint) : (c.get f).2.entries = c.entries := by
  unfold get; split <;> rfl

end Cache

end CapsuleCompiler
