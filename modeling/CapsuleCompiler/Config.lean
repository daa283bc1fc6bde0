import CapsuleCompiler.Error

/-!
# Config — settings of a compiler

A configuration is usable when an isolated run has some time and when at least one reference prefix is not
empty; an empty prefix by itself is harmless, since it is never matched.
-/

namespace CapsuleCompiler

/-- The versions that the manifest of an application asks for. -/
structure PackageVersions where
  react : String
  next : String
  typescript : String
deriving DecidableEq

def PackageVersions.standard : PackageVersions := ⟨"^18.3.0", "^14.2.0", "^5.5.0"⟩

instance : Inhabited PackageVersions := ⟨.standard⟩

structure CompilerConfig where
  /-- How long an isolated run may take. -/
  timeoutMs : Nat
  /-- Whether a run goes to a worker of its own. -/
  isolation : Bool
  /-- Whether results are kept under their fingerprints. -/
  cacheEnabled : Bool
  /-- The beginnings of the module paths that name capsules. -/
  referencePrefixes : List String
  package : PackageVersions
deriving DecidableEq

namespace CompilerConfig

def standardPrefixes : List String := ["./components/", "@/components/capsules/"]

def standard : CompilerConfig := ⟨10000, true, true, standardPrefixes, .standard⟩

instance : Inhabited CompilerConfig := ⟨standard⟩

def fault? (config : CompilerConfig) : Option ConfigFault :=
  if config.timeoutMs = 0 then some .zeroTimeout
  else if config.referencePrefixes.all String.isEmpty then some .noReferencePrefixes
  else none

def validate (config : CompilerConfig) : Except CompileError Unit :=
  match config.fault? with
  | some fault => .error (.config fault)
  | none => .ok ()

/-- The time of an isolated run in whole seconds and the nanoseconds over. -/
def timeoutParts (config : CompilerConfig) : Nat × Nat :=
  (config.timeoutMs / 1000, config.timeoutMs % 1000 * 1000000)

end CompilerConfig

end CapsuleCompiler
