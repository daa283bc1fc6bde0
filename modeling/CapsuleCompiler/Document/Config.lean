import CapsuleCompiler.Config
import CapsuleCompiler.Document.Diagnostic

/-!
# Document.Config — configurations as documents

Every setting may be left out and then has its standard value, in the array form the last ones only.
-/

namespace CapsuleCompiler

open Json (Fields Reader)

namespace PackageVersions

def fields : Fields (String × String × String × Unit) :=
  .field "reactVersion" .string (.anywhere standard.react) <|
  .field "nextVersion" .string (.anywhere standard.next) <|
  .field "typescriptVersion" .string (.anywhere standard.typescript) .done

def reader : Reader PackageVersions :=
  .map (fun (react, next, typescript, _) => ⟨react, next, typescript⟩)
    (.record "PackageConfig" fields)

def toJson (p : PackageVersions) : Json :=
  .object [("reactVersion", .string p.react), ("nextVersion", .string p.next),
    ("typescriptVersion", .string p.typescript)]

end PackageVersions

namespace CompilerConfig

def fields : Fields (Nat × Bool × Bool × List String × PackageVersions × Unit) :=
  .field "timeoutMs" (.natural "u64") (.anywhere standard.timeoutMs) <|
  .field "isolation" .bool (.anywhere standard.isolation) <|
  .field "cacheEnabled" .bool (.anywhere standard.cacheEnabled) <|
  .field "referencePrefixes" (.list .string) (.anywhere standard.referencePrefixes) <|
  .field "package" PackageVersions.reader (.anywhere standard.package) .done

def reader : Reader CompilerConfig :=
  .map (fun (timeoutMs, isolation, cacheEnabled, referencePrefixes, package, _) =>
      ⟨timeoutMs, isolation, cacheEnabled, referencePrefixes, package⟩)
    (.record "CompilerConfig" fields)

def toJson (c : CompilerConfig) : Json :=
  .object [("timeoutMs", .integer c.timeoutMs), ("isolation", .bool c.isolation),
    ("cacheEnabled", .bool c.cacheEnabled), ("referencePrefixes", .strings c.referencePrefixes),
    ("package", c.package.toJson)]

/-- A configuration that is usable. -/
def ofText (document : String) : Except CompileError CompilerConfig := do
  let config ← ofDocument reader document
  config.validate
  return config

end CompilerConfig

end CapsuleCompiler
