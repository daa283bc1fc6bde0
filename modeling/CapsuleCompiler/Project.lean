import CapsuleCompiler.Artifact
import CapsuleCompiler.Config
import CapsuleCompiler.Naming
import CapsuleCompiler.Template

/-!
# Project — the files around the page of an application
-/

namespace CapsuleCompiler.Project

/-! ### Manifest -/

/-- The packages of the capsules with those of the framework, whose versions are those of the settings. -/
def dependencies (versions : PackageVersions) (packages : Dict String) : Dict String :=
  ((packages.insert "next" versions.next).insert "react" versions.react).insert "react-dom"
    versions.react

def texts (members : List (String × String)) : Json :=
  .object (members.map fun m => (m.1, .string m.2))

def manifest (name : String) (versions : PackageVersions) (packages : Dict String) : Json :=
  .object [
    ("dependencies", .ofDict .string (dependencies versions packages)),
    ("devDependencies", texts [("@types/node", "^20.0.0"), ("@types/react", versions.react),
      ("typescript", versions.typescript)]),
    ("name", .string (Naming.packageName name)),
    ("private", .bool true),
    ("scripts", texts [("build", "next build"), ("dev", "next dev"), ("start", "next start")]),
    ("version", .string "0.1.0")]

def packageJson (name : String) (versions : PackageVersions) (packages : Dict String) : String :=
  (manifest name versions packages).pretty ++ "\n"

/-! ### Language settings -/

def languageOptions : Json :=
  .object [
    ("compilerOptions", .object [
      ("allowJs", .bool true),
      ("baseUrl", .string "."),
      ("esModuleInterop", .bool true),
      ("incremental", .bool true),
      ("isolatedModules", .bool true),
      ("jsx", .string "preserve"),
      ("lib", .strings ["dom", "dom.iterable", "esnext"]),
      ("module", .string "esnext"),
      ("moduleResolution", .string "bundler"),
      ("noEmit", .bool true),
      ("paths", .object [("@/*", .strings ["./*"])]),
      ("resolveJsonModule", .bool true),
      ("skipLibCheck", .bool true),
      ("strict", .bool false),
      ("target", .string "ES2017")]),
    ("exclude", .strings ["node_modules"]),
    ("include", .strings ["next-env.d.ts", "**/*.ts", "**/*.tsx"])]

def tsconfigJson : String := languageOptions.pretty ++ "\n"

/-! ### Styles -/

/-- A rule of a style sheet. -/
def styleRule (selectors : List String) (declarations : List String) : String :=
  ",\n".intercalate selectors ++ " \x7b\n" ++
    String.join (declarations.map fun d => "  " ++ d ++ ";\n") ++ "\x7d\n"

def globalsCss : String :=
  "\n".intercalate [
    styleRule ["*", "*::before", "*::after"] ["box-sizing: border-box"],
    styleRule ["body"] [
      "margin: 0",
      "font-family: system-ui, -apple-system, 'Segoe UI', Roboto, sans-serif",
      "color: #111827",
      "background: #f9fafb"],
    styleRule [".capsula-page"] ["min-height: 100vh", "padding: 2rem"],
    styleRule [".capsula-title"] ["margin: 0 0 1.5rem", "font-size: 1.875rem", "font-weight: 700"],
    styleRule [".capsula-container"] [
      "display: flex",
      "flex-direction: column",
      "gap: 1rem",
      "max-width: 64rem",
      "margin: 0 auto"],
    styleRule [".capsula-empty"] [
      "padding: 2rem",
      "text-align: center",
      "color: #6b7280",
      "border: 2px dashed #d1d5db",
      "border-radius: 0.5rem"]]

/-! ### Guide -/

/-- A capsule module as the guide lists it. -/
structure ModuleEntry where
  path : String
  symbol : String
deriving DecidableEq, Inhabited

def ModuleEntry.text (m : ModuleEntry) : String := "- `" ++ m.path ++ "` (" ++ m.symbol ++ ")"

def commandLines (steps : List String) : String := "\n".intercalate (steps.map ("   " ++ ·))

def moduleLines (modules : List ModuleEntry) : String :=
  if modules.isEmpty then "_This composition uses no capsules._"
  else "\n".intercalate (modules.map ModuleEntry.text)

def readme (title : String) (description : Option String) (build : BuildInstructions)
    (modules : List ModuleEntry) : Except GenerationFault String :=
  Template.readme.render (.ofList [
    ("title", title),
    ("description", description.getD "A Next.js application assembled from capsules."),
    ("compiler", compilerId),
    ("install", commandLines build.install),
    ("build", commandLines build.build),
    ("run", commandLines build.run),
    ("modules", moduleLines modules)])

end CapsuleCompiler.Project
