import CapsuleCompiler.Module
import CapsuleCompiler.Plan
import CapsuleCompiler.Project

/-!
# Generator — the files of a shape

The main file of a shape is a template filled with the plan of the composition; page and application share theirs.
An application has its project files too, and one file for each module, which the guide lists in a given order.
-/

namespace CapsuleCompiler

structure Generator where
  component : Template
  page : Template
  versions : PackageVersions
deriving Inhabited

/-- What the earlier stages of a compilation have found. -/
structure Blueprint where
  composition : Composition
  validation : Validation
  units : List CompilationUnit
  resolution : Resolution
  /-- The capsules in the order in which a guide lists their modules. -/
  order : Option (List CapsuleId)
deriving Inhabited

structure GeneratedFiles where
  files : Dict String
  primaryFile : String
  build : Option BuildInstructions
  /-- How many packages the generated code depends on. -/
  npmDependencies : Nat
deriving Inhabited

namespace Blueprint

/-- The packages of all units; of two versions the one seen first stays. -/
def packages (b : Blueprint) : Dict String :=
  (b.units.flatMap fun u => u.definition.packages.entries).foldl
    (fun d e => d.insertNew e.1 e.2) .empty

/-- The modules in the order of the guide, those it does not name at the end. -/
def orderedModules (b : Blueprint) : List Module :=
  match b.order with
  | none => b.resolution.modules
  | some order =>
    order.filterMap b.resolution.module? ++
      b.resolution.modules.filter fun m => !order.contains m.capsule

end Blueprint

namespace Generator

def standard (versions : PackageVersions) : Generator := ⟨.component, .page, versions⟩

def withTemplate (g : Generator) (shape : Shape) (t : Template) : Generator :=
  match shape with
  | .component => { g with component := t }
  | .page | .application => { g with page := t }

/-! ### Main file -/

def pagePath : String := "app/page.tsx"

def primaryPath (plan : Plan) : Shape → String
  | .component => "components/" ++ plan.symbol ++ ".tsx"
  | .page | .application => pagePath

def fill (t : Template) (plan : Plan) (further : List String) (columns : Nat) (inFragment : Bool) :
    Except GenerationFault String :=
  t.render (.ofList [
    ("prelude", plan.prelude further),
    ("symbol", plan.symbol),
    ("state", plan.stateBlock),
    ("markup", Markup.Element.block plan.elements columns inFragment),
    ("title", plan.title)])

def primaryText (g : Generator) (plan : Plan) : Shape → Except GenerationFault String
  | .component => fill g.component plan [] 4 true
  | .page => fill g.page plan [] 8 false
  | .application => fill g.page plan ["import './globals.css'"] 8 false

/-! ### Application -/

def modulePath (id : CapsuleId) : String := "components/capsules/" ++ id.text ++ ".tsx"

/-- The file of a module and its entry in the guide. -/
def moduleFile (m : Module) : Except GenerationFault (Project.ModuleEntry × String) := do
  Plan.requireCanonical m.capsule
  return (⟨modulePath m.capsule, m.symbol⟩, m.text)

def moduleFiles : List Module → Except GenerationFault (List (Project.ModuleEntry × String))
  | [] => .ok []
  | m :: ms => do
    let file ← moduleFile m
    return file :: (← moduleFiles ms)

/-- The files of an application besides its page, with their paths. -/
def projectFiles (g : Generator) (b : Blueprint) (plan : Plan) :
    Except GenerationFault (List (String × String)) := do
  let modules ← moduleFiles b.orderedModules
  let guide ←
    Project.readme plan.title b.composition.description .standard (modules.map (·.1))
  return modules.map (fun m => (m.1.path, m.2)) ++ [
    ("app/globals.css", Project.globalsCss),
    ("package.json", Project.packageJson b.composition.name g.versions b.packages),
    ("tsconfig.json", Project.tsconfigJson),
    ("README.md", guide)]

/-! ### The whole -/

def generateFiles (g : Generator) (b : Blueprint) (shape : Shape) :
    Except GenerationFault GeneratedFiles := do
  let plan ← Plan.ofValidation b.composition.name b.validation
  let path := primaryPath plan shape
  let text ← g.primaryText plan shape
  let others ←
    match shape with
    | .application => g.projectFiles b plan
    | _ => .ok []
  return {
    files := .ofList ((path, text) :: others)
    primaryFile := path
    build := if shape = .application then some .standard else none
    npmDependencies := (Project.dependencies g.versions b.packages).size }

def generate (g : Generator) (b : Blueprint) (shape : Shape) : Except CompileError GeneratedFiles :=
  (g.generateFiles b shape).mapError .generation

end Generator

end CapsuleCompiler
