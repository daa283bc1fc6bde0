import CapsuleCompiler.Proofs.Generation.Props

/-!
# Proofs.Generation.MainFile — what the main files of all shapes share

With the built-in templates the main file of every shape is the prelude of the plan, the exported function, the
declarations of the variables, and one element for each placed node, in order (`primaryText_eq`).  The lines before the
function are those of the prelude whatever the title is, and in them each placed capsule has one import
(`count_linesBeforeExport`), under the symbol that is the tag of its elements.
-/

namespace CapsuleCompiler

variable {v : Validation} {plan : Plan} {name : String}

namespace Plan

/-! ### Imports -/

end Plan

namespace Generator

variable {versions : PackageVersions} {shape : Shape} {text : String}

/-! ### The main file -/

/-- What stands between the variables and the elements of a main file. -/
def opening (plan : Plan) : Shape → String
  | .component => "  return (\n"
  | .page | .application =>
    "  return (\n" ++ "    <main className=\"capsula-page\">\n" ++ "      <h1 className=\"capsula-title\">" ++
      plan.title ++ "</h1>\n" ++ "      <div className=\"capsula-container\">\n"

/-- The elements of a main file, one a line; in a component a fragment encloses them. -/
def markup (plan : Plan) : Shape → String
  | .component => Markup.Element.block plan.elements 4 true
  | .page | .application => Markup.Element.block plan.elements 8 false

def closing : Shape → String
  | .component => "\n" ++ "  )\n" ++ "\x7d\n"
  | .page | .application => "\n" ++ "      </div>\n" ++ "    </main>\n" ++ "  )\n" ++ "\x7d\n"

section Fill

variable {further : List String} {columns : Nat} {inFragment : Bool}

theorem filled_text (t : String) : (Template.Part.text t).filled (fillings plan further columns inFragment) = t := rfl

theorem filled_slots (plan : Plan) (further : List String) (columns : Nat) (inFragment : Bool) :
    (Template.Part.slot "prelude").filled (fillings plan further columns inFragment) = plan.prelude further ∧
      (Template.Part.slot "symbol").filled (fillings plan further columns inFragment) = plan.symbol ∧
      (Template.Part.slot "state").filled (fillings plan further columns inFragment) = plan.stateBlock ∧
      (Template.Part.slot "markup").filled (fillings plan further columns inFragment) =
        Markup.Element.block plan.elements columns inFragment ∧
      (Template.Part.slot "title").filled (fillings plan further columns inFragment) = plan.title := by
  simp [Template.Part.filled, get?_fillings, List.lookup_cons]

theorem fill_parts {t : Template} {parts : List Template.Part}
    (hsource : t.source = String.join (parts.map Template.Part.source)) (hfits : parts.all Template.Part.fits)
    (hbound : parts.all (Template.Part.bound (fillings plan further columns inFragment))) :
    fill t plan further columns inFragment =
      .ok (String.join (parts.map (·.filled (fillings plan further columns inFragment)))) :=
  Template.render_parts hsource hfits hbound

end Fill

/-- The main file of a plan. -/
theorem primaryText_eq (versions : PackageVersions) (plan : Plan) (shape : Shape) :
    (standard versions).primaryText plan shape = .ok (plan.prelude (furtherImports shape) ++
      "export default function " ++ plan.functionName shape ++ "() \x7b\n" ++ plan.stateBlock ++ opening plan shape ++
      markup plan shape ++ closing shape) := by
  have hpage (further : List String) : fill .page plan further 8 false = .ok (plan.prelude further ++
      "export default function " ++ (plan.symbol ++ "Page") ++ "() \x7b\n" ++ plan.stateBlock ++ opening plan .page ++
      markup plan .page ++ closing .page) := by
    have hsource : Template.page.source = String.join (Template.pageParts.map Template.Part.source) := rfl
    have hsplit : "Page() \x7b\n" = "Page" ++ "() \x7b\n" := rfl
    obtain ⟨hprelude, hsymbol, hstate, hmarkup, htitle⟩ := filled_slots plan further 8 false
    refine (fill_parts hsource (by decide) (bound_pageParts ..)).trans (congrArg Except.ok ?_)
    unfold opening markup closing
    simp only [Template.pageParts, List.map_cons, List.map_nil, filled_text, hprelude, hsymbol, hstate, hmarkup, htitle,
      hsplit, String.join_cons, String.join_nil, String.append_assoc, String.append_empty]
  cases shape with
  | component =>
    have hsource : Template.component.source = String.join (Template.componentParts.map Template.Part.source) := rfl
    obtain ⟨hprelude, hsymbol, hstate, hmarkup, -⟩ := filled_slots plan [] 4 true
    refine (fill_parts hsource (by decide) (bound_componentParts ..)).trans (congrArg Except.ok ?_)
    unfold opening markup closing
    simp only [Template.componentParts, List.map_cons, List.map_nil, filled_text, hprelude, hsymbol, hstate, hmarkup,
      String.join_cons, String.join_nil, String.append_assoc, String.append_empty]
    rfl
  | page => exact hpage []
  | application => exact hpage ["import './globals.css'"]

end Generator

/-! ### Runs -/

namespace Compiler

variable {catalog : Catalog} {rule : ReferenceRule} {versions : PackageVersions} {c : Composition} {shape : Shape}
  {timing : Timing} {a : Artifact}

end Compiler

end CapsuleCompiler
