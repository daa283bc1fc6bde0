import CapsuleCompiler.Markup.Attribute

/-!
# Markup.Element — the elements of a generated component
-/

namespace CapsuleCompiler.Markup

structure ElementProp where
  name : String
  value : Attribute
deriving Inhabited

def ElementProp.text (p : ElementProp) : String := p.name ++ "=" ++ p.value.text

/-- An element without children. -/
structure Element where
  tag : String
  props : List ElementProp
deriving Inhabited

namespace Element

def text (e : Element) : String :=
  if e.props.isEmpty then "<" ++ e.tag ++ " />"
  else "<" ++ e.tag ++ " " ++ " ".intercalate (e.props.map ElementProp.text) ++ " />"

def indented (columns : Nat) (line : String) : String :=
  .ofList (List.replicate columns ' ') ++ line

/-- Elements one below the other, with a notice in place of none; a fragment encloses them where only one element
may stand. -/
def block (elements : List Element) (columns : Nat) (inFragment : Bool) : String :=
  if elements.isEmpty then
    indented columns "<div className=\"capsula-empty\">Your composition is empty</div>"
  else if inFragment then
    indented columns "<>" ++ "\n" ++
      "\n".intercalate (elements.map fun e => indented (columns + 2) e.text) ++ "\n" ++
      indented columns "</>"
  else "\n".intercalate (elements.map fun e => indented columns e.text)

end Element

end CapsuleCompiler.Markup
