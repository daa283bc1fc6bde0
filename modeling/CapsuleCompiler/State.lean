import CapsuleCompiler.Error
import CapsuleCompiler.Naming

/-!
# State — variables through which outputs reach inputs

Every output that feeds an input has one state variable, named for its instance and port. Where the name is
taken a number from 2 on goes behind it; among as many numbers as there are names one is free.
-/

namespace CapsuleCompiler

structure StateVariable where
  source : PortRef
  value : String
  setter : String
deriving DecidableEq, Inhabited

namespace StateVariable

/-- `const` declaration of the variable, with its setter. -/
def text (v : StateVariable) : String :=
  "  const [" ++ v.value ++ ", " ++ v.setter ++ "] = useState(null)\n"

def find? (state : List StateVariable) (source : PortRef) : Option StateVariable :=
  state.find? (·.source == source)

/-- The name for an output: with a word in front where it would begin with a digit. -/
def baseName (source : PortRef) : String :=
  let base := Naming.camel (source.owner.text ++ "-" ++ source.port)
  if Naming.isIdentifier base then base
  else Naming.camel ("node-" ++ source.owner.text ++ "-" ++ source.port)

def numbered (taken : List String) (base : String) : Nat → Nat → String
  | 0, n => base ++ toString n
  | tries + 1, n =>
    let name := base ++ toString n
    if taken.contains name then numbered taken base tries (n + 1) else name

/-- A name that is not taken. -/
def freshName (taken : List String) (base : String) : String :=
  if taken.contains base then numbered taken base taken.length 2 else base

/-- The variables with one for an output among them. -/
def ensure (state : List StateVariable) (source : PortRef) :
    Except GenerationFault (List StateVariable) :=
  if (find? state source).isSome then .ok state
  else
    let base := baseName source
    if Naming.isIdentifier base then
      let value := freshName (state.map (·.value)) base
      .ok (state ++ [⟨source, value, "set" ++ Naming.pascal value⟩])
    else .error (.noStateName source)

def ensureAll (state : List StateVariable) :
    List PortRef → Except GenerationFault (List StateVariable)
  | [] => .ok state
  | source :: sources => do ensureAll (← ensure state source) sources

end StateVariable

end CapsuleCompiler
