import CapsuleCompiler.Shape

/-!
# CommandLine.Usage — commands and their options

Each command has its options, all of them with a long name and some with a letter. An option is a switch or takes
one value, and may be given once.
-/

namespace CapsuleCompiler.CommandLine

inductive CommandName
  | compile
  | check
  | fingerprint
deriving DecidableEq, Inhabited

namespace CommandName

def word : CommandName → String
  | compile => "compile"
  | check => "check"
  | fingerprint => "fingerprint"

def all : List CommandName := [compile, check, fingerprint]

def ofWord? (word : String) : Option CommandName := all.find? (·.word == word)

end CommandName

/-- The word that asks for help on the word behind it. -/
def helpWord : String := "help"

inductive Flag
  | config
  | registry
  | shape
  | out
  | inline
  | timeoutMs
  | help
  | version
deriving DecidableEq, Inhabited

namespace Flag

def long : Flag → String
  | config => "config"
  | registry => "registry"
  | shape => "shape"
  | out => "out"
  | inline => "inline"
  | timeoutMs => "timeout-ms"
  | help => "help"
  | version => "version"

def letter? : Flag → Option Char
  | registry => some 'r'
  | shape => some 's'
  | out => some 'o'
  | help => some 'h'
  | version => some 'V'
  | _ => none

def takesValue : Flag → Bool
  | inline => false
  | help => false
  | version => false
  | _ => true

/-- The options before any command. -/
def general : List Flag := [config, help, version]

/-- The options of a command. -/
def ofCommand : CommandName → List Flag
  | .compile => [registry, shape, out, inline, timeoutMs, config, help]
  | .check => [registry, config, help]
  | .fingerprint => [shape, config, help]

end Flag

/-- Why the words of a command line are not carried out. -/
inductive UsageFault
  | helpAsked
  | versionAsked
  /-- There are no words at all. -/
  | nothingGiven
  | noCommand
  | unknownCommand (word : String)
  | unknownArgument (word : String)
  | missingArgument (name : String)
  | badValue (flag : Flag) (value : String)
  | missingValue (flag : Flag)
  /-- A switch has a value. -/
  | surplusValue (flag : Flag)
  | repeated (flag : Flag)
deriving DecidableEq, Inhabited

namespace UsageFault

def message : UsageFault → String
  | helpAsked => ""
  | versionAsked => ""
  | nothingGiven => "no arguments"
  | noCommand => "a command is required"
  | unknownCommand word => "unknown command \"" ++ word ++ "\""
  | unknownArgument word => "unexpected argument \"" ++ word ++ "\""
  | missingArgument name => "missing argument " ++ name
  | badValue flag value => "invalid value \"" ++ value ++ "\" for --" ++ flag.long
  | missingValue flag => "a value is required for --" ++ flag.long
  | surplusValue flag => "--" ++ flag.long ++ " takes no value"
  | repeated flag => "--" ++ flag.long ++ " may be given once"

end UsageFault

/-- The name of the program in its own texts. -/
def programName : String := "capsula"

def versionText : String := programName ++ " 0.1.0"

/-- What the program can be asked for. -/
def helpText : String :=
  "\n".intercalate [
    "Compiles capsule compositions into runnable code.",
    "",
    "Usage: " ++ programName ++ " [--config FILE] COMMAND",
    "",
    "Commands:",
    "  compile COMPOSITION -r CATALOG [-s SHAPE] [-o FOLDER] [--inline] [--timeout-ms N]",
    "  check COMPOSITION -r CATALOG",
    "  fingerprint COMPOSITION [-s SHAPE]",
    "  help [COMMAND]"]

end CapsuleCompiler.CommandLine
