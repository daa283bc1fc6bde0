import CapsuleCompiler.Error

/-!
# Fingerprint — the name under which a result is kept

A fingerprint is the hexadecimal text of a SHA-256 digest, in either case of letters as it was given.
-/

namespace CapsuleCompiler

structure Fingerprint where
  hex : String
deriving DecidableEq, Inhabited

namespace Fingerprint

def digestLength : Nat := 64

def isHexDigit (c : Char) : Bool :=
  c.isDigit || ('a' ≤ c && c ≤ 'f') || ('A' ≤ c && c ≤ 'F')

/-- A digest has 64 hexadecimal digits. -/
def ofHex (hex : String) : Except CompileError Fingerprint :=
  if hex.utf8ByteSize = digestLength ∧ hex.toList.all isHexDigit then .ok ⟨hex⟩
  else .error (.config (.badDigest hex))

def text (f : Fingerprint) : String := "sha256:" ++ f.hex

end Fingerprint

end CapsuleCompiler
