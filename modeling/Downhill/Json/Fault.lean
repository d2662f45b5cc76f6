/-!
# Faults of a JSON text

Why a JSON text cannot be read as the value that is asked for. The first fault from left to right is
the one that counts.
-/

namespace Downhill.Json

/-- What is wrong with a text. -/
inductive Fault
  /-- The text ends too early. -/
  | truncated
  /-- The text is not JSON, or goes on after its value. -/
  | malformed
  /-- The value is not of the kind that is asked for. -/
  | mismatch (message : String)
  deriving DecidableEq, Repr

/-- An object lacks a field. -/
def Fault.missingField (name : String) : Fault :=
  .mismatch ("missing field `" ++ name ++ "`")

/-- An object has a field twice. -/
def Fault.duplicateField (name : String) : Fault :=
  .mismatch ("duplicate field `" ++ name ++ "`")

/-- A value is of another kind than the one expected. -/
def Fault.invalidType (found expected : String) : Fault :=
  .mismatch ("invalid type: " ++ found ++ ", expected " ++ expected)

/-- A number is out of the range of the kind expected. -/
def Fault.invalidInteger (found : Int) (expected : String) : Fault :=
  .mismatch ("invalid value: integer `" ++ toString found ++ "`, expected " ++ expected)

/-- An array is too short for the fields it should hold. -/
def Fault.invalidLength (found : Nat) (expected : String) (fields : Nat) : Fault :=
  .mismatch (s!"invalid length {found}, expected " ++ expected ++ s!" with {fields} elements")

end Downhill.Json
