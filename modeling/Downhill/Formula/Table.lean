import Downhill.Formula.Basic
import Std.Data.HashMap

/-!
# Variables in a table

The variables of a formula as they are kept for evaluating it again and again: the names in an array,
each at its coordinate, and beside it a hash table that finds the coordinate of a name. Both are
filled in one pass over the tokens. What a formula reports of its variables comes from the array,
and where it is evaluated at a point every value goes through the table.
-/

namespace Downhill

/-- Distinct names in the order of their first appearance, and where each of them stands. -/
structure VariableTable where
  /-- The names. -/
  names : Array String := #[]
  /-- The coordinate of each name. -/
  positions : Std.HashMap String Nat := ∅

namespace VariableTable

/-- The table with one more name, unless it is there. -/
def add (table : VariableTable) (name : String) : VariableTable :=
  if table.positions.contains name then table
  else
    { names := table.names.push name
      positions := table.positions.insert name table.names.size }

/-- The table after one more token. -/
def read (table : VariableTable) : Token → VariableTable
  | .var name => table.add name
  | _ => table

/-- The variables that occur in a token list. -/
def ofTokens (tokens : List Token) : VariableTable := tokens.foldl read {}

/-- The number of variables. -/
def size (table : VariableTable) : Nat := table.names.size

/-- There is no variable. -/
def isEmpty (table : VariableTable) : Bool := table.names.isEmpty

/-- The coordinate of a variable. -/
def position? (table : VariableTable) (name : String) : Option Nat := table.positions[name]?

/-- The variable of a coordinate. -/
def nameAt (table : VariableTable) (i : Nat) : Except Misuse String :=
  match table.names[i]? with
  | some name => .ok name
  | none => .error (.outOfBounds table.size i)

end VariableTable

/-- The coordinates of a point, found through a table. Variables beyond the last coordinate have no
value. -/
def Bindings.ofTable (table : VariableTable) (point : List Float) : Bindings :=
  fun name => (table.position? name).bind (point[·]?)

namespace Formula

/-- A text ready to be evaluated, its variables in a table. -/
structure Tabled where
  /-- The tokens in reverse Polish order. -/
  program : List Token
  /-- The variables, in the order of their first appearance in the text. -/
  unknowns : VariableTable

namespace Tabled

/-- The formula of a token list. -/
def ofTokens (tokens : List Token) : Except Defect Tabled := do
  let program ← Polish.ofTokens tokens
  checkTurns tokens
  return ⟨program, .ofTokens tokens⟩

/-- The formula of a text. -/
def ofText (text : String) : Except Defect Tabled := do
  let tokens ← scan text
  ofTokens tokens

/-- The number of variables. -/
def dim (f : Tabled) : Nat := f.unknowns.size

/-- The formula as it is shown: its tokens in reverse Polish order, with single spaces between. -/
def text (f : Tabled) : String :=
  " ".intercalate (f.program.map Token.text)

/-- The value of the formula where its variables have the values given. -/
def value (f : Tabled) (bindings : Bindings) : Except Stuck Float :=
  Polish.value bindings f.program

end Tabled

end Formula

end Downhill
