import Downhill.Json.Reader
import Downhill.Service.Query

/-!
# Queries and minima in JSON

The written form of queries and minima. It is read leniently in the ways of `Json.Record` and
written in one way only: no spaces, and the fields in their order. The number of iterations of a
query has a second, shorter name for those who write it by hand.
-/

namespace Downhill

open Json (Record required)

/-- The pieces of an object, each a field and its written value. -/
def objectText (fields : List (String × List Char)) : List Char :=
  '\x7b' :: (List.intersperse [','] (fields.map fun (name, value) =>
    Json.quote name ++ ':' :: value)).flatten ++ ['\x7d']

/-! ### Queries -/

/-- A query that is being read. -/
structure QueryDraft where
  /-- The text of the formula. -/
  function : Option String := none
  /-- The tolerance. -/
  tolerance : Option Float := none
  /-- The number of iterations. -/
  maxIterations : Option Int64 := none

/-- How queries are read. -/
def Query.record : Record QueryDraft Query where
  name := "struct OptimizationQuery"
  empty := {}
  slots := [
    { name := "function"
      aliases := []
      isFilled := (·.function.isSome)
      fill := fun d l => do
        let p ← Json.readString l
        return ⟨{ d with function := some p.value }, p.rest, p.shorter⟩ },
    { name := "tolerance"
      aliases := []
      isFilled := (·.tolerance.isSome)
      fill := fun d l => do
        let p ← Json.readDouble l
        return ⟨{ d with tolerance := some p.value }, p.rest, p.shorter⟩ },
    { name := "max_iterations"
      aliases := ["max_iter"]
      isFilled := (·.maxIterations.isSome)
      fill := fun d l => do
        let p ← Json.readInt64 l
        return ⟨{ d with maxIterations := some p.value }, p.rest, p.shorter⟩ }]
  finish d := do
    let function ← required "function" d.function
    let tolerance ← required "tolerance" d.tolerance
    let maxIterations ← required "max_iterations" d.maxIterations
    return ⟨function, tolerance, maxIterations⟩

/-- The query that a JSON text stands for. -/
def Query.ofJson (text : String) : Except Json.Fault Query :=
  Json.readText Query.record.read text

/-- A query as JSON. -/
def Query.toJson (q : Query) : String :=
  String.ofList (objectText [
    ("function", Json.quote q.function),
    ("tolerance", (Json.doubleText q.tolerance).toList),
    ("max_iterations", (toString q.maxIterations.toInt).toList)])

/-! ### Minima -/

/-- A coordinate that is being read. -/
structure CoordinateDraft where
  /-- The name of the variable. -/
  name : Option String := none
  /-- Its value. -/
  value : Option Float := none

/-- How coordinates are read. -/
def Coordinate.record : Record CoordinateDraft Coordinate where
  name := "struct Variable"
  empty := {}
  slots := [
    { name := "name"
      aliases := []
      isFilled := (·.name.isSome)
      fill := fun d l => do
        let p ← Json.readString l
        return ⟨{ d with name := some p.value }, p.rest, p.shorter⟩ },
    { name := "value"
      aliases := []
      isFilled := (·.value.isSome)
      fill := fun d l => do
        let p ← Json.readDouble l
        return ⟨{ d with value := some p.value }, p.rest, p.shorter⟩ }]
  finish d := do
    let name ← required "name" d.name
    let value ← required "value" d.value
    return ⟨name, value⟩

/-- A minimum that is being read. -/
structure MinimumDraft where
  /-- Where it lies. -/
  coordinates : Option (List Coordinate) := none
  /-- The value there. -/
  value : Option Float := none

/-- How minima are read. -/
def Minimum.record : Record MinimumDraft Minimum where
  name := "struct OptimizationResult"
  empty := {}
  slots := [
    { name := "variables"
      aliases := []
      isFilled := (·.coordinates.isSome)
      fill := fun d l => do
        let p ← Json.readList Coordinate.record.read l
        return ⟨{ d with coordinates := some p.value }, p.rest, p.shorter⟩ },
    { name := "function_value"
      aliases := []
      isFilled := (·.value.isSome)
      fill := fun d l => do
        let p ← Json.readDouble l
        return ⟨{ d with value := some p.value }, p.rest, p.shorter⟩ }]
  finish d := do
    let coordinates ← required "variables" d.coordinates
    let value ← required "function_value" d.value
    return ⟨coordinates, value⟩

/-- The minimum that a JSON text stands for. -/
def Minimum.ofJson (text : String) : Except Json.Fault Minimum :=
  Json.readText Minimum.record.read text

/-- A coordinate as JSON. -/
def Coordinate.jsonText (c : Coordinate) : List Char :=
  objectText [
    ("name", Json.quote c.name),
    ("value", (Json.doubleText c.value).toList)]

/-- A minimum as JSON. -/
def Minimum.toJson (m : Minimum) : String :=
  let coordinates := (List.intersperse [','] (m.coordinates.map Coordinate.jsonText)).flatten
  String.ofList (objectText [
    ("variables", '[' :: coordinates ++ [']']),
    ("function_value", (Json.doubleText m.value).toList)])

end Downhill
