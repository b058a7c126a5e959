/-
# Parts of a plan

The parts that search plans and aggregation plans share: sort keys, result windows, and the radius
around a position with its unit of length.

They are `SortBy`, `Limit` and `GeoFilter`, and `GeoUnit.ofName?` is `parse` of a unit.
-/
import IndexQuery.Json.Basic

namespace IndexQuery

/-- A text with its ASCII letters in lower case. -/
def lowerText (s : String) : String :=
  String.ofList (s.toList.map Char.toLower)

/-- The direction of a sort. -/
inductive Direction where
  | asc | desc
  deriving DecidableEq

/-- The direction as the engine writes it. -/
def Direction.name : Direction → String
  | asc => "ASC"
  | desc => "DESC"

/-- A sort key. -/
structure SortKey where
  field : String
  direction : Direction
  deriving DecidableEq

/-- A window of the result: how many rows to leave out, and how many to return. -/
structure Window where
  offset : UInt64
  count : UInt64
  deriving DecidableEq

/-- A unit of length. -/
inductive GeoUnit where
  | meters | kilometers | miles | feet
  deriving DecidableEq

namespace GeoUnit

/-- The unit as the engine writes it. -/
def name : GeoUnit → String
  | meters => "m"
  | kilometers => "km"
  | miles => "mi"
  | feet => "ft"

/-- The unit of a short or a long name, in any case of ASCII letters. -/
def ofName? (s : String) : Option GeoUnit :=
  match lowerText s with
  | "m" | "meter" | "meters" => some meters
  | "km" | "kilometer" | "kilometers" => some kilometers
  | "mi" | "mile" | "miles" => some miles
  | "ft" | "foot" | "feet" => some feet
  | _ => none

end GeoUnit

/-- All positions within a radius of one position. -/
structure GeoRadius where
  field : String
  longitude : Binary64
  latitude : Binary64
  radius : Binary64
  unit : GeoUnit
  deriving DecidableEq

end IndexQuery
