import FeatureAtlas.Decimal.Shortest

/-!
# JSON values

Values as documents hold them: integers of any size stay integers, all other
numbers are binary floating-point numbers, and the members of an object keep
their order.
-/

namespace FeatureAtlas.Json

/-- A number of a document. -/
inductive Number
  | integer (value : Int)
  | float (value : Binary64)
deriving DecidableEq, Repr

/-- A JSON value. -/
inductive Value
  | null
  | boolean (value : Bool)
  | number (value : Number)
  | text (value : String)
  | array (items : List Value)
  | object (members : List (String × Value))
deriving Repr

namespace Value

def texts (values : List String) : Value :=
  .array (values.map .text)

def count (value : Nat) : Value :=
  .number (.integer value)

/-- Put a member in front of the first one whose key it precedes. -/
def insertMember (member : String × Value) :
    List (String × Value) → List (String × Value)
  | [] => [member]
  | head :: rest =>
    if member.1 < head.1 then member :: head :: rest
    else head :: insertMember member rest

mutual

/-- The value with the members of every object sorted by key. -/
def sorted : Value → Value
  | .array items => .array (sortedItems items)
  | .object members => .object (sortedMembers members)
  | .null => .null
  | .boolean value => .boolean value
  | .number value => .number value
  | .text value => .text value

/-- Sort the members within each item. -/
def sortedItems : List Value → List Value
  | [] => []
  | item :: rest => item.sorted :: sortedItems rest

/-- Sort members by key, and the members within each of them. -/
def sortedMembers : List (String × Value) → List (String × Value)
  | [] => []
  | (key, value) :: rest => insertMember (key, value.sorted) (sortedMembers rest)

end

end Value

end FeatureAtlas.Json
