import FeatureAtlas.Json.Scanner

/-!
# Passing over JSON values

Members that no field asks for are passed over. Their syntax is checked, but
they may nest to any depth and hold numbers of any size; the containers that
are open at the moment are kept on a stack.
-/

namespace FeatureAtlas.Json

/-- An open container. -/
inductive Container
  | array
  | object
deriving DecidableEq, Repr

namespace Container

def closing : Container → UInt8
  | .array => closeBracket
  | .object => closeBrace

def endProblem : Container → Problem
  | .array => .endInArray
  | .object => .endInObject

/-- The problem of an item that is followed by neither a comma nor the end. -/
def separatorProblem : Container → Problem
  | .array => .expectedArrayEnd
  | .object => .expectedObjectEnd

end Container

/-- Pass over a value that is no container, given its first byte. -/
def passScalar (byte : UInt8) (rest : Bytes) : Except Problem Bytes :=
  if byte = 0x6E then takeLetters nullLetters rest
  else if byte = 0x74 then takeLetters trueLetters rest
  else if byte = 0x66 then takeLetters falseLetters rest
  else if byte = minusByte then passNumber rest
  else if isDigitByte byte then passNumber (byte :: rest)
  else if byte = quoteByte then passText rest
  else .error .expectedValue

/-- Pass over a key and its colon. -/
def passKey (input : Bytes) : Except Problem Bytes :=
  match skipSpace input with
  | [] => .error .endInObject
  | byte :: rest =>
    if byte = quoteByte then do
      let rest ← passText rest
      match skipSpace rest with
      | [] => .error .endInObject
      | byte :: rest => if byte = colonByte then .ok rest else .error .expectedColon
    else .error .keyNotText

/-- Pass over the key that comes before an item of an object. -/
def passItemStart (container : Container) (input : Bytes) : Except Problem Bytes :=
  match container with
  | .array => .ok input
  | .object => passKey input

mutual

/-- Pass over a value inside the open containers, and over all that closes them. -/
def passValueWithin : Nat → List Container → Bytes → Except Problem Bytes
  | 0, _, _ => .error .expectedValue
  | fuel + 1, containers, input =>
    match skipSpace input with
    | [] => .error .endInValue
    | byte :: rest =>
      if byte = openBracket then passItemsWithin fuel false .array containers rest
      else if byte = openBrace then passItemsWithin fuel false .object containers rest
      else do
        let rest ← passScalar byte rest
        match containers with
        | [] => .ok rest
        | container :: containers => passItemsWithin fuel true container containers rest

/--
Pass over the remaining items of the innermost container; `separated` items
are behind a comma.
-/
def passItemsWithin :
    Nat → Bool → Container → List Container → Bytes → Except Problem Bytes
  | 0, _, _, _, _ => .error .expectedValue
  | fuel + 1, separated, container, containers, input =>
    match skipSpace input with
    | [] => .error container.endProblem
    | byte :: rest =>
      if separated && byte == commaByte then do
        let rest ← passItemStart container rest
        passValueWithin fuel (container :: containers) rest
      else if byte = container.closing then
        match containers with
        | [] => .ok rest
        | outer :: containers => passItemsWithin fuel true outer containers rest
      else if separated then .error container.separatorProblem
      else do
        let rest ← passItemStart container (byte :: rest)
        passValueWithin fuel (container :: containers) rest

end

def passValue (input : Bytes) : Except Problem Bytes :=
  passValueWithin (2 * input.length + 2) [] input

end FeatureAtlas.Json
