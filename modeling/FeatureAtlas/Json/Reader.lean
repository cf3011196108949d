import FeatureAtlas.Json.Passing

/-!
# Reading JSON

Readers for texts, lists, objects and whole values. Arrays and objects that
are read may nest only so deep: `room` counts the containers that may still be
opened.
-/

namespace FeatureAtlas.Json

/-- The number of containers that may be open at once. -/
def greatestDepth : Nat := 127

/-- The problem of a value that begins with a byte where something else is expected. -/
def wrongTypeAt (expected : String) (byte : UInt8) (rest : Bytes) : Problem :=
  let literal (letters : Bytes) (found : Found) : Problem :=
    match takeLetters letters rest with
    | .ok _ => .wrongType found expected
    | .error problem => problem
  let number (result : Except Problem (Number × Bytes)) : Problem :=
    match result with
    | .ok (number, _) => .wrongType (.number number) expected
    | .error problem => problem
  if byte = 0x6E then literal nullLetters .null
  else if byte = 0x74 then literal trueLetters (.boolean true)
  else if byte = 0x66 then literal falseLetters (.boolean false)
  else if byte = minusByte then number (scanNumber true rest)
  else if isDigitByte byte then number (scanNumber false (byte :: rest))
  else if byte = quoteByte then
    match scanText rest with
    | .ok (text, _) => .wrongType (.text text) expected
    | .error problem => problem
  else if byte = openBracket then .wrongType .array expected
  else if byte = openBrace then .wrongType .object expected
  else .expectedValue

/-- Read a text where `expected` is what a text is called there. -/
def readTextAs (expected : String) : Reader String := fun input =>
  match skipSpace input with
  | [] => .error .endInValue
  | byte :: rest =>
    if byte = quoteByte then scanText rest
    else .error (wrongTypeAt expected byte rest)

def readText : Reader String :=
  readTextAs "a string"

/-- Read an unsigned integer of 32 bits. -/
def readWord : Reader Nat := fun input =>
  let accept (result : Except Problem (Number × Bytes)) : Except Problem (Nat × Bytes) := do
    match ← result with
    | (.integer value, rest) =>
      if 0 ≤ value ∧ value < Nat.pow 2 32 then .ok (value.toNat, rest)
      else .error (.wrongInteger value "u32")
    | (.float value, _) => .error (.wrongType (.number (.float value)) "u32")
  match skipSpace input with
  | [] => .error .endInValue
  | byte :: rest =>
    if byte = minusByte then accept (scanNumber true rest)
    else if isDigitByte byte then accept (scanNumber false (byte :: rest))
    else .error (wrongTypeAt "u32" byte rest)

/-! ## Containers -/

/--
Go to the next item of an array: the input at that item, or nothing and the
input after the closing bracket.
-/
def nextItem (first : Bool) (input : Bytes) : Except Problem (Bool × Bytes) :=
  match skipSpace input with
  | [] => .error .endInArray
  | byte :: rest =>
    if byte = closeBracket then .ok (false, rest)
    else if first then .ok (true, byte :: rest)
    else if byte = commaByte then
      match skipSpace rest with
      | [] => .error .endInValue
      | next :: after =>
        if next = closeBracket then .error .trailingComma else .ok (true, next :: after)
    else .error .expectedArrayEnd

/-- Read the items of an array and its closing bracket. -/
def readItems {α : Type} (item : Reader α) : Nat → Bool → Reader (List α)
  | 0, _, _ => .error .endInArray
  | fuel + 1, first, input => do
    let (more, rest) ← nextItem first input
    if more then
      let (value, rest) ← item rest
      let (values, rest) ← readItems item fuel false rest
      .ok (value :: values, rest)
    else
      .ok ([], rest)

/-- Read the items of an array after its opening bracket. -/
def readAllItems {α : Type} (item : Reader α) : Reader (List α) := fun input =>
  readItems item (input.length + 1) true input

/-- Read a list; the reader of its items is there if there is room for the list itself. -/
def readList {α : Type} (item? : Option (Reader α)) : Reader (List α) := fun input =>
  match skipSpace input with
  | [] => .error .endInValue
  | byte :: rest =>
    if byte = openBracket then
      match item? with
      | none => .error .tooDeep
      | some item => readAllItems item rest
    else .error (wrongTypeAt "a sequence" byte rest)

/-- Go to the next key of an object and read it, or go behind the closing brace. -/
def nextKey (first : Bool) (input : Bytes) : Except Problem (Option String × Bytes) :=
  let key (rest : Bytes) : Except Problem (Option String × Bytes) := do
    let (text, rest) ← scanText rest
    .ok (some text, rest)
  match skipSpace input with
  | [] => .error .endInObject
  | byte :: rest =>
    if byte = closeBrace then .ok (none, rest)
    else if first then
      if byte = quoteByte then key rest else .error .keyNotText
    else if byte = commaByte then
      match skipSpace rest with
      | [] => .error .endInValue
      | next :: after =>
        if next = quoteByte then key after
        else if next = closeBrace then .error .trailingComma
        else .error .keyNotText
    else .error .expectedObjectEnd

def takeColon (input : Bytes) : Except Problem Bytes :=
  match skipSpace input with
  | [] => .error .endInObject
  | byte :: rest => if byte = colonByte then .ok rest else .error .expectedColon

/--
Read the members of an object and its closing brace. For each key `member`
either refuses it at once or gives the reader that takes its value into the
state.
-/
def readMembers {σ : Type} (member : σ → String → Except Problem (Reader σ)) :
    Nat → Bool → σ → Reader σ
  | 0, _, _, _ => .error .endInObject
  | fuel + 1, first, state, input => do
    match ← nextKey first input with
    | (none, rest) => .ok (state, rest)
    | (some key, rest) =>
      let value ← member state key
      let rest ← takeColon rest
      let (state, rest) ← value rest
      readMembers member fuel false state rest

def readAllMembers {σ : Type} (member : σ → String → Except Problem (Reader σ))
    (start : σ) : Reader σ := fun input =>
  readMembers member (input.length + 1) true start input

/-- Read a value into the state by a function. -/
def Reader.into {σ α : Type} (reader : Reader α) (store : α → σ) : Reader σ := fun input =>
  match reader input with
  | .ok (value, rest) => .ok (store value, rest)
  | .error problem => .error problem

/-- Pass over a value and keep the state. -/
def passing {σ : Type} (state : σ) : Reader σ := fun input =>
  match passValue input with
  | .ok rest => .ok (state, rest)
  | .error problem => .error problem

/-! ## Values and documents -/

/-- Read a value that is kept as it is. -/
def readValue (room : Nat) : Reader Value := fun input =>
  match skipSpace input with
  | [] => .error .endInValue
  | byte :: rest =>
    if byte = openBracket then
      match room with
      | 0 => .error .tooDeep
      | inner + 1 => do
        let (items, rest) ← readAllItems (readValue inner) rest
        .ok (.array items, rest)
    else if byte = openBrace then
      match room with
      | 0 => .error .tooDeep
      | inner + 1 => do
        let (members, rest) ← readAllMembers
          (fun members key => .ok ((readValue inner).into fun value => (key, value) :: members))
          [] rest
        .ok (.object members.reverse, rest)
    else if byte = 0x6E then do
      .ok (.null, ← takeLetters nullLetters rest)
    else if byte = 0x74 then do
      .ok (.boolean true, ← takeLetters trueLetters rest)
    else if byte = 0x66 then do
      .ok (.boolean false, ← takeLetters falseLetters rest)
    else if byte = minusByte then do
      let (number, rest) ← scanNumber true rest
      .ok (.number number, rest)
    else if isDigitByte byte then do
      let (number, rest) ← scanNumber false (byte :: rest)
      .ok (.number number, rest)
    else if byte = quoteByte then do
      let (text, rest) ← scanText rest
      .ok (.text text, rest)
    else .error .expectedValue

/-- Read a document that holds one value and nothing but white space after it. -/
def readDocument {α : Type} (reader : Reader α) (input : Bytes) : Except Problem α := do
  let (value, rest) ← reader input
  match skipSpace rest with
  | [] => .ok value
  | _ => .error .trailingCharacters

end FeatureAtlas.Json
