import FeatureAtlas.Yaml.Node
import FeatureAtlas.Yaml.Scalar

/-!
# Reading documents

A document holds one node. Nodes nest by columns: a mapping takes the entries
that begin at its column, a sequence the items. Inside brackets and braces the
columns do not count. A key and its colon stand on one line, and what begins
behind a colon on the same line cannot hold a key of its own.

This is a part of YAML only: directives, tags, anchors, aliases, block scalars
and keys behind a question mark are refused.
-/

namespace FeatureAtlas.Yaml

/-- What is left to read. -/
structure Cursor where
  /-- Whether a block key or a block item may begin here. -/
  isFresh : Bool
  rest : List Mark
deriving DecidableEq, Repr

namespace Cursor

/-- Behind a character: the rest of the input, in which nothing may begin in block style. -/
def behind (rest : List Mark) : Cursor :=
  ⟨false, rest⟩

def atEnd (cursor : Cursor) : Bool :=
  cursor.rest.isEmpty || isDocumentMark cursor.rest

def column? (cursor : Cursor) : Option Nat :=
  if cursor.atEnd then none else cursor.rest.head?.map (·.column)

def startsWith (cursor : Cursor) (character : Char) : Bool :=
  cursor.rest.head?.any fun mark => mark.character == character

end Cursor

/-- The input behind a comment and white space; `inComment` says that a comment has begun. -/
def gapFrom (inFlow isFresh inComment : Bool) : List Mark → Cursor
  | [] => ⟨isFresh, []⟩
  | mark :: rest =>
    let character := mark.character
    if isBreak character then gapFrom inFlow (isFresh || !inFlow) false rest
    else if inComment || character == ' ' then gapFrom inFlow isFresh inComment rest
    else if character == '\t' && (inFlow || !isFresh) then gapFrom inFlow isFresh false rest
    else if character == '#' then gapFrom inFlow isFresh true rest
    else ⟨isFresh, mark :: rest⟩

/-- Skip comments and white space; tabs do not count as such where block style may begin. -/
def skipGap (inFlow : Bool) (cursor : Cursor) : Cursor :=
  gapFrom inFlow cursor.isFresh false cursor.rest

/-- The number of characters that a key may take. -/
def longestKey : Nat := 1024

/-- The cursor behind the colon of a key that began at `start`, if one is next and fits it. -/
def afterColon? (inFlow : Bool) (start : Mark) (cursor : Cursor) : Option Cursor :=
  match cursor.rest with
  | [] => none
  | mark :: rest =>
    if mark.character == ':' && (inFlow || endsWord rest) && mark.line == start.line &&
        mark.column ≤ start.column + longestKey then
      some (.behind rest)
    else none

/-- Read a scalar. -/
def readScalar (inFlow : Bool) (least : Nat) (input : List Mark) : Option (Node × Cursor) :=
  match input with
  | [] => none
  | mark :: rest =>
    if mark.character == '\x27' then do
      let (text, rest) ← singleFrom .none rest
      some (.scalar (String.ofList text) false, .behind rest)
    else if mark.character == '"' then do
      let (text, rest) ← doubleFrom .none 0 rest
      some (.scalar (String.ofList text) false, .behind rest)
    else if beginsPlain inFlow input then do
      let (text, space, rest) ← plainFrom inFlow least .none input
      some (.scalar (String.ofList text) true, ⟨space.isBroken, rest⟩)
    else none

/-! ## Flow style -/

/-- The next item of a list in flow style begins here, behind a comma unless it is the first. -/
def itemStart? (isFirst : Bool) (cursor : Cursor) : Option Cursor :=
  if isFirst then some cursor
  else
    match cursor.rest with
    | mark :: rest => if mark.character == ',' then some (skipGap true (.behind rest)) else none
    | [] => none

mutual

/-- Read a node in flow style: a list, a mapping or a scalar. -/
def readFlow (fuel least : Nat) (inFlow : Bool) (cursor : Cursor) : Option (Node × Cursor) :=
  match fuel with
  | 0 => none
  | fuel + 1 =>
    match cursor.rest with
    | [] => none
    | mark :: rest =>
      if mark.character == '[' then do
        let (items, cursor) ← readFlowItems fuel least true (skipGap true (.behind rest))
        some (.sequence items, cursor)
      else if mark.character == '\x7b' then do
        let (entries, cursor) ← readFlowEntries fuel least true (skipGap true (.behind rest))
        some (.mapping entries, cursor)
      else readScalar inFlow least cursor.rest

/-- Read the value behind a colon in flow style, which may be absent. -/
def readFlowValue (fuel least : Nat) (cursor : Cursor) : Option (Node × Cursor) :=
  match fuel with
  | 0 => none
  | fuel + 1 =>
    let cursor := skipGap true cursor
    if cursor.startsWith ',' || cursor.startsWith ']' || cursor.startsWith '\x7d' then
      some (.absent, cursor)
    else if cursor.atEnd then none
    else readFlow fuel least true cursor

/-- Read the items of a list up to its bracket; a key with a value is a mapping of one entry. -/
def readFlowItems (fuel least : Nat) (isFirst : Bool) (cursor : Cursor) :
    Option (List Node × Cursor) :=
  match fuel with
  | 0 => none
  | fuel + 1 =>
    if cursor.startsWith ']' then some ([], .behind cursor.rest.tail)
    else do
      let cursor ← itemStart? isFirst cursor
      if cursor.startsWith ']' then some ([], .behind cursor.rest.tail)
      else if cursor.atEnd then none
      else do
        let start ← cursor.rest.head?
        let (key, cursor) ← readFlow fuel least true cursor
        let cursor := skipGap true cursor
        let (item, cursor) ←
          match afterColon? true start cursor with
          | none => some (key, cursor)
          | some cursor => do
            let (value, cursor) ← readFlowValue fuel least cursor
            some (.mapping [(key, value)], skipGap true cursor)
        let (items, cursor) ← readFlowItems fuel least false cursor
        some (item :: items, cursor)

/-- Read the entries of a mapping up to its brace. -/
def readFlowEntries (fuel least : Nat) (isFirst : Bool) (cursor : Cursor) :
    Option (List (Node × Node) × Cursor) :=
  match fuel with
  | 0 => none
  | fuel + 1 =>
    if cursor.startsWith '\x7d' then some ([], .behind cursor.rest.tail)
    else do
      let cursor ← itemStart? isFirst cursor
      if cursor.startsWith '\x7d' then some ([], .behind cursor.rest.tail)
      else if cursor.atEnd then none
      else do
        let start ← cursor.rest.head?
        let (key, cursor) ← readFlow fuel least true cursor
        let cursor := skipGap true cursor
        let (value, cursor) ←
          match afterColon? true start cursor with
          | none => some (.absent, cursor)
          | some cursor => do
            let (value, cursor) ← readFlowValue fuel least cursor
            some (value, skipGap true cursor)
        let (entries, cursor) ← readFlowEntries fuel least false cursor
        some ((key, value) :: entries, cursor)

end

/-! ## Block style -/

mutual

/-- Read a node whose lines begin at a least column. -/
def readBlock (fuel least : Nat) (cursor : Cursor) : Option (Node × Cursor) :=
  match fuel with
  | 0 => none
  | fuel + 1 => do
    let start ← cursor.rest.head?
    if isLoneCharacter '-' cursor.rest then
      if !cursor.isFresh then none
      else do
        let (items, cursor) ← readItems fuel start.column cursor
        if cursor.column?.all fun column => column < start.column then
          some (.sequence items, cursor)
        else none
    else do
      let (node, after) ← readFlow fuel least false cursor
      match afterColon? false start (skipGap false after) with
      | some colon =>
        if !cursor.isFresh then none
        else do
          let (value, cursor) ← readValue fuel start.column colon
          let (entries, cursor) ← readEntries fuel start.column cursor
          some (.mapping ((node, value) :: entries), cursor)
      | none => some (node, after)

/-- Read the value behind the colon of a key at a column; it may be absent. -/
def readValue (fuel column : Nat) (cursor : Cursor) : Option (Node × Cursor) :=
  match fuel with
  | 0 => none
  | fuel + 1 =>
    let cursor := skipGap false cursor
    match cursor.column? with
    | none => some (.absent, cursor)
    | some next =>
      if column < next then readBlock fuel (column + 1) cursor
      else if next == column && isLoneCharacter '-' cursor.rest then do
        let (items, cursor) ← readItems fuel column cursor
        some (.sequence items, cursor)
      else some (.absent, cursor)

/-- Read the further entries of a mapping at a column. -/
def readEntries (fuel column : Nat) (cursor : Cursor) : Option (List (Node × Node) × Cursor) :=
  match fuel with
  | 0 => none
  | fuel + 1 =>
    let cursor := skipGap false cursor
    match cursor.column? with
    | none => some ([], cursor)
    | some next =>
      if next < column then some ([], cursor)
      else if column < next || !cursor.isFresh then none
      else do
        let start ← cursor.rest.head?
        let (key, after) ← readFlow fuel (column + 1) false cursor
        let colon ← afterColon? false start (skipGap false after)
        let (value, cursor) ← readValue fuel column colon
        let (entries, cursor) ← readEntries fuel column cursor
        some ((key, value) :: entries, cursor)

/-- Read the items of a sequence at a column, up to what is no item of it. -/
def readItems (fuel column : Nat) (cursor : Cursor) : Option (List Node × Cursor) :=
  match fuel with
  | 0 => none
  | fuel + 1 =>
    let cursor := skipGap false cursor
    if cursor.column? != some column || !cursor.isFresh || !isLoneCharacter '-' cursor.rest then
      some ([], cursor)
    else do
      let first := skipGap false ⟨true, cursor.rest.tail⟩
      let (item, cursor) ←
        if first.column?.any fun next => column < next then readBlock fuel (column + 1) first
        else some (.absent, first)
      let (items, cursor) ← readItems fuel column cursor
      some (item :: items, cursor)

end

/-! ## Documents -/

/-- Whether the input holds nothing but marks of a document's end, comments and white space. -/
def endsDocument (fuel : Nat) (cursor : Cursor) : Bool :=
  match fuel with
  | 0 => false
  | fuel + 1 =>
    let cursor := skipGap false cursor
    cursor.rest.isEmpty ||
      (isTriple '.' cursor.rest && endsDocument fuel (.behind (cursor.rest.drop 3)))

/-- The node of a text that holds one document. -/
def document? (text : String) : Option Node := do
  let input ← marks? text
  let fuel := 4 * input.length + 4
  let start := skipGap false ⟨true, input⟩
  let cursor :=
    if isTriple '-' start.rest then skipGap false (.behind (start.rest.drop 3)) else start
  let (node, cursor) ←
    if cursor.atEnd then
      if isTriple '-' start.rest then some (.absent, cursor) else none
    else readBlock fuel 0 cursor
  if endsDocument fuel cursor then some node else none

end FeatureAtlas.Yaml
