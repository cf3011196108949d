import FeatureAtlas.Yaml.Mark

/-!
# Reading scalars

A scalar is plain or stands between quotes. White space inside it that holds no
break is kept. Otherwise the blanks around the breaks vanish, a single break is
a space, and of several breaks all but the first remain.
-/

namespace FeatureAtlas.Yaml

/-! ## White space inside a scalar -/

/-- White space that was read since the last other character of a scalar. -/
inductive Space
  /-- Blanks without a break. -/
  | blanks (characters : List Char)
  /-- A break and the breaks after it. -/
  | breaks (first : Char) (more : List Char)
  /-- A break that a backslash hides, and the breaks after it. -/
  | hidden (more : List Char)
deriving DecidableEq, Repr

namespace Space

def none : Space :=
  .blanks []

def isBroken : Space → Bool
  | .blanks _ => false
  | _ => true

/-- The white space with a blank after it. -/
def addBlank (space : Space) (character : Char) : Space :=
  match space with
  | .blanks characters => .blanks (characters ++ [character])
  | _ => space

/-- The white space with a break after it. -/
def addBreak (space : Space) (character : Char) : Space :=
  match space with
  | .blanks _ => .breaks character []
  | .breaks first more => .breaks first (more ++ [character])
  | .hidden more => .hidden (more ++ [character])

/-- What the white space stands for. -/
def text : Space → List Char
  | .blanks characters => characters
  | .breaks first more =>
    if first != '\n' then first :: more else if more.isEmpty then [' '] else more
  | .hidden more => more

end Space

/-! ## Plain scalars -/

/-- The characters with a meaning of their own inside brackets and braces. -/
def flowIndicators : List Char :=
  [',', '[', ']', '\x7b', '\x7d']

/-- The characters that no plain scalar begins with. -/
def indicators : List Char :=
  flowIndicators ++ ['#', '&', '*', '!', '|', '>', '\x27', '"', '%', '@', '\x60']

/-- The characters that a plain scalar begins with only if another one follows. -/
def guardedIndicators : List Char :=
  ['-', '?', ':']

/-- Whether a plain scalar begins here; `inFlow` says that it is inside brackets or braces. -/
def beginsPlain (inFlow : Bool) : List Mark → Bool
  | [] => false
  | mark :: rest =>
    let character := mark.character
    if isBlank character || isBreak character || indicators.contains character then false
    else if guardedIndicators.contains character then
      (character == '-' || !inFlow) && !endsWord rest
    else true

/-- Whether a plain scalar ends before this character. -/
def endsPlain (inFlow : Bool) (mark : Mark) (rest : List Mark) : Bool :=
  (mark.character == ':' && endsWord rest) ||
    (inFlow && flowIndicators.contains mark.character)

/-- Whether a colon stands here right before an indicator, which is refused in flow. -/
def isStrayColon (mark : Mark) (rest : List Mark) : Bool :=
  mark.character == ':' &&
    match rest with
    | [] => false
    | next :: _ => next.character == '?' || flowIndicators.contains next.character

/-- Whether white space ends a plain scalar whose lines begin at a least column. -/
def endsAfterSpace (inFlow : Bool) (least : Nat) (space : Space) (input : List Mark) : Bool :=
  match input with
  | [] => true
  | mark :: _ =>
    (space.isBroken && !inFlow && mark.column < least) || isDocumentMark input ||
      (space != .none && mark.character == '#')

/-- Read on in a plain scalar: the text, the white space at its end, and the rest. -/
def plainFrom (inFlow : Bool) (least : Nat) (space : Space) :
    List Mark → Option (List Char × Space × List Mark)
  | [] => some ([], space, [])
  | mark :: rest =>
    let character := mark.character
    if isBreak character then plainFrom inFlow least (space.addBreak character) rest
    else if isBlank character then
      if space.isBroken && character == '\t' && mark.column < least then none
      else plainFrom inFlow least (space.addBlank character) rest
    else if endsAfterSpace inFlow least space (mark :: rest) then
      some ([], space, mark :: rest)
    else if inFlow && isStrayColon mark rest then none
    else if endsPlain inFlow mark rest then some ([], space, mark :: rest)
    else do
      let (text, last, after) ← plainFrom inFlow least .none rest
      some (space.text ++ character :: text, last, after)

/-! ## Quoted scalars -/

/-- Read a scalar between single quotes from behind the first: a quote inside it is doubled. -/
def singleFrom (space : Space) : List Mark → Option (List Char × List Mark)
  | [] => none
  | mark :: rest =>
    let character := mark.character
    if isBreak character then singleFrom (space.addBreak character) rest
    else if isBlank character then singleFrom (space.addBlank character) rest
    else if isDocumentMark (mark :: rest) then none
    else if character == '\x27' then
      match rest with
      | next :: after =>
        if next.character == '\x27' then do
          let (text, after) ← singleFrom .none after
          some (space.text ++ '\x27' :: text, after)
        else some (space.text, rest)
      | [] => some (space.text, rest)
    else do
      let (text, after) ← singleFrom .none rest
      some (space.text ++ character :: text, after)

/-- The character that a letter behind a backslash stands for. -/
def escaped? : Char → Option Char
  | '0' => some '\x00'
  | 'a' => some '\x07'
  | 'b' => some '\x08'
  | 't' => some '\t'
  | '\t' => some '\t'
  | 'n' => some '\n'
  | 'v' => some '\x0b'
  | 'f' => some '\x0c'
  | 'r' => some '\r'
  | 'e' => some '\x1b'
  | ' ' => some ' '
  | '"' => some '"'
  | '/' => some '/'
  | '\\' => some '\\'
  | 'N' => some '\u0085'
  | '_' => some '\u00a0'
  | 'L' => some '\u2028'
  | 'P' => some '\u2029'
  | _ => none

/-- The number of digits of an escape by number. -/
def escapeWidth? : Char → Option Nat
  | 'x' => some 2
  | 'u' => some 4
  | 'U' => some 8
  | _ => none

def hexDigit? (character : Char) : Option Nat :=
  let code := character.toNat
  if 0x30 ≤ code && code ≤ 0x39 then some (code - 0x30)
  else if 0x41 ≤ code && code ≤ 0x46 then some (code - 0x37)
  else if 0x61 ≤ code && code ≤ 0x66 then some (code - 0x57)
  else none

/-- The value of hexadecimal digits after those that gave `value`. -/
def hexValue? (value : Nat) : List Mark → Option Nat
  | [] => some value
  | mark :: rest => do
    let digit ← hexDigit? mark.character
    hexValue? (value * 16 + digit) rest

/-- The character of a number. -/
def charOfCode? (code : Nat) : Option Char :=
  if code.isValidChar then some (Char.ofNat code) else none

/-- The character of an escape by number. -/
def numbered? (width : Nat) (input : List Mark) : Option Char :=
  if (input.take width).length = width then
    (hexValue? 0 (input.take width)).bind charOfCode?
  else none

/--
Read a scalar between double quotes from behind the first. `skip` characters are left out because
they belong to an escape that has been read.
-/
def doubleFrom (space : Space) (skip : Nat) : List Mark → Option (List Char × List Mark)
  | [] => none
  | mark :: rest =>
    let character := mark.character
    match skip with
    | skip + 1 => doubleFrom space skip rest
    | 0 =>
      if isBreak character then doubleFrom (space.addBreak character) 0 rest
      else if isBlank character then doubleFrom (space.addBlank character) 0 rest
      else if isDocumentMark (mark :: rest) then none
      else if character == '"' then some (space.text, rest)
      else if character == '\\' then
        match rest with
        | [] => none
        | next :: after =>
          if isBreak next.character then do
            let (text, after) ← doubleFrom (.hidden []) 0 after
            some (space.text ++ text, after)
          else do
            let (value, width) ←
              match escapeWidth? next.character with
              | some width => (numbered? width after).map fun value => (value, width)
              | none => (escaped? next.character).map fun value => (value, 0)
            let (text, after) ← doubleFrom .none width after
            some (space.text ++ value :: text, after)
      else do
        let (text, after) ← doubleFrom .none 0 rest
        some (space.text ++ character :: text, after)

end FeatureAtlas.Yaml
