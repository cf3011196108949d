import FeatureAtlas.Table

/-!
# Scanning arguments

A grammar says which options a command takes and which places for further
arguments it has. Arguments are taken one at a time. An argument that is the
value of an option or fills a place is checked only when the next option, flag
or place comes, or at the end.
-/

namespace FeatureAtlas.CommandLine

/-- Why arguments do not make a command; asking for help counts as such. -/
inductive UsageError
  | unknownArgument
  | missingArgument
  /-- An option has no value, or a value is empty that must not be. -/
  | invalidValue
  | conflict
  | surplusValue
  | unknownCommand
  | helpRequested
  | versionRequested
deriving DecidableEq, Repr

/-- What an option is for. -/
inductive Purpose
  | flag
  | value
  | help
  | version
deriving DecidableEq, Repr

/-- An option with its name, which is also what follows two hyphens, and its letter. -/
structure Choice where
  name : String
  letter : Option Char
  purpose : Purpose
deriving DecidableEq, Repr

/-- A place for an argument that is no option. -/
structure Place where
  name : String
  mayBeEmpty : Bool
deriving DecidableEq, Repr

structure Grammar where
  choices : List Choice
  places : List Place
  commands : List String
  /-- Options, each with another one that has to be given with it. -/
  needs : List (String × String)
deriving DecidableEq, Repr

/-- An option or a place that waits: for its value, or with its value for being checked. -/
structure Pending where
  place : Place
  value : Option String
deriving DecidableEq, Repr

/-- What has been taken of the arguments. -/
structure Scan where
  flags : List String
  values : Table String String
  pending : Option Pending
  /-- The places that are not filled. -/
  unfilled : List Place
  isTrailing : Bool
deriving DecidableEq, Repr

namespace Scan

def start (grammar : Grammar) : Scan :=
  ⟨[], .empty, none, grammar.places, false⟩

def awaitsValue (scan : Scan) : Bool :=
  scan.pending.any fun pending => pending.value.isNone

/-- Store a value, unless there is one already. -/
def store (scan : Scan) (name value : String) : Except UsageError Scan :=
  if scan.values.contains name then .error .conflict
  else .ok { scan with values := scan.values.insert name value }

def settle (scan : Scan) : Except UsageError Scan :=
  match scan.pending with
  | none => .ok scan
  | some ⟨_, none⟩ => .error .invalidValue
  | some ⟨place, some value⟩ =>
    if value.isEmpty && !place.mayBeEmpty then .error .invalidValue
    else { scan with pending := none }.store place.name value

/-- Take an option that has no value of its own. -/
def signal (scan : Scan) (choice : Choice) : Except UsageError Scan := do
  let scan ← scan.settle
  match choice.purpose with
  | .help => .error .helpRequested
  | .version => .error .versionRequested
  | .flag | .value =>
    if scan.flags.contains choice.name then .error .conflict
    else .ok { scan with flags := scan.flags ++ [choice.name] }

/-- Take an option with a value; without one at hand the next argument is its value. -/
def assign (scan : Scan) (choice : Choice) (value : Option String) : Except UsageError Scan := do
  let scan ← scan.settle
  match value with
  | some value => scan.store choice.name value
  | none => .ok { scan with pending := some ⟨⟨choice.name, true⟩, none⟩ }

/-- Split a text at its first equals sign. -/
def splitEquals : List Char → List Char × Option (List Char)
  | [] => ([], none)
  | '=' :: rest => ([], some rest)
  | character :: rest =>
    let (name, value) := splitEquals rest
    (character :: name, value)

/-- Take an option by name, from behind the two hyphens. -/
def takeName (grammar : Grammar) (scan : Scan) (text : List Char) : Except UsageError Scan :=
  let (name, value) := splitEquals text
  match grammar.choices.find? fun choice => choice.name = String.ofList name with
  | none => .error .unknownArgument
  | some choice =>
    if choice.purpose = .value then scan.assign choice (value.map String.ofList)
    else if value.isSome then .error .surplusValue
    else scan.signal choice

/--
What follows the letter of an option as its value; an equals sign in front
does not belong to it.
-/
def attached? : List Char → Option String
  | [] => none
  | '=' :: rest => some (String.ofList rest)
  | rest => some (String.ofList rest)

/-- Take options by letter, from behind the hyphen. -/
def takeLetters (grammar : Grammar) (scan : Scan) : List Char → Except UsageError Scan
  | [] => .ok scan
  | letter :: rest =>
    match grammar.choices.find? fun choice => choice.letter = some letter with
    | none => .error .unknownArgument
    | some choice =>
      if choice.purpose = .value then scan.assign choice (attached? rest)
      else do takeLetters grammar (← scan.signal choice) rest

/-- Take an argument into the next place. -/
def fillPlace (grammar : Grammar) (scan : Scan) (argument : String) : Except UsageError Scan :=
  match scan.unfilled with
  | place :: places => do
    let scan ← scan.settle
    .ok { scan with pending := some ⟨place, some argument⟩, unfilled := places }
  | [] =>
    if grammar.commands.isEmpty || (scan.isTrailing && grammar.commands.contains argument) then
      .error .unknownArgument
    else .error .unknownCommand

/-- Take an argument that is not an option. -/
def takePlain (grammar : Grammar) (scan : Scan) (argument : String) : Except UsageError Scan :=
  match scan.pending with
  | some ⟨place, none⟩ => .ok { scan with pending := some ⟨place, some argument⟩ }
  | _ => scan.fillPlace grammar argument

def step (grammar : Grammar) (scan : Scan) (argument : String) : Except UsageError Scan :=
  if scan.isTrailing then scan.fillPlace grammar argument
  else
    match argument.toList with
    | ['-', '-'] => .ok { scan with isTrailing := true }
    | '-' :: '-' :: text => scan.takeName grammar text
    | '-' :: letter :: letters => scan.takeLetters grammar (letter :: letters)
    | _ => scan.takePlain grammar argument

/-- Check what is missing at the end. -/
def finish (grammar : Grammar) (scan : Scan) : Except UsageError Scan := do
  let scan ← scan.settle
  let unmet := grammar.needs.any fun (name, needed) =>
    scan.values.contains name && !scan.values.contains needed
  if scan.unfilled.isEmpty && !unmet then .ok scan else .error .missingArgument

def run (grammar : Grammar) (arguments : List String) : Except UsageError Scan := do
  (← arguments.foldlM (step grammar) (start grammar)).finish grammar

/-- Take arguments up to the name of a command; that name and the arguments behind it. -/
def runToCommand (grammar : Grammar) (scan : Scan) :
    List String → Except UsageError (Scan × Option (String × List String))
  | [] => .ok (scan, none)
  | argument :: rest =>
    if !scan.isTrailing && !scan.awaitsValue && grammar.commands.contains argument then
      .ok (scan, some (argument, rest))
    else do runToCommand grammar (← scan.step grammar argument) rest

def value? (scan : Scan) (name : String) : Option String :=
  scan.values.get? name

/-- The value that was given under a name that cannot be left out. -/
def value (scan : Scan) (name : String) : String :=
  (scan.value? name).getD ""

def has (scan : Scan) (name : String) : Bool :=
  scan.flags.contains name

end Scan

end FeatureAtlas.CommandLine
