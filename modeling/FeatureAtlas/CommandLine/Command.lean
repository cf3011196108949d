import FeatureAtlas.CommandLine.Grammar
import FeatureAtlas.Feature
import FeatureAtlas.Settings

/-!
# Commands

What the program can be asked for, and the arguments that ask for it.
-/

namespace FeatureAtlas.CommandLine

/-- Filters on product and version that a command may be given. -/
structure Filter where
  product? : Option String
  version? : Option String
deriving DecidableEq, Repr

/-- Whether a filter is given; a version never comes without a product. -/
def Filter.isSet (filter : Filter) : Bool :=
  filter.product?.isSome

def Filter.extent (filter : Filter) : Extent :=
  .ofFilters filter.product? filter.version?

/-- A feature addressed by its product, title and version. -/
structure Target where
  product : String
  title : String
  version : String
deriving DecidableEq, Repr

def Target.scope (target : Target) : Scope :=
  ⟨target.product, target.version⟩

def Target.label (target : Target) : String :=
  target.title ++ " [" ++ target.product ++ "@" ++ target.version ++ "]"

/-- What the program can be asked for. -/
inductive Command
  | init (quiet : Bool)
  | info
  | roots (filter : Filter)
  | graph (target : Target)
  /-- List what a feature depends on, or in reverse what depends on it. -/
  | deps (target : Target) (reverse : Bool)
  | cycles (filter : Filter)
  | ingest (path : String)
deriving DecidableEq, Repr

/-- A command, if there is one, and whether its output is JSON. -/
structure Request where
  json : Bool
  command : Option Command
deriving DecidableEq, Repr

/-! ## Grammars -/

/-- The options that every command takes. -/
def commonChoices : List Choice :=
  [⟨"json", none, .flag⟩, ⟨"help", some 'h', .help⟩]

/-- A grammar of options beside the common ones, places, and needs. -/
def Grammar.ofCommand (choices : List Choice) (places : List Place)
    (needs : List (String × String)) : Grammar :=
  ⟨choices ++ commonChoices, places, [], needs⟩

/-- The grammar of commands on an extent. -/
def filterGrammar : Grammar :=
  .ofCommand [⟨"product", some 'p', .value⟩, ⟨"version", some 'v', .value⟩] []
    [("version", "product")]

def targetPlaces : List Place :=
  [⟨"product", true⟩, ⟨"feature", true⟩, ⟨"version", true⟩]

def filterOf (scan : Scan) : Filter :=
  ⟨scan.value? "product", scan.value? "version"⟩

def targetOf (scan : Scan) : Target :=
  ⟨scan.value "product", scan.value "feature", scan.value "version"⟩

/-- The name of a command, what it takes, and the command that this makes. -/
structure Form where
  name : String
  grammar : Grammar
  command : Scan → Command

def forms : List Form :=
  [⟨"init", .ofCommand [⟨"quiet", some 'q', .flag⟩] [] [], fun scan => .init (scan.has "quiet")⟩,
    ⟨"info", .ofCommand [] [] [], fun _ => .info⟩,
    ⟨"roots", filterGrammar, fun scan => .roots (filterOf scan)⟩,
    ⟨"graph", .ofCommand [] targetPlaces [], fun scan => .graph (targetOf scan)⟩,
    ⟨"deps", .ofCommand [⟨"reverse", some 'r', .flag⟩] targetPlaces [],
      fun scan => .deps (targetOf scan) (scan.has "reverse")⟩,
    ⟨"cycles", filterGrammar, fun scan => .cycles (filterOf scan)⟩,
    ⟨"ingest", .ofCommand [] [⟨"report", false⟩] [], fun scan => .ingest (scan.value "report")⟩]

def helpName : String := "help"

def commandNames : List String :=
  forms.map (·.name) ++ [helpName]

/-- The grammar of what stands in front of a command. -/
def topGrammar : Grammar where
  choices := ⟨"version", some 'V', .version⟩ :: commonChoices
  places := []
  commands := commandNames
  needs := []

/-- What comes of asking for help about commands: only one can be named. -/
def helpAbout : List String → UsageError
  | [] => .helpRequested
  | [name] => if commandNames.contains name then .helpRequested else .unknownCommand
  | _ => .unknownCommand

/-- The command of a name with arguments, and whether its output is JSON. -/
def commandOf (name : String) (arguments : List String) : Except UsageError (Command × Bool) :=
  match forms.find? fun form => form.name = name with
  | none => .error (helpAbout arguments)
  | some form => do
    let scan ← Scan.run form.grammar arguments
    .ok (form.command scan, scan.has "json")

/-- What arguments ask for. -/
def Request.ofArguments (arguments : List String) : Except UsageError Request := do
  let (scan, rest) ← Scan.runToCommand topGrammar (.start topGrammar) arguments
  match rest with
  | none =>
    let scan ← scan.finish topGrammar
    .ok ⟨scan.has "json", none⟩
  | some (name, arguments) =>
    let (command, json) ← commandOf name arguments
    .ok ⟨scan.has "json" || json, some command⟩

end FeatureAtlas.CommandLine
