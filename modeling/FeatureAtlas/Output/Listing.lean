import FeatureAtlas.Encoding.Identity
import FeatureAtlas.Graph.Cycles
import FeatureAtlas.Output.Style

/-!
# Listings

Features, cycles and conflicts as lines of text or as JSON.
-/

namespace FeatureAtlas.Output

open Json (Value)

/-- The lines of features under a heading about a subject. -/
def featureLines (appearance : Appearance) (subject heading : String)
    (features : List Feature) : List String :=
  let first :=
    Style.info.paint appearance subject ++ " " ++ Style.bold.paint appearance heading ++ ":"
  let rest :=
    if features.isEmpty then ["  " ++ Style.dimmed.paint appearance "(none)"]
    else features.map fun feature => "  " ++ featureText appearance feature.id
  first :: rest

/-- Features as a value: their identities. -/
def featuresValue (features : List Feature) : Value :=
  .array (features.map (·.id.toValue))

def cycleLine (appearance : Appearance) (entry : Cycle × Nat) : String :=
  let separator := if appearance.ascii then " <-> " else " ⇄ "
  "  " ++ toString (entry.2 + 1) ++ ". " ++
    separator.intercalate (entry.1.members.map (featureText appearance))

def cycleLines (appearance : Appearance) (cycles : List Cycle) : List String :=
  if cycles.isEmpty then
    [Style.success.paint appearance "No dependency cycles found."]
  else
    Style.failure.paint appearance
        ("Found " ++ toString cycles.length ++ " dependency cycle(s):") ::
      cycles.zipIdx.map (cycleLine appearance)

def cyclesValue (cycles : List Cycle) : Value :=
  .array <| cycles.map fun cycle =>
    .object [("members", .array (cycle.members.map (·.toValue)))]

def conflictLine (appearance : Appearance) (conflict : Conflict) : String :=
  "  " ++ Style.warning.paint appearance conflict.signature ++ " " ++
    Style.dimmed.paint appearance "owned by" ++ " " ++
    featureText appearance conflict.owner ++ ", " ++
    Style.dimmed.paint appearance "also declared by" ++ " " ++
    featureText appearance conflict.ignored

def conflictLines (appearance : Appearance) (conflicts : List Conflict) : List String :=
  conflicts.map (conflictLine appearance)

def conflictsValue (conflicts : List Conflict) : Value :=
  .array <| conflicts.map fun conflict =>
    .object
      [("signature", .text conflict.signature), ("owner", conflict.owner.toValue),
        ("ignored", conflict.ignored.toValue)]

end FeatureAtlas.Output
