/-!
# Nodes

A document is a node. A scalar remembers whether it was written without quotes,
because only then can it stand for something else than text.
-/

namespace FeatureAtlas.Yaml

/-- A node of a document. -/
inductive Node
  | scalar (text : String) (isPlain : Bool)
  | sequence (items : List Node)
  | mapping (entries : List (Node × Node))
deriving Repr, Inhabited

/-- The node that stands where nothing is written. -/
def Node.absent : Node :=
  .scalar "" true

/-- The text of a scalar, whatever it stands for. -/
def Node.scalar? : Node → Option String
  | .scalar text _ => some text
  | _ => none

end FeatureAtlas.Yaml
