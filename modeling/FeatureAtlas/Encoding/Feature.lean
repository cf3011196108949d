import FeatureAtlas.Encoding.Identity

/-!
# Features in JSON

A feature is an object that holds the members of its identity and the list of
its signatures side by side. All members but the list are set aside until the
object ends; only then are the parts of the identity looked for among them.
-/

namespace FeatureAtlas

open Json

/--
What has been read of a feature: its signatures, and all other members with
the last one first.
-/
structure FeatureParts where
  signatures : Option (List String) := none
  others : List (String × Value) := []

namespace Feature

/-- The keys of the signature list; the first one is written. -/
def signatureKeys : List String :=
  ["direct_invocation_signatures", "directInvocationSignatures"]

def toValue (feature : Feature) : Value :=
  .object <| feature.id.members ++
    [("direct_invocation_signatures", .texts feature.signatures)]

/-- How the value under a key is taken. -/
def member (parts : FeatureParts) (key : String) : Except Problem (Reader FeatureParts) :=
  if key ∈ signatureKeys then
    if parts.signatures.isSome then .error (.duplicateField "direct_invocation_signatures")
    else .ok <| (readList (some readText)).into fun signatures =>
      { parts with signatures := some signatures }
  else
    .ok <| (readValue (greatestDepth - 1)).into fun value =>
      { parts with others := (key, value) :: parts.others }

/-- The identity among members that were set aside. -/
def idAmong (others : List (String × Value)) : Except Problem FeatureId := do
  let texts ← namedTexts ["product", "group", "title", "version"] others .empty
  let product ← requiredText texts "product"
  let title ← requiredText texts "title"
  let version ← requiredText texts "version"
  .ok ⟨product, (texts.get? "group").getD "", title, version⟩

def reader : Reader Feature := fun input =>
  match skipSpace input with
  | [] => .error .endInValue
  | byte :: rest =>
    if byte = openBrace then do
      let (parts, rest) ← readAllMembers member {} rest
      let id ← idAmong parts.others.reverse
      .ok (⟨id, parts.signatures.getD []⟩, rest)
    else .error (wrongTypeAt "struct Feature" byte rest)

end Feature

end FeatureAtlas
