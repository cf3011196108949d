import FeatureAtlas.Feature
import FeatureAtlas.Json.Record

/-!
# Identities and scopes in JSON

The parts of an identity or a scope are members of an object in the order of
declaration. An identity without a group may leave it out.
-/

namespace FeatureAtlas

open Json

/-- The parts of an identity that have been read so far. -/
structure IdParts where
  product : Option String := none
  group : Option String := none
  title : Option String := none
  version : Option String := none

def IdParts.shape : RecordShape IdParts where
  typeName := "FeatureId"
  fields :=
    [.text "product" (·.product) fun parts text => { parts with product := some text },
      .optionalText "group" (·.group) fun parts text => { parts with group := some text },
      .text "title" (·.title) fun parts text => { parts with title := some text },
      .text "version" (·.version) fun parts text => { parts with version := some text }]

def IdParts.id (parts : IdParts) : FeatureId where
  product := parts.product.getD ""
  group := parts.group.getD ""
  title := parts.title.getD ""
  version := parts.version.getD ""

namespace FeatureId

/-- The members of the object that stands for an identity. -/
def members (id : FeatureId) : List (String × Value) :=
  [("product", .text id.product), ("group", .text id.group),
    ("title", .text id.title), ("version", .text id.version)]

def toValue (id : FeatureId) : Value :=
  .object id.members

def reader : Reader FeatureId :=
  (IdParts.shape.read {}).into (·.id)

end FeatureId

structure ScopeParts where
  product : Option String := none
  version : Option String := none

def ScopeParts.shape : RecordShape ScopeParts where
  typeName := "Scope"
  fields :=
    [.text "product" (·.product) fun parts text => { parts with product := some text },
      .text "version" (·.version) fun parts text => { parts with version := some text }]

namespace Scope

def toValue (scope : Scope) : Value :=
  .object [("product", .text scope.product), ("version", .text scope.version)]

def reader : Reader Scope :=
  (ScopeParts.shape.read {}).into fun parts =>
    ⟨parts.product.getD "", parts.version.getD ""⟩

end Scope

end FeatureAtlas
