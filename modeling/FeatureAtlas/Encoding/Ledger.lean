import FeatureAtlas.Json.Record
import FeatureAtlas.Ledger

/-!
# Ledger records in JSON

A record is an object of its four fields; the list of callees may be missing.
-/

namespace FeatureAtlas

open Json

/-- The parts of a record that have been read so far. -/
structure RecordParts where
  product : Option String := none
  version : Option String := none
  signature : Option String := none
  invoked : Option (List String) := none

def RecordParts.shape : RecordShape RecordParts where
  typeName := "InvocationRecord"
  fields :=
    [.text "product" (·.product) fun parts text => { parts with product := some text },
      .text "version" (·.version) fun parts text => { parts with version := some text },
      .text "signature" (·.signature) fun parts text => { parts with signature := some text },
      .optionalList "invoked_signatures" ["invoked_signatures", "invokedSignatures"]
        (some readText) (·.invoked) fun parts list => { parts with invoked := some list }]

namespace InvocationRecord

def toValue (record : InvocationRecord) : Value :=
  .object
    [("product", .text record.product), ("version", .text record.version),
      ("signature", .text record.signature),
      ("invoked_signatures", .texts record.invoked)]

def reader : Reader InvocationRecord :=
  (RecordParts.shape.read {}).into fun parts =>
    ⟨parts.product.getD "", parts.version.getD "", parts.signature.getD "",
      parts.invoked.getD []⟩

end InvocationRecord

end FeatureAtlas
