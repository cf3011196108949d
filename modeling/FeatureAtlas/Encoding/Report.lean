import FeatureAtlas.Json.Record
import FeatureAtlas.Report

/-!
# Reports in JSON

A report holds its invocations as nested objects. Each level of the tree takes
two containers, the list and the object in it, so the tree of a report that is
read cannot be deeper than the room for containers allows.
-/

namespace FeatureAtlas

open Json

/-- The parts of an invocation that have been read so far. -/
structure InvocationParts where
  signature : Option String := none
  invocations : Option (List Invocation) := none

/-- The fields of an invocation, given how the invocations within it are read. -/
def InvocationParts.shape (inner? : Option (Reader Invocation)) :
    RecordShape InvocationParts where
  typeName := "Invocation"
  fields :=
    [.text "signature" (·.signature) fun parts text => { parts with signature := some text },
      .optionalList "invocations" ["invocations"] inner? (·.invocations)
        fun parts list => { parts with invocations := some list }]

def InvocationParts.invocation (parts : InvocationParts) : Invocation :=
  .node (parts.signature.getD "") (parts.invocations.getD [])

namespace Invocation

mutual

/-- The object that stands for an invocation tree. -/
def toValue : Invocation → Value
  | .node signature invocations =>
    .object [("signature", .text signature), ("invocations", .array (toValues invocations))]

def toValues : List Invocation → List Value
  | [] => []
  | invocation :: rest => invocation.toValue :: toValues rest

end

/-- Read an invocation tree within the room for containers. -/
def readerWithin : Nat → Reader Invocation
  | 0 => ((InvocationParts.shape none).readWithin 0 {}).into (·.invocation)
  | 1 => ((InvocationParts.shape none).readWithin 1 {}).into (·.invocation)
  | room + 2 =>
    ((InvocationParts.shape (some (readerWithin room))).readWithin (room + 2) {}).into
      (·.invocation)

end Invocation

structure ReportParts where
  product : Option String := none
  version : Option String := none
  roots : Option (List Invocation) := none

def ReportParts.shape : RecordShape ReportParts where
  typeName := "AnalysisReport"
  fields :=
    [.text "product" (·.product) fun parts text => { parts with product := some text },
      .text "version" (·.version) fun parts text => { parts with version := some text },
      .optionalList "rootInvocations" ["rootInvocations"]
        (some (Invocation.readerWithin (greatestDepth - 2))) (·.roots)
        fun parts list => { parts with roots := some list }]

namespace Report

def toValue (report : Report) : Value :=
  .object
    [("product", .text report.product), ("version", .text report.version),
      ("rootInvocations", .array (Invocation.toValues report.roots))]

def reader : Reader Report :=
  (ReportParts.shape.read {}).into fun parts =>
    ⟨parts.product.getD "", parts.version.getD "", parts.roots.getD []⟩

end Report

end FeatureAtlas
