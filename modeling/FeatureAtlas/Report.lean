import FeatureAtlas.Ledger

/-!
# Analysis reports

A report is the forest of invocations that an instrumented run of one product
version made. Flattening it gives one ledger record for each signature that
invokes another one.
-/

namespace FeatureAtlas

/-- One node of the invocation forest: a code unit and the invocations made from it. -/
inductive Invocation
  | node (signature : String) (invocations : List Invocation)

namespace Invocation

def signature : Invocation → String
  | .node signature _ => signature

def invocations : Invocation → List Invocation
  | .node _ invocations => invocations

mutual

def size : Invocation → Nat
  | .node _ invocations => 1 + sizeAll invocations

def sizeAll : List Invocation → Nat
  | [] => 0
  | invocation :: rest => invocation.size + sizeAll rest

end

end Invocation

/-- The invocations recorded for one product version. -/
structure Report where
  product : String
  version : String
  roots : List Invocation

namespace Report

/--
Add the direct callees of one visited node to the calls collected so far; a
signature that calls itself is passed over.
-/
def collect (calls : Table String (List String)) (invocation : Invocation) :
    Table String (List String) :=
  let caller := invocation.signature
  let callees := (invocation.invocations.map (·.signature)).filter (· ≠ caller)
  calls.alter caller fun present => Distinct.addAll (present.getD []) callees

/-- Visit the nodes on a stack and, in place of each, the invocations made from it. -/
def visit : Nat → List Invocation → Table String (List String) →
    Table String (List String)
  | 0, _, calls => calls
  | _ + 1, [], calls => calls
  | fuel + 1, invocation :: stack, calls =>
    visit fuel (invocation.invocations ++ stack) (collect calls invocation)

/-- The calls of a report by caller, in the order in which callers are first met. -/
def calls (report : Report) : Table String (List String) :=
  visit (Invocation.sizeAll report.roots) report.roots .empty

/-- The ledger records of a report: one for each signature with a callee. -/
def flatten (report : Report) : List InvocationRecord :=
  (report.calls.entries.filter fun entry => !entry.2.isEmpty).map fun entry =>
    ⟨report.product, report.version, entry.1, entry.2⟩

end Report

end FeatureAtlas
