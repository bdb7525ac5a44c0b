import CallEffects.Constants.Propagation
import CallEffects.Error

/-!
# Snapshots

A snapshot is the result of one analysis of one function: its reachable calls with their resolved
targets, its reachable lifted returns, and the facts at its block entries. It remembers the revision
it was taken at, and serves that revision of that function only.
-/

namespace CallEffects

open Std

structure CallSite where
  statement : StatementId
  address : Option Address
  /-- The direct target, or the constant that the target location holds. -/
  target : Option Address
  /-- A call hook follows the call. -/
  instrumented : Bool
deriving DecidableEq, Repr

structure Snapshot where
  function : FunctionId
  revision : Nat
  calls : List CallSite
  returns : List StatementId
  facts : ExtTreeMap BlockId Constants
deriving DecidableEq

abbrev Snapshots := ExtTreeMap FunctionId Snapshot

def CallTarget.resolve (known : Constants) : CallTarget → Option Address
  | .direct address => some address
  | .indirect location => known[location]?

def callSite? (s : Statement) (next : Option Statement) (known : Constants) :
    Option CallSite :=
  match s.kind with
  | .call target => some ⟨s.id, s.address, target.resolve known, isHookedCall next⟩
  | _ => none

def liftedReturn? (s : Statement) : Option StatementId :=
  if s.isReturn && !s.isSynthetic then some s.id else none

/-- Every statement of a reachable block, in block order, with the one after it and the facts known
before it. -/
def Function.reachableStates (f : Function) (facts : ExtTreeMap BlockId Constants) :
    List (Statement × Option Statement × Constants) :=
  f.blocks.zipIdx.flatMap fun (block, b) =>
    match facts[b]? with
    | none => []
    | some entry => statesBefore block.statements entry

namespace Snapshot

def take (f : Function) : Snapshot :=
  let facts := f.blockFacts
  let states := f.reachableStates facts
  { function := f.id
    revision := f.revision
    calls := states.filterMap fun (s, next, c) => callSite? s next c
    returns := states.filterMap fun (s, _, _) => liftedReturn? s
    facts }

def isCurrent (s : Snapshot) (f : Function) : Bool :=
  s.function == f.id && s.revision == f.revision

/-- Why the snapshot does not serve the function, if it does not. -/
def mismatch? (s : Snapshot) (f : Function) : Option AnalysisError :=
  if s.function ≠ f.id then some (.snapshotMismatch f.id s.function)
  else if s.revision ≠ f.revision then some (.staleSnapshot f.id s.revision f.revision)
  else none

end Snapshot

end CallEffects
