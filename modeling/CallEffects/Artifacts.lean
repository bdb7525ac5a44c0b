import CallEffects.Signature
import CallEffects.Statement

/-!
# Results about one function

What other passes find out about a function and leave here to be kept: the statements whose results
are live, the types of locations, the variables of the source and the control regions.
-/

namespace CallEffects

open Std

abbrev Liveness := ExtTreeMap StatementId Unit

def Liveness.mark (l : Liveness) (s : StatementId) : Liveness := l.insert s ()

abbrev LocationTypes := ExtTreeMap Location ParamType

structure Variable where
  name : String
  locations : List Location
deriving DecidableEq, Repr

/-- The first variable that holds the location. -/
def findVariable? (vs : List Variable) (l : Location) : Option Variable :=
  vs.find? (·.locations.contains l)

inductive RegionKind where
  | block
  | sequence
  | ifThen
  | ifThenElse
  | loop
  | unstructured
deriving DecidableEq, Repr

structure Region where
  kind : RegionKind
  blocks : List BlockId
  children : List Nat
deriving DecidableEq, Repr

/-- The position of a region is its number, and the first one is the root. -/
abbrev Regions := List Region

namespace Regions

def add (rs : Regions) (kind : RegionKind) (blocks : List BlockId) : Nat × Regions :=
  (rs.length, rs ++ [⟨kind, blocks, []⟩])

/-- Fails if one of the two regions does not exist. -/
def nest? (rs : Regions) (parent child : Nat) : Option Regions :=
  if parent < rs.length ∧ child < rs.length then
    some (rs.modify parent fun r => { r with children := r.children ++ [child] })
  else none

/-- Nests pair by pair, and tells which of them could be nested. -/
def nestAll (rs : Regions) : List (Nat × Nat) → List Bool × Regions
  | [] => ([], rs)
  | (parent, child) :: rest =>
    match rs.nest? parent child with
    | some rs =>
      let (results, rs) := nestAll rs rest
      (true :: results, rs)
    | none =>
      let (results, rs) := nestAll rs rest
      (false :: results, rs)

end Regions

structure FunctionArtifacts where
  liveness : Option Liveness
  types : Option LocationTypes
  sourceVariables : Option (List Variable)
  regions : Option Regions
deriving DecidableEq

namespace FunctionArtifacts

def none : FunctionArtifacts := ⟨.none, .none, .none, .none⟩

def isEmpty (a : FunctionArtifacts) : Bool :=
  a.liveness.isNone && a.types.isNone && a.sourceVariables.isNone && a.regions.isNone

end FunctionArtifacts

end CallEffects
