/-!
# Configuration

How many rounds an analysis may take, which convention it falls back to, and whether it ends by
taking the hooks off and emitting pseudo-source.
-/

namespace CallEffects

structure Configuration where
  maxIterations : Nat
  parallelDataflow : Bool
  /-- A preset for callees the registry does not know; without it they get no hooks. -/
  defaultConvention : Option String
  /-- Without a default convention, take the platform's. -/
  architectureDefault : Bool
  guessIndirectCalls : Bool
  deinstrumentAtEnd : Bool
  emitTree : Bool
deriving DecidableEq, Repr

namespace Configuration

def standard : Configuration := ⟨8, true, none, false, false, false, false⟩

/-- At least one round. -/
def withMaxIterations (c : Configuration) (n : Nat) : Configuration :=
  { c with maxIterations := max n 1 }

def forEmission (c : Configuration) : Configuration :=
  { c with deinstrumentAtEnd := true, emitTree := true }

end Configuration

end CallEffects
