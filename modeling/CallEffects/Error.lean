import CallEffects.Function

/-!
# Errors of an analysis

Unresolved conventions are no errors. What stops an analysis is a fault of the code it works on, a
snapshot that does not belong to the function, something that was never provided, a registry left
unusable, hook statements where none may be, or a cancellation.
-/

namespace CallEffects

inductive Artifact where
  | program
  | functions
  | hooks
deriving DecidableEq, Repr

def Artifact.name : Artifact → String
  | .program => "program"
  | .functions => "functions"
  | .hooks => "hooks"

inductive Registry where
  | conventions
  | signatures
deriving DecidableEq, Repr

def Registry.name : Registry → String
  | .conventions => "conventions"
  | .signatures => "signatures"

inductive AnalysisError where
  | ir (cause : IrError)
  | staleSnapshot (function : FunctionId) (computed current : Nat)
  | snapshotMismatch (function snapshot : FunctionId)
  | missing (artifact : Artifact)
  | poisoned (registry : Registry)
  | syntheticLeak (function : FunctionId) (statement : StatementId)
  | cancelled
deriving DecidableEq, Repr

def AnalysisError.message : AnalysisError → String
  | .ir cause => "IR error: " ++ cause.message
  | .staleSnapshot function computed current =>
    "dataflow for " ++ FunctionId.render function ++ " is stale: computed at revision " ++
      toString computed ++ ", function is at " ++ toString current
  | .snapshotMismatch function snapshot =>
    "dataflow was computed for " ++ FunctionId.render snapshot ++ ", not " ++
      FunctionId.render function
  | .missing artifact => "missing artifact: " ++ artifact.name
  | .poisoned registry => registry.name ++ " registry lock poisoned"
  | .syntheticLeak function statement =>
    "synthetic statement " ++ StatementId.render statement ++ " still present in " ++
      FunctionId.render function
  | .cancelled => "analysis cancelled"

/-- The underlying fault of an error that only wraps one. -/
def AnalysisError.cause? : AnalysisError → Option IrError
  | .ir cause => some cause
  | _ => none

end CallEffects
