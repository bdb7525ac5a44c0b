import CallEffects.Callee
import CallEffects.Signature

/-!
# The signature registry

Signatures by callee and by call site. Every recorded signature gets a fresh id, so a signature
that replaces another has a different one. A call is governed by its own signature, or else by that
of its callee. The revision is the number of signatures ever recorded.
-/

namespace CallEffects

open Std

inductive SignatureRef where
  | call (id : Nat)
  | callee (id : Nat)
deriving DecidableEq, Repr

structure Signatures where
  ofCallees : ExtTreeMap Callee (Nat × FunctionSignature)
  ofCalls : ExtTreeMap StatementRef (Nat × CallSignature)
  calleeCount : Nat
  callCount : Nat
deriving DecidableEq

namespace Signatures

def empty : Signatures := ⟨∅, ∅, 0, 0⟩

def setFunction (ss : Signatures) (callee : Callee) (s : FunctionSignature) : Nat × Signatures :=
  (ss.calleeCount,
    { ss with
      ofCallees := ss.ofCallees.insert callee (ss.calleeCount, s)
      calleeCount := ss.calleeCount + 1 })

def setCall (ss : Signatures) (call : StatementRef) (s : CallSignature) : Nat × Signatures :=
  (ss.callCount,
    { ss with
      ofCalls := ss.ofCalls.insert call (ss.callCount, s)
      callCount := ss.callCount + 1 })

def function? (ss : Signatures) (callee : Callee) : Option (Nat × FunctionSignature) :=
  ss.ofCallees[callee]?

def call? (ss : Signatures) (call : StatementRef) : Option (Nat × CallSignature) :=
  ss.ofCalls[call]?

def forCall? (ss : Signatures) (call : StatementRef) (callee : Callee) :
    Option (SignatureRef × CallSignature) :=
  match ss.call? call with
  | some (id, s) => some (.call id, s)
  | none => (ss.function? callee).map fun (id, s) => (.callee id, .ofFunction s)

def revision (ss : Signatures) : Nat := ss.calleeCount + ss.callCount

end Signatures

end CallEffects
