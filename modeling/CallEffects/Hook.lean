import CallEffects.Convention.Registry
import CallEffects.Signature.Registry

/-!
# Hooks

A hook is the list of synthetic statements that spell out what a convention means at one anchor: a
function entry, a call or a return. Its key is the anchor, the convention, the signature in force
and, for a call, a stack adjustment that differs from what the convention implies. `Plan` is a key
with the effects that belong to it; building a plan allocates an id for each statement, and the
statements keep their ids for as long as the hook lives.
-/

namespace CallEffects

open Std

inductive Anchor where
  | entry (function : FunctionId)
  | call (call : StatementRef)
  | ret (ret : StatementRef)
deriving DecidableEq, Repr

namespace Anchor

def rank : Anchor → List Nat
  | .entry f => [0, f]
  | .call r => [1, r.function, r.statement]
  | .ret r => [2, r.function, r.statement]

theorem rank_injective (a b : Anchor) (h : a.rank = b.rank) : a = b := by
  cases a <;> cases b <;> simp_all [rank] <;> rename_i r s <;> cases r <;> cases s <;> simp_all

instance : Ord Anchor := ⟨compareRank rank⟩

instance : TransOrd Anchor := transCmp_compareRank rank

instance : LawfulEqOrd Anchor := lawfulEqCmp_compareRank rank_injective

def kind : Anchor → HookKind
  | .entry _ => .entry
  | .call _ => .call
  | .ret _ => .ret

def function : Anchor → FunctionId
  | .entry f => f
  | .call r | .ret r => r.function

/-- Argument locations are defined at the entry, a call's hook follows it and a return's hook comes
before it. -/
def position : Anchor → InsertPosition
  | .entry _ => .blockStart Function.entryBlock
  | .call r => .after r.statement
  | .ret r => .before r.statement

end Anchor

structure HookId where
  kind : HookKind
  index : Nat
deriving DecidableEq, Repr

def HookId.render (id : HookId) : String := id.kind.render ++ "#" ++ toString id.index

structure HookKey where
  anchor : Anchor
  convention : ConventionId
  signature : Option SignatureRef
  /-- `none` when the cleanup is what the convention implies, and for entries and returns. -/
  adjustment : Option Nat
deriving DecidableEq, Repr

structure HookEffects where
  arguments : List Location
  returnValues : List Location
  /-- Clobbered locations that carry no return value. -/
  killed : List Location
  /-- Bytes the callee releases. -/
  cleanup : Nat
  kinds : List StatementKind
deriving DecidableEq, Repr

structure Plan where
  key : HookKey
  effects : HookEffects
deriving DecidableEq, Repr

structure Hook where
  id : HookId
  key : HookKey
  effects : HookEffects
  statements : List Statement
deriving DecidableEq, Repr

namespace Hook

def anchor (h : Hook) : Anchor := h.key.anchor

def statementIds (h : Hook) : List StatementId := h.statements.map (·.id)

/-- Gives the statements of a plan the next ids of the function, as `allocate` hands them out. -/
def build (id : HookId) (plan : Plan) (f : Function) : Hook × Function :=
  let statements := (plan.effects.kinds.zipIdx f.nextStatement).map fun (kind, s) =>
    Statement.synthetic s plan.key.anchor.kind kind
  (⟨id, plan.key, plan.effects, statements⟩,
    { f with nextStatement := f.nextStatement + plan.effects.kinds.length })

end Hook

def touches (access : Access) (locations : List Location) : List StatementKind :=
  locations.map fun l => .touch l access

namespace Convention

/-- The return locations of a value of the type, all of them if the type is unknown. -/
def returnsOf (c : Convention) (type : Option ParamType) : List Location :=
  c.returnLocations (type.map (·.size c.architecture.pointerSize))

/-- An entry defines the stack pointer and the arguments. -/
def entryEffects (c : Convention) (s : Option FunctionSignature) : HookEffects :=
  let arity := (s.map (·.arguments.length)).getD c.speculativeArgumentCount
  let arguments := c.argumentLocations arity .entry
  { arguments
    returnValues := []
    killed := []
    cleanup := 0
    kinds := touches .write (c.stackPointer :: arguments) }

def callArity (c : Convention) (s : Option CallSignature) : Nat :=
  (s.map (·.arguments.length)).getD c.speculativeArgumentCount

/-- A call reads its arguments, destroys what the callee may use, defines the return values and
moves the stack pointer by what the callee releases. -/
def callEffects (c : Convention) (s : Option CallSignature) (adjustment : Option Nat) :
    HookEffects :=
  let arity := c.callArity s
  let arguments := c.argumentLocations arity .call
  let returnValues := c.returnsOf (s.bind (·.returns))
  let killed := c.clobbered.filter fun l => !returnValues.contains l
  let cleanup := adjustment.getD (c.impliedCleanup arity)
  { arguments
    returnValues
    killed
    cleanup
    kinds :=
      touches .read arguments ++ killed.map .kill ++ touches .write returnValues ++
        if cleanup = 0 then [] else [.adjustStack c.stackPointer (Int64.ofNat cleanup)] }

/-- A return reads the return values. -/
def returnEffects (c : Convention) (s : Option FunctionSignature) : HookEffects :=
  let returnValues := c.returnsOf (s.bind (·.returns))
  { arguments := []
    returnValues
    killed := []
    cleanup := 0
    kinds := touches .read returnValues }

end Convention

namespace Plan

/-- What a function's own convention and signature ask for at its entry. -/
def ofEntry (f : FunctionId) (c : ConventionId × Convention)
    (s : Option (Nat × FunctionSignature)) : Plan :=
  ⟨⟨.entry f, c.1, s.map (.callee ·.1), none⟩, c.2.entryEffects (s.map (·.2))⟩

def ofReturn (ret : StatementRef) (c : ConventionId × Convention)
    (s : Option (Nat × FunctionSignature)) : Plan :=
  ⟨⟨.ret ret, c.1, s.map (.callee ·.1), none⟩, c.2.returnEffects (s.map (·.2))⟩

/-- An adjustment that says what the convention implies is dropped. `observed` is what the callee
was seen to release; the call's own signature comes before it. -/
def ofCall (call : StatementRef) (c : ConventionId × Convention)
    (s : Option (SignatureRef × CallSignature)) (observed : Option Nat) : Plan :=
  let signature := s.map (·.2)
  let implied := c.2.impliedCleanup (c.2.callArity signature)
  let adjustment := ((signature.bind (·.stackAdjustment)) <|> observed).filter (· != implied)
  ⟨⟨.call call, c.1, s.map (·.1), adjustment⟩, c.2.callEffects signature adjustment⟩

end Plan

end CallEffects
