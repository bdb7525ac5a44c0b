import CallEffects.Location

/-!
# Statements

Lifted code is a sequence of statements. A statement is either lifted from an instruction or
synthetic, put in by a hook on a function entry, a call or a return; the kinds `touch`, `kill` and
`adjustStack` come from hooks only. Statements are numbered within their function, and a
`StatementRef` names one across all functions.
-/

namespace CallEffects

open Std

abbrev FunctionId := Nat

abbrev BlockId := Nat

/-- The first `2 ^ 32` numbers of a function are those that a count in 32 bits gives. -/
abbrev StatementId := Nat

def FunctionId.render (f : FunctionId) : String := "f" ++ toString f

def BlockId.render (b : BlockId) : String := "bb" ++ toString b

def StatementId.render (s : StatementId) : String := "s" ++ toString s

structure StatementRef where
  function : FunctionId
  statement : StatementId
deriving DecidableEq, Repr

def StatementRef.render (r : StatementRef) : String :=
  FunctionId.render r.function ++ ":" ++ StatementId.render r.statement

inductive CallTarget where
  | direct (address : Address)
  | indirect (location : Location)
deriving DecidableEq, Repr

namespace CallTarget

def direct? : CallTarget → Option Address
  | .direct address => some address
  | .indirect _ => none

def render : CallTarget → String
  | .direct address => Text.hex address.toNat
  | .indirect location => location.render

end CallTarget

inductive Access where
  | read
  | write
deriving DecidableEq, Repr

inductive HookKind where
  | entry
  | call
  | ret
deriving DecidableEq, Repr

def HookKind.render : HookKind → String
  | .entry => "entry"
  | .call => "call"
  | .ret => "return"

inductive Origin where
  | lifted
  | synthetic (hook : HookKind)
deriving DecidableEq, Repr

inductive StatementKind where
  | assign (dst : Location) (src : Value)
  /-- Control returns to the next statement. -/
  | call (target : CallTarget)
  /-- Returns to the caller and releases `pop` bytes of stack arguments. -/
  | ret (pop : Nat)
  /-- A transfer to the successors of the block. -/
  | jump
  | nop
  | touch (location : Location) (access : Access)
  /-- Destroys the value of a location. -/
  | kill (location : Location)
  /-- Adds `delta` to the stack pointer. -/
  | adjustStack (pointer : Location) (delta : Int64)
deriving DecidableEq, Repr

namespace StatementKind

def isHookOnly : StatementKind → Bool
  | .touch .. | .kill _ | .adjustStack .. => true
  | _ => false

def isCall : StatementKind → Bool
  | .call _ => true
  | _ => false

def isReturn : StatementKind → Bool
  | .ret _ => true
  | _ => false

def render : StatementKind → String
  | .assign dst src => dst.render ++ " = " ++ src.render
  | .call target => "call " ++ target.render
  | .ret pop => if pop = 0 then "return" else "return " ++ Text.hex pop
  | .jump => "jump"
  | .nop => "nop"
  | .touch location .read => "read " ++ location.render
  | .touch location .write => "write " ++ location.render
  | .kill location => "kill " ++ location.render
  | .adjustStack pointer delta =>
    let operator := if delta < 0 then " -= " else " += "
    pointer.render ++ operator ++ Text.hex delta.toInt.natAbs

end StatementKind

structure Statement where
  id : StatementId
  /-- The instruction the statement was lifted from. -/
  address : Option Address
  kind : StatementKind
  origin : Origin
deriving DecidableEq, Repr

namespace Statement

def lifted (id : StatementId) (address : Option Address) (kind : StatementKind) : Statement :=
  ⟨id, address, kind, .lifted⟩

def synthetic (id : StatementId) (hook : HookKind) (kind : StatementKind) : Statement :=
  ⟨id, none, kind, .synthetic hook⟩

def isSynthetic (s : Statement) : Bool :=
  match s.origin with
  | .synthetic _ => true
  | .lifted => false

def isCall (s : Statement) : Bool := s.kind.isCall

def isReturn (s : Statement) : Bool := s.kind.isReturn

def render (s : Statement) : String :=
  match s.origin, s.address with
  | .synthetic hook, _ => "    [" ++ hook.render ++ "] " ++ s.kind.render
  | .lifted, some address => Text.paddedHex 8 address.toNat ++ ": " ++ s.kind.render
  | .lifted, none => "            " ++ s.kind.render

@[simp] theorem isSynthetic_lifted (id : StatementId) (address : Option Address)
    (kind : StatementKind) : (lifted id address kind).isSynthetic = false := rfl

@[simp] theorem isSynthetic_synthetic (id : StatementId) (hook : HookKind)
    (kind : StatementKind) : (synthetic id hook kind).isSynthetic = true := rfl

end Statement

end CallEffects
