import CallEffects.Function

/-!
# Callees

What a convention or a signature is attached to: the code at an address, a function that has no
entry address, or an indirect call whose target is not known.
-/

namespace CallEffects

open Std

inductive Callee where
  | address (address : Address)
  | function (function : FunctionId)
  | call (call : StatementRef)
deriving DecidableEq, Repr

namespace Callee

def rank : Callee → List Nat
  | .address a => [0, a.toNat]
  | .function f => [1, f]
  | .call r => [2, r.function, r.statement]

theorem rank_injective (a b : Callee) (h : a.rank = b.rank) : a = b := by
  cases a <;> cases b <;> simp_all [rank, UInt64.toNat_inj]
  rename_i r s
  cases r; cases s; simp_all

instance : Ord Callee := ⟨compareRank rank⟩

instance : TransOrd Callee := transCmp_compareRank rank

instance : LawfulEqOrd Callee := lawfulEqCmp_compareRank rank_injective

def ofFunction (f : Function) : Callee :=
  match f.entryAddress with
  | some a => .address a
  | none => .function f.id

def ofCall (call : StatementRef) : Option Address → Callee
  | some a => .address a
  | none => .call call

def isIndirect : Callee → Bool
  | .call _ => true
  | _ => false

def render : Callee → String
  | .address a => Text.hex a.toNat
  | .function f => FunctionId.render f
  | .call r => "indirect@" ++ r.render

end Callee

namespace StatementRef

def rank (r : StatementRef) : List Nat := [r.function, r.statement]

theorem rank_injective (r s : StatementRef) (h : r.rank = s.rank) : r = s := by
  cases r; cases s; simp_all [rank]

instance : Ord StatementRef := ⟨compareRank rank⟩

instance : TransOrd StatementRef := transCmp_compareRank rank

instance : LawfulEqOrd StatementRef := lawfulEqCmp_compareRank rank_injective

end StatementRef

end CallEffects
