import CallEffects.Ranking
import CallEffects.Register
import CallEffects.Text.Number

/-!
# Locations and values

A location is a place code reads and writes: a register, a stack slot at an offset from the stack
pointer, a global memory address, or the flags. `Location.rank` orders them by kind and then by
number. `render` gives the text of a location or value; locations of different kinds, and values
that are constants, never share a text.
-/

namespace CallEffects

open Std

abbrev Address := UInt64

inductive Location where
  | register (register : Register)
  | stack (offset : Int64)
  | memory (address : Address)
  | flags
deriving DecidableEq, Repr

namespace Location

def rank : Location → List Nat
  | .register r => [0, r.toNat]
  | .stack offset => [1, (offset.toInt + 0x8000000000000000).toNat]
  | .memory address => [2, address.toNat]
  | .flags => [3]

theorem rank_injective (a b : Location) (h : a.rank = b.rank) : a = b := by
  cases a <;> cases b <;> simp_all [rank, UInt16.toNat_inj, UInt64.toNat_inj]
  rename_i x y
  have hx := x.le_toInt
  have hy := y.le_toInt
  apply Int64.toInt_inj.1
  omega

instance : Ord Location := ⟨compareRank rank⟩

instance : TransOrd Location := transCmp_compareRank rank

instance : LawfulEqOrd Location := lawfulEqCmp_compareRank rank_injective

def isRegister : Location → Bool
  | .register _ => true
  | _ => false

def isStack : Location → Bool
  | .stack _ => true
  | _ => false

def render : Location → String
  | .register r => "r" ++ toString r.toNat
  | .stack offset =>
    if offset < 0 then "[sp-" ++ Text.hex offset.toInt.natAbs ++ "]"
    else "[sp+" ++ Text.hex offset.toInt.natAbs ++ "]"
  | .memory address => "[" ++ Text.hex address.toNat ++ "]"
  | .flags => "flags"

end Location

/-- The right-hand side of an assignment. -/
inductive Value where
  | constant (value : UInt64)
  | location (location : Location)
deriving DecidableEq, Repr

def Value.render : Value → String
  | .constant c => Text.hex c.toNat
  | .location l => l.render

end CallEffects
