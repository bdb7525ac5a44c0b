import CallEffects.Location

/-!
# Instructions

Decoded machine instructions, sorted by address. `covering?` finds the instruction an address falls
into among those that start at or below it, looking at the nearest start only.
-/

namespace CallEffects

open Std

structure Instruction where
  address : Address
  /-- In bytes. -/
  size : UInt64
  bytes : List UInt8
  mnemonic : String
  operands : String
deriving DecidableEq, Repr

namespace Instruction

/-- The instruction that all of the bytes encode. -/
def ofBytes (address : Address) (bytes : List UInt8) (mnemonic operands : String) : Instruction :=
  ⟨address, UInt64.ofNat bytes.length, bytes, mnemonic, operands⟩

def endAddress (i : Instruction) : Address := i.address + i.size

end Instruction

structure Instructions where
  byAddress : ExtTreeMap Address Instruction
deriving DecidableEq

namespace Instructions

def empty : Instructions := ⟨∅⟩

/-- Replaces the instruction at the same address, and gives it back. -/
def add (is : Instructions) (i : Instruction) : Option Instruction × Instructions :=
  (is.byAddress[i.address]?, ⟨is.byAddress.insert i.address i⟩)

/-- Adds one after the other, with what each of them replaced. -/
def addAll (is : Instructions) : List Instruction → List (Option Instruction) × Instructions
  | [] => ([], is)
  | i :: rest =>
    let (old, is) := is.add i
    let (replaced, is) := addAll is rest
    (old :: replaced, is)

def get? (is : Instructions) (address : Address) : Option Instruction := is.byAddress[address]?

def covering? (is : Instructions) (address : Address) : Option Instruction :=
  ((is.byAddress.getEntryLE? address).map (·.2)).filter fun i => address < i.endAddress

def toList (is : Instructions) : List Instruction := is.byAddress.values

def size (is : Instructions) : Nat := is.byAddress.size

end Instructions

end CallEffects
