import CallEffects.Location

/-!
# Calling conventions

A convention says where arguments and return values live, which locations a call destroys and who
releases the stack arguments. Arguments fill the argument registers first; the rest are stack slots
in order. Seen from the callee's entry they lie behind the return address, which the call has
pushed by then.
-/

namespace CallEffects

inductive StackCleanup where
  | caller
  | callee
deriving DecidableEq, Repr

/-- Where an argument location is seen from. -/
inductive Site where
  | entry
  | call
deriving DecidableEq, Repr

structure Convention where
  name : String
  architecture : Architecture
  stackPointer : Location
  returnAddressSize : Nat
  registerArguments : List Location
  /-- The first stack argument, from the stack pointer at the call. -/
  stackArgumentsOffset : Int64
  stackSlotSize : Nat
  /-- Stack arguments assumed when the signature is unknown. -/
  speculativeStackArguments : Nat
  /-- Lowest part first. -/
  returnValues : List Location
  clobbered : List Location
  cleanup : StackCleanup
deriving DecidableEq, Repr

namespace Convention

def stackArgument (c : Convention) (n : Nat) (site : Site) : Location :=
  let offset := c.stackArgumentsOffset + Int64.ofNat n * Int64.ofNat c.stackSlotSize
  match site with
  | .call => .stack offset
  | .entry => .stack (offset + Int64.ofNat c.returnAddressSize)

def argumentLocation (c : Convention) (n : Nat) (site : Site) : Location :=
  match c.registerArguments[n]? with
  | some location => location
  | none => c.stackArgument (n - c.registerArguments.length) site

def argumentLocations (c : Convention) (count : Nat) (site : Site) : List Location :=
  (List.range count).map fun n => c.argumentLocation n site

def speculativeArgumentCount (c : Convention) : Nat :=
  c.registerArguments.length + c.speculativeStackArguments

/-- Bytes of stack that so many arguments take, counted in 32 bits. -/
def stackArgumentBytes (c : Convention) (count : Nat) : Nat :=
  (count - c.registerArguments.length) * c.stackSlotSize % UInt32.size

/-- The return locations of a value of the given size in bytes, all of them if it is unknown. -/
def returnLocations (c : Convention) : Option Nat → List Location
  | none => c.returnValues
  | some 0 => []
  | some size =>
    let slot := max c.stackSlotSize 1
    c.returnValues.take ((size + (slot - 1)) / slot)

def calleeCleans (c : Convention) : Bool := c.cleanup == .callee

/-- Bytes a callee with so many arguments releases, as far as the convention says. -/
def impliedCleanup (c : Convention) (arity : Nat) : Nat :=
  if c.calleeCleans then c.stackArgumentBytes arity else 0

def registers (numbers : List Register) : List Location := numbers.map .register

def cdecl : Convention where
  name := "cdecl"
  architecture := .x86
  stackPointer := .register 4
  returnAddressSize := 4
  registerArguments := []
  stackArgumentsOffset := 0
  stackSlotSize := 4
  speculativeStackArguments := 4
  returnValues := registers [0, 2]
  clobbered := registers [0, 1, 2] ++ [.flags]
  cleanup := .caller

def stdcall : Convention := { cdecl with name := "stdcall", cleanup := .callee }

def fastcall : Convention :=
  { cdecl with
    name := "fastcall"
    registerArguments := registers [1, 2]
    speculativeStackArguments := 2
    cleanup := .callee }

def sysvAmd64 : Convention where
  name := "sysv-amd64"
  architecture := .x86_64
  stackPointer := .register 4
  returnAddressSize := 8
  registerArguments := registers [7, 6, 2, 1, 8, 9]
  stackArgumentsOffset := 0
  stackSlotSize := 8
  speculativeStackArguments := 0
  returnValues := registers [0, 2]
  clobbered := registers [0, 1, 2, 6, 7, 8, 9, 10, 11] ++ [.flags]
  cleanup := .caller

/-- Stack arguments lie above 32 bytes of shadow space. -/
def msX64 : Convention :=
  { sysvAmd64 with
    name := "ms-x64"
    registerArguments := registers [1, 2, 8, 9]
    stackArgumentsOffset := 32
    returnValues := registers [0]
    clobbered := registers [0, 1, 2, 8, 9, 10, 11] ++ [.flags] }

def presets : List Convention := [cdecl, stdcall, fastcall, sysvAmd64, msX64]

def presetNames : List String := presets.map (·.name)

def preset? (name : String) : Option Convention :=
  let name := Text.lowercase name
  if name ∈ ["sysv", "systemv"] then some sysvAmd64
  else if name ∈ ["ms", "win64"] then some msX64
  else presets.find? (·.name == name)

def defaultFor? : Architecture → Option Convention
  | .x86 => some cdecl
  | .x86_64 => some sysvAmd64
  | .arm64 | .unknown _ => none

end Convention

end CallEffects
