import CallEffects.Text.Case

/-!
# Architectures

The processor architectures a program may be lifted from, with their pointer sizes in bytes and
the names they are read and shown by.
-/

namespace CallEffects

inductive Architecture where
  | x86_64
  | x86
  | arm64
  | unknown (machine : UInt16)
deriving DecidableEq, Repr

namespace Architecture

/-- An unknown machine is taken to be a 64-bit one. -/
def pointerSize : Architecture → Nat
  | .x86 => 4
  | _ => 8

def is64Bit : Architecture → Bool
  | .x86_64 | .arm64 => true
  | _ => false

def name : Architecture → String
  | .x86_64 => "x86_64"
  | .x86 => "x86"
  | .arm64 => "arm64"
  | .unknown _ => "unknown"

def ofName? (s : String) : Option Architecture :=
  let s := Text.lowercase s
  if s ∈ ["x86_64", "x86-64", "amd64", "x64"] then some .x86_64
  else if s ∈ ["x86", "i386", "i686"] then some .x86
  else if s ∈ ["arm64", "aarch64"] then some .arm64
  else none

end Architecture

end CallEffects
