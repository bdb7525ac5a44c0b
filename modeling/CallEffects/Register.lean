import CallEffects.Architecture

/-!
# Register names

A register is known by a number that all its widths share. On the x86 family the numbers 0 to 15
are the general registers, 16 is the instruction pointer and 64 to 67 are vector registers; 32-bit
code names the first eight of them only. A number without a name is shown as `unknown`. A name is
looked up in both widths, whatever the width of the architecture.
-/

namespace CallEffects

abbrev Register := UInt16

namespace Register

def wideNames : List String :=
  ["rax", "rcx", "rdx", "rbx", "rsp", "rbp", "rsi", "rdi", "r8", "r9", "r10", "r11", "r12", "r13",
    "r14", "r15", "rip"]

def narrowNames : List String := ["eax", "ecx", "edx", "ebx", "esp", "ebp", "esi", "edi"]

def vectorNames : List String := ["xmm0", "xmm1", "xmm2", "xmm3"]

def arm64Names : List String :=
  ["x0", "x1", "x2", "x3", "x4", "x5", "x6", "x7", "x8", "x9", "x10", "x11", "x12", "x13", "x14",
    "x15", "x16", "x17", "x18", "x19", "x20", "x21", "x22", "x23", "x24", "x25", "x26", "x27",
    "x28", "x29", "x30", "sp"]

def instructionPointer : Nat := 16

def firstVector : Nat := 64

def unnamed : String := "unknown"

def vectorName (n : Nat) : String :=
  if firstVector ≤ n then (vectorNames[n - firstVector]?).getD unnamed else unnamed

def wideName (n : Nat) : String := (wideNames[n]?).getD (vectorName n)

def narrowName (n : Nat) : String :=
  if n = instructionPointer then "eip" else (narrowNames[n]?).getD (vectorName n)

def arm64Name (n : Nat) : String := (arm64Names[n]?).getD unnamed

def name (arch : Architecture) (r : Register) : String :=
  match arch with
  | .x86_64 => wideName r.toNat
  | .x86 => narrowName r.toNat
  | .arm64 => arm64Name r.toNat
  | .unknown _ => unnamed

/-- The x86 numbers a name is looked up among, in the order of the search. -/
def x86Numbers : List Nat :=
  List.range (instructionPointer + 1) ++ (List.range vectorNames.length).map (firstVector + ·)

def ofName? (arch : Architecture) (s : String) : Option Register :=
  let s := Text.lowercase s
  let found :=
    match arch with
    | .x86 | .x86_64 => x86Numbers.find? fun n => wideName n == s || narrowName n == s
    | .arm64 => (List.range arm64Names.length).find? fun n => arm64Name n == s
    | .unknown _ => none
  found.map UInt16.ofNat

end Register

end CallEffects
