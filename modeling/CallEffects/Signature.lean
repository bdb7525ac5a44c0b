import CallEffects.Text.Blank
import CallEffects.Text.Case
import CallEffects.Text.Number

/-!
# Types and signatures

Parameter types, the signature of a function and the signature of one call. `ParamType.read`
accepts C-like type names in any case, with blanks around them and an optional `_t` at the end;
`ParamType.render` and `FunctionSignature.prototype` print C.
-/

namespace CallEffects

inductive ParamType where
  | unknown
  | void
  | bool
  | signed (bits : UInt8)
  | unsigned (bits : UInt8)
  | pointer
  | float (bits : UInt8)
deriving DecidableEq, Repr

namespace ParamType

def hasFixedWidthName (bits : UInt8) : Bool := bits == 8 || bits == 16 || bits == 32 || bits == 64

def render : ParamType → String
  | .unknown => "intptr_t"
  | .void => "void"
  | .bool => "bool"
  | .signed bits =>
    if hasFixedWidthName bits then "int" ++ toString bits.toNat ++ "_t" else "int"
  | .unsigned bits =>
    if hasFixedWidthName bits then "uint" ++ toString bits.toNat ++ "_t" else "unsigned int"
  | .pointer => "void*"
  | .float bits => if bits == 32 then "float" else "double"

def bytesOfBits (bits : UInt8) : Nat := (bits.toNat + 7) / 8

/-- The size in bytes. An unknown type takes one machine word. -/
def size (pointerSize : Nat) : ParamType → Nat
  | .unknown | .pointer => pointerSize
  | .void => 0
  | .bool => 1
  | .signed bits | .unsigned bits | .float bits => bytesOfBits bits

def named : List (String × ParamType) :=
  [("?", .unknown), ("unknown", .unknown), ("intptr", .unknown), ("void", .void), ("bool", .bool),
    ("char", .signed 8), ("short", .signed 16), ("int", .signed 32), ("long", .signed 32),
    ("float", .float 32), ("double", .float 64), ("ptr", .pointer), ("pointer", .pointer)]

def withoutSuffix (s : List Char) : List Char :=
  if s.drop (s.length - 2) = ['_', 't'] then s.take (s.length - 2) else s

def readBits (digits : List Char) : Option UInt8 :=
  (Text.readUnsigned 10 UInt8.size digits).toOption.map UInt8.ofNat

def read (text : String) : Option ParamType :=
  let s := withoutSuffix ((Text.trim text.toList).map Text.lowerChar)
  if s.getLast? = some '*' then some .pointer
  else
    match named.lookup (String.ofList s), s with
    | some type, _ => some type
    | none, 'u' :: 'i' :: 'n' :: 't' :: digits => (readBits digits).map .unsigned
    | none, 'i' :: 'n' :: 't' :: digits => (readBits digits).map .signed
    | none, _ => none

end ParamType

/-- A function as seen from its body. -/
structure FunctionSignature where
  name : Option String
  arguments : List ParamType
  /-- `none` when the return type is unknown. -/
  returns : Option ParamType
  variadic : Bool
deriving DecidableEq, Repr

namespace FunctionSignature

def unknown : FunctionSignature := ⟨none, [], none, false⟩

def prototype (s : FunctionSignature) (fallbackName : String) : String :=
  let returns := (s.returns.getD .unknown).render
  let arguments := s.arguments.zipIdx.map fun (type, i) => type.render ++ " a" ++ toString (i + 1)
  let arguments := if s.variadic then arguments ++ ["..."] else arguments
  let arguments := if arguments.isEmpty then ["void"] else arguments
  returns ++ " " ++ s.name.getD fallbackName ++ "(" ++ ", ".intercalate arguments ++ ")"

end FunctionSignature

/-- A function as seen from one call to it. -/
structure CallSignature where
  arguments : List ParamType
  returns : Option ParamType
  /-- Bytes the callee releases, if known. -/
  stackAdjustment : Option Nat
deriving DecidableEq, Repr

def CallSignature.ofFunction (s : FunctionSignature) : CallSignature :=
  ⟨s.arguments, s.returns, none⟩

end CallEffects
