import CallEffects.Location.Reader
import CallEffects.Program
import CallEffects.Signature.Registry
import CallEffects.Workspace

/-!
# Program descriptions

A lifted program as it is described in a file: addresses are numbers or written numbers, operands
and types are written out, and callees may be given presets and signatures. `Description.load`
resolves all of this, in a fixed order: the architecture, the blocks one after the other, the
entries, and then conventions and signatures in the order of their keys. The first fault wins.
-/

namespace CallEffects

open Std

inductive WrittenAddress where
  | number (address : Address)
  | text (text : String)
deriving DecidableEq, Repr

structure EntryDescription where
  address : WrittenAddress
  name : Option String
deriving DecidableEq, Repr

inductive OperationDescription where
  | assign (dst src : String)
  | call (target : String)
  | ret (pop : Nat)
  | jump
  | nop
deriving DecidableEq, Repr

structure StatementDescription where
  address : Option WrittenAddress
  operation : OperationDescription
deriving DecidableEq, Repr

structure BlockDescription where
  address : WrittenAddress
  successors : List WrittenAddress
  statements : List StatementDescription
deriving DecidableEq, Repr

structure SignatureDescription where
  name : Option String
  arguments : List String
  returns : Option String
  variadic : Bool
deriving DecidableEq, Repr

structure Description where
  name : String
  architecture : String
  entries : List EntryDescription
  blocks : List BlockDescription
  conventions : ExtTreeMap String String
  signatures : ExtTreeMap String SignatureDescription
deriving DecidableEq

inductive LoadError where
  | architecture (name : String)
  | address (cause : OperandError)
  | statement (block : Address) (index : Nat) (cause : OperandError)
  | block (block : Address) (cause : IrError)
  | convention (name : String)
  | signature (key type : String)
deriving DecidableEq, Repr

/-- What went wrong, from the outermost to the innermost. -/
def LoadError.chain : LoadError → List String
  | .architecture name => ["unknown architecture " ++ Text.quoted name.toList]
  | .address cause => [cause.message]
  | .statement b index cause =>
    ["block " ++ Text.hex b.toNat ++ ", statement " ++ toString index, cause.message]
  | .block b cause => ["block " ++ Text.hex b.toNat, cause.message]
  | .convention name => ["unknown convention " ++ Text.quoted name.toList]
  | .signature key type => ["signature of " ++ key, "unknown type " ++ Text.quoted type.toList]

def LoadError.message (e : LoadError) : String := ": ".intercalate e.chain

structure Loaded where
  image : Image
  program : Program
  conventions : Conventions
  signatures : Signatures
deriving DecidableEq

def WrittenAddress.resolve : WrittenAddress → Except OperandError Address
  | .number address => .ok address
  | .text s => readAddress s.toList

namespace StatementDescription

def resolveAddress (s : StatementDescription) : Except OperandError (Option Address) :=
  match s.address with
  | none => .ok none
  | some address => some <$> address.resolve

def readTarget (arch : Architecture) (text : String) : Except OperandError CallTarget :=
  match readAddress text.toList with
  | .ok address => .ok (.direct address)
  | .error _ => .indirect <$> Location.read arch text.toList

/-- A call's target is read before its address; other operands are read after it. -/
def resolve (arch : Architecture) (s : StatementDescription) :
    Except OperandError (Option Address × StatementKind) := do
  match s.operation with
  | .assign dst src =>
    let address ← s.resolveAddress
    let dst ← Location.read arch dst.toList
    let src ← Value.read arch src.toList
    return (address, .assign dst src)
  | .call target =>
    let target ← readTarget arch target
    return (← s.resolveAddress, .call target)
  | .ret pop => return (← s.resolveAddress, .ret pop)
  | .jump => return (← s.resolveAddress, .jump)
  | .nop => return (← s.resolveAddress, .nop)

end StatementDescription

namespace Description

/-- A statement without an address has that of its block. -/
def resolveStatement (arch : Architecture) (block : Address) (s : StatementDescription)
    (index : Nat) : Except LoadError ProgramStatement := do
  let (address, kind) ← (s.resolve arch).mapError (.statement block index)
  return ⟨some (address.getD block), kind⟩

def resolveBlock (arch : Architecture) (b : BlockDescription) : Except LoadError ProgramBlock := do
  let address ← b.address.resolve.mapError .address
  let successors ← b.successors.mapM fun a => a.resolve.mapError .address
  let statements ← b.statements.zipIdx.mapM fun (s, i) => resolveStatement arch address s i
  return ⟨address, statements, successors⟩

def addBlock (arch : Architecture) (p : Program) (b : BlockDescription) :
    Except LoadError Program := do
  let block ← resolveBlock arch b
  (p.addBlock block).mapError (.block block.address)

def resolveEntry (e : EntryDescription) : Except LoadError (Address × Option String) :=
  (fun a => (a, e.name)) <$> e.address.resolve.mapError .address

def assignConvention (cs : Conventions) : String × String → Except LoadError Conventions
  | (key, preset) =>
    match cs.registerPreset preset with
    | none => .error (.convention preset)
    | some (id, cs) => do
      let address ← (readAddress key.toList).mapError .address
      return cs.assign (.address address) id

def readType (key : String) (type : String) : Except LoadError ParamType :=
  match ParamType.read type with
  | some t => .ok t
  | none => .error (.signature key type)

def resolveSignature (key : String) (s : SignatureDescription) :
    Except LoadError FunctionSignature := do
  let arguments ← s.arguments.mapM (readType key)
  let returns ←
    match s.returns with
    | none => pure none
    | some type => some <$> readType key type
  return ⟨s.name, arguments, returns, s.variadic⟩

def recordSignature (ss : Signatures) :
    String × SignatureDescription → Except LoadError Signatures
  | (key, s) => do
    let signature ← resolveSignature key s
    let address ← (readAddress key.toList).mapError .address
    return (ss.setFunction (.address address) signature).2

/-- The first entry is the entry point of the image. -/
def load (d : Description) : Except LoadError Loaded := do
  let arch ←
    match Architecture.ofName? d.architecture with
    | some arch => pure arch
    | none => throw (.architecture d.architecture)
  let program ← d.blocks.foldlM (addBlock arch) .empty
  let entries ← d.entries.mapM resolveEntry
  let program := entries.foldl (fun p (address, name) => p.addEntry address name) program
  let conventions ← d.conventions.toList.foldlM assignConvention .empty
  let signatures ← d.signatures.toList.foldlM recordSignature .empty
  let image := ⟨d.name, arch, entries.head?.map (·.1)⟩
  return { image, program, conventions, signatures }

end Description

/-- The image and its program are set, and the registries are exchanged for those of the
description. -/
def Workspace.takeIn (w : Workspace) (l : Loaded) : Workspace :=
  { w.replaceRegistries l.conventions l.signatures with
    image := some l.image
    program := some l.program }

end CallEffects
