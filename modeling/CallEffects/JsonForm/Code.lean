import CallEffects.Function
import CallEffects.Instruction
import CallEffects.JsonForm.Record
import CallEffects.Program
import CallEffects.Workspace

/-!
# Code in JSON

The JSON forms of locations, statements, functions, programs, images and instructions. Variants are
named in capitalized words, fields in lower case with underscores.
-/

namespace CallEffects

open Json

namespace Architecture

def toJson : Architecture → Json
  | .x86_64 => .text "X86_64"
  | .x86 => .text "X86"
  | .arm64 => .text "Arm64"
  | .unknown machine => variant "Unknown" (.ofNat machine.toNat)

def ofJson? (j : Json) : Option Architecture := do
  match ← j.variant? with
  | ("X86_64", .null) => some .x86_64
  | ("X86", .null) => some .x86
  | ("Arm64", .null) => some .arm64
  | ("Unknown", machine) => machine.uint16?.map .unknown
  | _ => none

end Architecture

namespace Location

def toJson : Location → Json
  | .register r => variant "Register" (.ofNat r.toNat)
  | .stack offset => variant "Stack" (.ofInt offset.toInt)
  | .memory a => variant "Memory" (ofAddress a)
  | .flags => .text "Flags"

def ofJson? (j : Json) : Option Location := do
  match ← j.variant? with
  | ("Register", r) => r.uint16?.map .register
  | ("Stack", offset) => offset.int64?.map .stack
  | ("Memory", a) => a.uint64?.map .memory
  | ("Flags", .null) => some .flags
  | _ => none

end Location

namespace Value

def toJson : Value → Json
  | .constant c => variant "Constant" (ofAddress c)
  | .location l => variant "Location" l.toJson

def ofJson? (j : Json) : Option Value := do
  match ← j.variant? with
  | ("Constant", c) => c.uint64?.map .constant
  | ("Location", l) => (Location.ofJson? l).map .location
  | _ => none

end Value

namespace CallTarget

def toJson : CallTarget → Json
  | .direct a => variant "Direct" (ofAddress a)
  | .indirect l => variant "Indirect" l.toJson

def ofJson? (j : Json) : Option CallTarget := do
  match ← j.variant? with
  | ("Direct", a) => a.uint64?.map .direct
  | ("Indirect", l) => (Location.ofJson? l).map .indirect
  | _ => none

end CallTarget

namespace HookKind

def toJson : HookKind → Json
  | .entry => .text "Entry"
  | .call => .text "Call"
  | .ret => .text "Return"

def ofJson? (j : Json) : Option HookKind := do
  match ← j.variant? with
  | ("Entry", .null) => some .entry
  | ("Call", .null) => some .call
  | ("Return", .null) => some .ret
  | _ => none

end HookKind

namespace Access

def toJson : Access → Json
  | .read => .text "Read"
  | .write => .text "Write"

def ofJson? (j : Json) : Option Access := do
  match ← j.variant? with
  | ("Read", .null) => some .read
  | ("Write", .null) => some .write
  | _ => none

end Access

namespace Origin

def toJson : Origin → Json
  | .lifted => .text "Lifted"
  | .synthetic hook => variant "Synthetic" hook.toJson

def ofJson? (j : Json) : Option Origin := do
  match ← j.variant? with
  | ("Lifted", .null) => some .lifted
  | ("Synthetic", hook) => (HookKind.ofJson? hook).map .synthetic
  | _ => none

end Origin

namespace StatementKind

def toJson : StatementKind → Json
  | .assign dst src => variant "Assign" (.record [("dst", dst.toJson), ("src", src.toJson)])
  | .call target => variant "Call" (.record [("target", target.toJson)])
  | .ret pop => variant "Return" (.record [("pop", .ofNat pop)])
  | .jump => .text "Jump"
  | .nop => .text "Nop"
  | .touch location access =>
    variant "Touch" (.record [("location", location.toJson), ("access", access.toJson)])
  | .kill location => variant "Kill" (.record [("location", location.toJson)])
  | .adjustStack pointer delta =>
    variant "AdjustStack"
      (.record [("pointer", pointer.toJson), ("delta", .ofInt delta.toInt)])

def ofJson? (j : Json) : Option StatementKind := do
  match ← j.variant? with
  | ("Assign", fields) =>
    let r ← RawRecord.ofFields? ["dst", "src"] fields
    return .assign (← r.required 0 Location.ofJson?) (← r.required 1 Value.ofJson?)
  | ("Call", fields) =>
    let r ← RawRecord.ofFields? ["target"] fields
    return .call (← r.required 0 CallTarget.ofJson?)
  | ("Return", fields) =>
    let r ← RawRecord.ofFields? ["pop"] fields
    return .ret (← r.required 0 Json.word?)
  | ("Jump", .null) => some .jump
  | ("Nop", .null) => some .nop
  | ("Touch", fields) =>
    let r ← RawRecord.ofFields? ["location", "access"] fields
    return .touch (← r.required 0 Location.ofJson?) (← r.required 1 Access.ofJson?)
  | ("Kill", fields) =>
    let r ← RawRecord.ofFields? ["location"] fields
    return .kill (← r.required 0 Location.ofJson?)
  | ("AdjustStack", fields) =>
    let r ← RawRecord.ofFields? ["pointer", "delta"] fields
    return .adjustStack (← r.required 0 Location.ofJson?) (← r.required 1 Json.int64?)
  | _ => none

end StatementKind

namespace Statement

def toJson (s : Statement) : Json :=
  .record [("id", .ofNat s.id), ("address", .ofOption ofAddress s.address), ("kind", s.kind.toJson),
    ("origin", s.origin.toJson)]

def ofJson? (j : Json) : Option Statement := do
  let r ← RawRecord.ofJson? ["id", "address", "kind", "origin"] j
  return ⟨← r.required 0 Json.word?, ← r.nullable 1 Json.uint64?,
    ← r.required 2 StatementKind.ofJson?, ← r.required 3 Origin.ofJson?⟩

end Statement

def Block.toJson (id : BlockId) (b : Block) : Json :=
  .record [("id", .ofNat id), ("address", .ofOption ofAddress b.address),
    ("statements", .ofList Statement.toJson b.statements),
    ("successors", .ofList .ofNat b.successors)]

def Function.toJson (f : Function) : Json :=
  .record [("id", .ofNat f.id), ("name", .text f.name),
    ("entry_address", .ofOption ofAddress f.entryAddress),
    ("blocks", .ofList (fun (block, b) => Block.toJson b block) f.blocks.zipIdx),
    ("next_statement", .ofNat f.nextStatement), ("revision", .ofNat f.revision)]

def ProgramStatement.toJson (s : ProgramStatement) : Json :=
  .record [("address", .ofOption ofAddress s.address), ("kind", s.kind.toJson)]

def ProgramBlock.toJson (b : ProgramBlock) : Json :=
  .record [("address", ofAddress b.address),
    ("statements", .ofList ProgramStatement.toJson b.statements),
    ("successors", .ofList ofAddress b.successors)]

def Program.toJson (p : Program) : Json :=
  .record [("blocks", .ofList ProgramBlock.toJson p.blocks.values),
    ("entries", .ofList ofAddress p.entries.keys),
    ("function_entries", .ofList ofAddress p.functionEntries)]

def Image.toJson (i : Image) : Json :=
  .record [("name", .text i.name), ("architecture", i.architecture.toJson),
    ("entry_point", .ofOption ofAddress i.entryPoint)]

def Instruction.toJson (i : Instruction) : Json :=
  .record [("address", ofAddress i.address), ("size", .ofNat i.size.toNat),
    ("bytes", .ofList (fun b => .ofNat b.toNat) i.bytes), ("mnemonic", .text i.mnemonic),
    ("operands", .text i.operands)]

end CallEffects
