import CallEffects.JsonForm.Code
import CallEffects.Schedule

/-!
# Conventions, signatures and hooks in JSON

The JSON forms of callees, types, signatures, conventions, snapshots, hooks and statistics.
-/

namespace CallEffects

open Json

namespace StatementRef

def ofJson? : Json → Option StatementRef
  | .array [f, s] => do return ⟨← f.word?, ← s.word?⟩
  | _ => none

end StatementRef

def Callee.ofJson? (j : Json) : Option Callee := do
  match ← j.variant? with
  | ("Address", a) => a.uint64?.map .address
  | ("Function", f) => f.word?.map .function
  | ("Call", r) => (StatementRef.ofJson? r).map .call
  | _ => none

namespace ParamType

def toJson : ParamType → Json
  | .unknown => .text "Unknown"
  | .void => .text "Void"
  | .bool => .text "Bool"
  | .signed bits => variant "SignedInt" (.ofNat bits.toNat)
  | .unsigned bits => variant "UnsignedInt" (.ofNat bits.toNat)
  | .pointer => .text "Pointer"
  | .float bits => variant "Float" (.ofNat bits.toNat)

def ofName? : String → Option ParamType
  | "Unknown" => some .unknown
  | "Void" => some .void
  | "Bool" => some .bool
  | "Pointer" => some .pointer
  | _ => none

/-- A type without a width is its name alone. -/
def ofJson? : Json → Option ParamType
  | .string name => name.bind ofName?
  | j => do
    match ← j.variant? with
    | ("SignedInt", bits) => bits.uint8?.map .signed
    | ("UnsignedInt", bits) => bits.uint8?.map .unsigned
    | ("Float", bits) => bits.uint8?.map .float
    | _ => none

end ParamType

/-- A field that may be left out or `null`. -/
def optionalField {α : Type} (j : Json) (name : String) (read : Json → Option α) :
    Option (Option α) :=
  match j.field? name with
  | none | some .null => some none
  | some value => some <$> read value

def requiredField {α : Type} (j : Json) (name : String) (read : Json → Option α) : Option α :=
  (j.field? name).bind read

namespace FunctionSignature

def toJson (s : FunctionSignature) : Json :=
  .record [("name", .ofOption .text s.name), ("arguments", .ofList ParamType.toJson s.arguments),
    ("returns", .ofOption ParamType.toJson s.returns), ("variadic", .bool s.variadic)]

def ofJson? (j : Json) : Option FunctionSignature := do
  let name ← optionalField j "name" Json.text?
  let arguments ← requiredField j "arguments" (Json.list? ParamType.ofJson?)
  let returns ← optionalField j "returns" ParamType.ofJson?
  let variadic ← optionalField j "variadic" Json.bool?
  return ⟨name, arguments, returns, variadic.getD false⟩

end FunctionSignature

namespace CallSignature

def toJson (s : CallSignature) : Json :=
  .record [("arguments", .ofList ParamType.toJson s.arguments),
    ("returns", .ofOption ParamType.toJson s.returns),
    ("stack_adjustment", .ofOption .ofNat s.stackAdjustment)]

def ofJson? (j : Json) : Option CallSignature := do
  let arguments ← requiredField j "arguments" (Json.list? ParamType.ofJson?)
  let returns ← optionalField j "returns" ParamType.ofJson?
  let adjustment ← optionalField j "stack_adjustment" Json.word?
  return ⟨arguments, returns, adjustment⟩

end CallSignature

namespace Convention

def toJson (c : Convention) : Json :=
  .record [("name", .text c.name), ("architecture", c.architecture.toJson),
    ("stack_pointer", c.stackPointer.toJson), ("return_address_size", .ofNat c.returnAddressSize),
    ("register_arguments", .ofList Location.toJson c.registerArguments),
    ("stack_arguments_offset", .ofInt c.stackArgumentsOffset.toInt),
    ("stack_slot_size", .ofNat c.stackSlotSize),
    ("speculative_stack_arguments", .ofNat c.speculativeStackArguments),
    ("return_values", .ofList Location.toJson c.returnValues),
    ("clobbered", .ofList Location.toJson c.clobbered), ("callee_cleanup", .bool c.calleeCleans)]

def ofJson? (j : Json) : Option Convention := do
  let locations := fun name => requiredField j name (Json.list? Location.ofJson?)
  return {
    name := ← requiredField j "name" Json.text?
    architecture := ← requiredField j "architecture" Architecture.ofJson?
    stackPointer := ← requiredField j "stack_pointer" Location.ofJson?
    returnAddressSize := ← requiredField j "return_address_size" Json.word?
    registerArguments := ← locations "register_arguments"
    stackArgumentsOffset := ← requiredField j "stack_arguments_offset" Json.int64?
    stackSlotSize := ← requiredField j "stack_slot_size" Json.word?
    speculativeStackArguments :=
      ← requiredField j "speculative_stack_arguments" (Json.naturalBelow? UInt64.size)
    returnValues := ← locations "return_values"
    clobbered := ← locations "clobbered"
    cleanup := if ← requiredField j "callee_cleanup" Json.bool? then .callee else .caller }

end Convention

def Constants.toJson (c : Constants) : Json :=
  .ofList (fun (l, v) => .array [l.toJson, ofAddress v]) c.toList

def CallSite.toJson (s : CallSite) : Json :=
  .record [("statement", .ofNat s.statement), ("address", .ofOption ofAddress s.address),
    ("target", .ofOption ofAddress s.target), ("instrumented", .bool s.instrumented)]

/-- A snapshot beside the function it is shown for, if that exists. -/
def Snapshot.toJson (s : Snapshot) (f : Option Function) : Json :=
  let facts := fun (f : Function) =>
    (List.range f.blocks.length).map fun b => Json.ofOption Constants.toJson s.facts[b]?
  .record [("function", .ofNat s.function), ("revision", .ofNat s.revision),
    ("calls", .ofList CallSite.toJson s.calls), ("returns", .ofList .ofNat s.returns),
    ("constants", .array ((f.map facts).getD [])),
    ("current", .ofOption (fun f => .bool (s.isCurrent f)) f)]

def InstrumentStats.toJson (s : InstrumentStats) : Json :=
  .record [("attached", .ofNat s.attached), ("detached", .ofNat s.detached),
    ("inserted", .ofNat s.inserted), ("removed", .ofNat s.removed),
    ("synthesized", .ofNat s.synthesized), ("unresolved", .ofNat s.unresolved),
    ("changed", .bool s.changed)]

def ScheduleStats.toJson (s : ScheduleStats) : Json :=
  .record [("iterations", .ofNat s.iterations), ("converged", .bool s.converged),
    ("instrument", s.instrument.toJson), ("deinstrumented", .ofNat s.deinstrumented)]

def SignatureRef.toJson : SignatureRef → Json
  | .call id => variant "Call" (.ofNat id)
  | .callee id => variant "Callee" (.ofNat id)

def SignatureRef.id : SignatureRef → Nat
  | .call id | .callee id => id

/-- Entries and returns are governed by function signatures, whose number says it all. -/
def Hook.toJson (h : Hook) : Json :=
  let locations := Json.ofList Location.toJson
  let convention := Json.text (ConventionId.render h.key.convention)
  let statements := Json.ofList Statement.toJson h.statements
  let signatureNumber := Json.ofOption (fun (s : SignatureRef) => .ofNat s.id) h.key.signature
  let id := Json.text h.id.render
  match h.anchor with
  | .entry f =>
    .record [("id", id), ("function", .ofNat f), ("convention", convention),
      ("signature", signatureNumber), ("arguments", locations h.effects.arguments),
      ("statements", statements)]
  | .call r =>
    .record [("id", id), ("call", .text r.render), ("convention", convention),
      ("signature", .ofOption SignatureRef.toJson h.key.signature),
      ("stack_adjustment", .ofOption .ofNat h.key.adjustment),
      ("arguments", locations h.effects.arguments),
      ("return_values", locations h.effects.returnValues),
      ("killed", locations h.effects.killed), ("cleanup", .ofNat h.effects.cleanup),
      ("statements", statements)]
  | .ret r =>
    .record [("id", id), ("ret", .text r.render), ("convention", convention),
      ("signature", signatureNumber), ("return_values", locations h.effects.returnValues),
      ("statements", statements)]

end CallEffects
