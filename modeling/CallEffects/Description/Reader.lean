import CallEffects.Description
import CallEffects.Json.Range
import CallEffects.Json.Reader
import CallEffects.JsonForm.Record

/-!
# Reading descriptions

A description is a JSON object. Each record of it is an object with known fields, none of them
twice, other fields being skipped unseen, or an array of its fields in order. Fields left out take
their defaults; `null` stands only for an entry's name, a statement's address and a signature's name
and return type. A statement names its operation in `op`, which comes first if it is an array; its
unknown fields are held until the operation is known, so they have to be values that can be held.
-/

namespace CallEffects

open Std

/-- The last of several values under one key counts. -/
def readTable {α : Type} (read : Json → Option α) : Json → Option (ExtTreeMap String α)
  | .object fields =>
    fields.foldlM (fun table (key, value) => do return table.insert (← key) (← read value)) ∅
  | _ => none

namespace WrittenAddress

def ofJson? : Json → Option WrittenAddress
  | .string s => s.map .text
  | j => j.uint64?.map .number

end WrittenAddress

namespace StatementDescription

/-- The fields of an operation besides `op`. -/
def fieldNames? : String → Option (List String)
  | "assign" => some ["address", "dst", "src"]
  | "call" => some ["address", "target"]
  | "return" => some ["address", "pop"]
  | "jump" | "nop" => some ["address"]
  | _ => none

def ofRecord? (op : String) (r : RawRecord) : Option StatementDescription := do
  let address ← r.nullable 0 WrittenAddress.ofJson?
  let operation ←
    match op with
    | "assign" => do some (.assign (← r.required 1 Json.text?) (← r.required 2 Json.text?))
    | "call" => do some (.call (← r.required 1 Json.text?))
    | "return" => do some (.ret (← r.defaulted 1 0 Json.word?))
    | "jump" => some .jump
    | "nop" => some .nop
    | _ => none
  some ⟨address, operation⟩

/-- Containers may be nested 127 deep, and a statement stands five deep in its description. -/
def heldDepth : Nat := 122

def ofJson? (j : Json) : Option StatementDescription := do
  guard (j.isHoldable (heldDepth + 1))
  match j with
  | .object fields =>
    let op ← (← RawRecord.lookupOnce? fields "op") >>= Json.text?
    let others := fields.filter (·.1 != some "op")
    ofRecord? op (← RawRecord.ofJson? (← fieldNames? op) (.object others))
  | .array (op :: items) =>
    let op ← op.text?
    ofRecord? op (← RawRecord.ofJson? (← fieldNames? op) (.array items))
  | _ => none

end StatementDescription

namespace EntryDescription

def ofJson? (j : Json) : Option EntryDescription := do
  let r ← RawRecord.ofJson? ["address", "name"] j
  return ⟨← r.required 0 WrittenAddress.ofJson?, ← r.nullable 1 Json.text?⟩

end EntryDescription

namespace BlockDescription

def ofJson? (j : Json) : Option BlockDescription := do
  let r ← RawRecord.ofJson? ["address", "successors", "statements"] j
  return ⟨← r.required 0 WrittenAddress.ofJson?,
    ← r.defaulted 1 [] (Json.list? WrittenAddress.ofJson?),
    ← r.required 2 (Json.list? StatementDescription.ofJson?)⟩

end BlockDescription

namespace SignatureDescription

def ofJson? (j : Json) : Option SignatureDescription := do
  let r ← RawRecord.ofJson? ["name", "arguments", "returns", "variadic"] j
  return ⟨← r.nullable 0 Json.text?, ← r.defaulted 1 [] (Json.list? Json.text?),
    ← r.nullable 2 Json.text?, ← r.defaulted 3 false Json.bool?⟩

end SignatureDescription

namespace Description

def ofJson? (j : Json) : Option Description := do
  let r ← RawRecord.ofJson?
    ["name", "architecture", "entries", "blocks", "conventions", "signatures"] j
  return ⟨← r.defaulted 0 "program" Json.text?, ← r.defaulted 1 "x86" Json.text?,
    ← r.defaulted 2 [] (Json.list? EntryDescription.ofJson?),
    ← r.required 3 (Json.list? BlockDescription.ofJson?),
    ← r.defaulted 4 ∅ (readTable Json.text?),
    ← r.defaulted 5 ∅ (readTable SignatureDescription.ofJson?)⟩

def parse? (text : String) : Option Description := do ofJson? (← Json.parse? text)

end Description

end CallEffects
