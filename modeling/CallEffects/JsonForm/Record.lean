import CallEffects.Json.Basic

/-!
# Records and variants in JSON

A record is written as an object with known fields, none of them twice, or as an array of its fields
in order; fields it does not know are skipped. A variant is written as an object with its name as
the only field and what it carries as the value, or as the name alone if it carries nothing. Where a
variant carries fields, they are an object and never an array.
-/

namespace CallEffects

/-- The values of the fields of a record, `none` for a field left out. -/
structure RawRecord where
  values : List (Option Json)
  /-- Written as an array, which can leave out fields at its end only. -/
  positional : Bool

namespace RawRecord

def lookupOnce? (fields : List (EscapedText × Json)) (name : String) : Option (Option Json) :=
  match fields.filter (·.1 == some name) with
  | [] => some none
  | [(_, value)] => some (some value)
  | _ => none

/-- Fields written as an object. -/
def ofFields? (names : List String) : Json → Option RawRecord
  | .object fields => do
    guard (fields.all (·.1.isSome))
    let values ← names.mapM (lookupOnce? fields)
    some ⟨values, false⟩
  | _ => none

def ofJson? (names : List String) : Json → Option RawRecord
  | .array items => do
    guard (items.length ≤ names.length)
    some ⟨(List.range names.length).map fun i => items[i]?, true⟩
  | j => ofFields? names j

def get (r : RawRecord) (i : Nat) : Option Json := (r.values[i]?).join

def required {α : Type} (r : RawRecord) (i : Nat) (read : Json → Option α) : Option α :=
  (r.get i).bind read

def defaulted {α : Type} (r : RawRecord) (i : Nat) (default : α) (read : Json → Option α) :
    Option α :=
  match r.get i with
  | none => some default
  | some value => read value

/-- A field that may be `null`, and may be left out of an object. -/
def nullable {α : Type} (r : RawRecord) (i : Nat) (read : Json → Option α) : Option (Option α) :=
  match r.get i with
  | none => if r.positional then none else some none
  | some .null => some none
  | some value => some <$> read value

end RawRecord

namespace Json

def list? {α : Type} (read : Json → Option α) (j : Json) : Option (List α) := do
  (← j.items?).mapM read

/-- The name of a variant and what it carries, `null` if that is nothing. -/
def variant? : Json → Option (String × Json)
  | .string s => do return (← s, .null)
  | .object [(name, value)] => do return (← name, value)
  | _ => none

def variant (name : String) (value : Json) : Json := .record [(name, value)]

def uint16? (j : Json) : Option UInt16 := (j.naturalBelow? UInt16.size).map UInt16.ofNat

def uint64? (j : Json) : Option UInt64 := (j.naturalBelow? UInt64.size).map UInt64.ofNat

def uint8? (j : Json) : Option UInt8 := (j.naturalBelow? UInt8.size).map UInt8.ofNat

/-- A 32-bit count or number. -/
def word? (j : Json) : Option Nat := j.naturalBelow? UInt32.size

def int64? (j : Json) : Option Int64 :=
  (j.integer?.filter fun n => Int64.minValue.toInt ≤ n && n ≤ Int64.maxValue.toInt).map Int64.ofInt

def ofAddress (a : UInt64) : Json := .ofNat a.toNat

end Json

end CallEffects
