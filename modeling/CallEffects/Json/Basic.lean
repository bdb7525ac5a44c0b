/-!
# JSON values

A value keeps what its text said: numbers as they were written, object fields in order and repeated
names repeated. A text whose escapes leave half of a surrogate pair alone denotes no characters, and
is kept as `none`.
-/

namespace CallEffects

abbrev EscapedText := Option String

inductive Json where
  | null
  | bool (value : Bool)
  | number (lexeme : String)
  | string (text : EscapedText)
  | array (items : List Json)
  | object (fields : List (EscapedText × Json))
deriving Inhabited

namespace Json

def text (s : String) : Json := .string (some s)

def ofNat (n : Nat) : Json := .number (toString n)

def ofInt (n : Int) : Json := .number (toString n)

def ofOption {α : Type} (f : α → Json) : Option α → Json
  | none => .null
  | some a => f a

def ofList {α : Type} (f : α → Json) (xs : List α) : Json := .array (xs.map f)

def record (fields : List (String × Json)) : Json :=
  .object (fields.map fun (name, value) => (some name, value))

def isNull : Json → Bool
  | .null => true
  | _ => false

def text? : Json → Option String
  | .string s => s
  | _ => none

def bool? : Json → Option Bool
  | .bool b => some b
  | _ => none

def items? : Json → Option (List Json)
  | .array xs => some xs
  | _ => none

/-- A number written with digits alone. -/
def natural? : Json → Option Nat
  | .number lexeme => if lexeme.toList.all Char.isDigit then lexeme.toNat? else none
  | _ => none

/-- A number written with digits and at most a minus sign; minus zero is no integer. -/
def integer? : Json → Option Int
  | .number lexeme =>
    match lexeme.toList with
    | '-' :: digits =>
      if digits.all Char.isDigit && digits != ['0'] then
        (String.ofList digits).toNat?.map fun n => -(n : Int)
      else none
    | _ => (natural? (.number lexeme)).map fun n => (n : Int)
  | _ => none

def naturalBelow? (bound : Nat) (j : Json) : Option Nat := j.natural?.filter (· < bound)

/-- The first value under a name. -/
def field? (name : String) : Json → Option Json
  | .object fields => (fields.find? (·.1 == some name)).map (·.2)
  | _ => none

end Json

end CallEffects
