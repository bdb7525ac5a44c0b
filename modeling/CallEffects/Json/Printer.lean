import CallEffects.Json.Basic
import CallEffects.Text.Number

/-!
# Printing JSON

`compact` writes a value without blanks; `pretty` puts every item on a line of its own, two spaces
deeper than its container, and leaves empty containers closed. Both escape quotes, backslashes and
control characters only.
-/

namespace CallEffects.Json

def escape (c : Char) : List Char :=
  if c = '"' then ['\\', '"']
  else if c = '\\' then ['\\', '\\']
  else if c.toNat = 0x08 then ['\\', 'b']
  else if c = '\t' then ['\\', 't']
  else if c = '\n' then ['\\', 'n']
  else if c.toNat = 0x0c then ['\\', 'f']
  else if c = '\r' then ['\\', 'r']
  else if c.toNat < 0x20 then
    ['\\', 'u', '0', '0', Nat.digitChar (c.toNat / 16), Nat.digitChar (c.toNat % 16)]
  else [c]

def printText (s : EscapedText) : String :=
  String.ofList (['"'] ++ (s.getD "").toList.flatMap escape ++ ['"'])

mutual

def compact : Json → String
  | .null => "null"
  | .bool b => if b then "true" else "false"
  | .number lexeme => lexeme
  | .string s => printText s
  | .array items => "[" ++ ",".intercalate (compactItems items) ++ "]"
  | .object fields => "\x7b" ++ ",".intercalate (compactFields fields) ++ "\x7d"

def compactItems : List Json → List String
  | [] => []
  | item :: rest => compact item :: compactItems rest

def compactFields : List (EscapedText × Json) → List String
  | [] => []
  | (name, value) :: rest => (printText name ++ ":" ++ compact value) :: compactFields rest

end

def indent (depth : Nat) : String := String.ofList (List.replicate (2 * depth) ' ')

/-- The lines of a container whose items stand one level deeper than the container. -/
def enclose (depth : Nat) (first last : String) : List String → String
  | [] => first ++ last
  | items =>
    let line := "\n" ++ indent (depth + 1)
    first ++ line ++ ("," ++ line).intercalate items ++ "\n" ++ indent depth ++ last

mutual

def prettyAt (depth : Nat) : Json → String
  | .null => "null"
  | .bool b => if b then "true" else "false"
  | .number lexeme => lexeme
  | .string s => printText s
  | .array items => enclose depth "[" "]" (prettyItems (depth + 1) items)
  | .object fields => enclose depth "\x7b" "\x7d" (prettyFields (depth + 1) fields)

def prettyItems (depth : Nat) : List Json → List String
  | [] => []
  | item :: rest => prettyAt depth item :: prettyItems depth rest

def prettyFields (depth : Nat) : List (EscapedText × Json) → List String
  | [] => []
  | (name, value) :: rest =>
    (printText name ++ ": " ++ prettyAt depth value) :: prettyFields depth rest

end

def pretty (j : Json) : String := prettyAt 0 j

end CallEffects.Json
