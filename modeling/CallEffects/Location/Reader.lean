import CallEffects.Location
import CallEffects.Text.Blank
import CallEffects.Text.Quoted

/-!
# Written operands

The text of a location is a register name, `flags` in any case, `[sp]`, `[sp+N]` or `[sp-N]` for a
stack slot, or `[N]` for a global; blanks are allowed around the whole, inside the brackets and
around the parts. A slot's offset is a 64-bit number read as a signed one. The text of a value is a
number or else a location, and the text of a call target likewise.
-/

namespace CallEffects

inductive OperandError where
  | number (text : List Char) (cause : Text.NumberError)
  | stackSlot (text : List Char)
  | register (arch : Architecture) (text : List Char)
deriving DecidableEq, Repr

def OperandError.message : OperandError → String
  | .number text cause => "invalid number " ++ Text.quoted text ++ ": " ++ cause.message
  | .stackSlot text => "invalid stack slot " ++ Text.quoted text
  | .register arch text => "unknown " ++ arch.name ++ " register " ++ Text.quoted text

def readAddress (text : List Char) : Except OperandError Address :=
  let text := Text.trim text
  (Text.readNumber text).mapError (.number text)

/-- What stands between a pair of brackets around the whole text. -/
def bracketed? : List Char → Option (List Char)
  | '[' :: rest => if rest.getLast? = some ']' then some rest.dropLast else none
  | _ => none

def Location.read (arch : Architecture) (text : List Char) : Except OperandError Location :=
  let text := Text.trim text
  if Text.lowercase (String.ofList text) = "flags" then .ok .flags
  else
    match bracketed? text with
    | some inner =>
      match Text.trim inner with
      | 's' :: 'p' :: rest =>
        match Text.trim rest with
        | [] => .ok (.stack 0)
        | '+' :: magnitude => (fun n => .stack n.toInt64) <$> readAddress magnitude
        | '-' :: magnitude => (fun n => .stack (-n.toInt64)) <$> readAddress magnitude
        | _ => .error (.stackSlot text)
      | inner => .memory <$> readAddress inner
    | none =>
      match Register.ofName? arch (String.ofList text) with
      | some r => .ok (.register r)
      | none => .error (.register arch text)

def Value.read (arch : Architecture) (text : List Char) : Except OperandError Value :=
  match readAddress text with
  | .ok n => .ok (.constant n)
  | .error _ => .location <$> Location.read arch text

end CallEffects
