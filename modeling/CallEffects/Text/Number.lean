import CallEffects.Text.Blank

/-!
# Numbers in text

Numbers are printed in hexadecimal behind `0x`, and read in decimal, or in hexadecimal behind `0x`
or `0X`. One leading `+` is allowed, and any number of leading zeros. Reading goes from left to
right: the first character that is no digit, or the first digit that carries the value past the
bound, decides which error is reported.
-/

namespace CallEffects.Text

inductive NumberError where
  | empty
  | invalidDigit
  | tooLarge
deriving DecidableEq, Repr

def NumberError.message : NumberError → String
  | .empty => "cannot parse integer from empty string"
  | .invalidDigit => "invalid digit found in string"
  | .tooLarge => "number too large to fit in target type"

def hexDigits (n : Nat) : List Char := Nat.toDigits 16 n

def hex (n : Nat) : String := "0x" ++ String.ofList (hexDigits n)

/-- Like `hex`, with zeros in front of the digits up to the given count of digits. -/
def paddedHex (width n : Nat) : String :=
  let digits := hexDigits n
  "0x" ++ String.ofList (List.replicate (width - digits.length) '0' ++ digits)

def digitValue? (base : Nat) (c : Char) : Option Nat :=
  let value :=
    if '0' ≤ c ∧ c ≤ '9' then some (c.toNat - '0'.toNat)
    else if 'a' ≤ c ∧ c ≤ 'f' then some (c.toNat - 'a'.toNat + 10)
    else if 'A' ≤ c ∧ c ≤ 'F' then some (c.toNat - 'A'.toNat + 10)
    else none
  value.filter (· < base)

/-- Appends the digits to the value read so far; the value stays below `bound`. -/
def readDigits (base bound : Nat) : Nat → List Char → Except NumberError Nat
  | value, [] => .ok value
  | value, c :: rest =>
    match digitValue? base c with
    | none => .error .invalidDigit
    | some d =>
      if value * base + d < bound then readDigits base bound (value * base + d) rest
      else .error .tooLarge

def readUnsigned (base bound : Nat) : List Char → Except NumberError Nat
  | [] => .error .empty
  | ['+'] => .error .invalidDigit
  | '+' :: rest => readDigits base bound 0 rest
  | cs => readDigits base bound 0 cs

/-- Reads a 64-bit number that has no blanks around it. -/
def readNumber : List Char → Except NumberError UInt64
  | '0' :: 'x' :: rest => UInt64.ofNat <$> readUnsigned 16 UInt64.size rest
  | '0' :: 'X' :: rest => UInt64.ofNat <$> readUnsigned 16 UInt64.size rest
  | cs => UInt64.ofNat <$> readUnsigned 10 UInt64.size cs

end CallEffects.Text
