import CallEffects.Json.Basic

/-!
# Values that can be held

A reader that keeps a value for later needs more than its grammar: every text denotes characters,
every number has a finite double, and containers are nested to a limited depth. A number gets its
double from its leading digits, as many as fit 64 bits, and the power of ten that stands for the
others: both are rounded, and then their product is. `isHoldable depth` says of a value that it may
be held and nests at most `depth` containers.
-/

namespace CallEffects.Json

/-- Half a unit in the last place above the largest double; what reaches it has no finite double. -/
def doubleBound : Nat := Nat.pow 2 1024 - Nat.pow 2 970

/-- The number with 53 significant bits that is nearest, and the even one of two equally near. -/
def nearestDouble (n : Nat) : Nat :=
  let unit := Nat.pow 2 (n.log2 - 52)
  let quotient := n / unit
  let rest := n % unit
  if unit < 2 * rest ∨ (unit = 2 * rest ∧ quotient % 2 = 1) then (quotient + 1) * unit
  else quotient * unit

def digitOf (c : Char) : Nat := c.toNat - '0'.toNat

def decimal (digits : List Char) : Nat := digits.foldl (fun n c => n * 10 + digitOf c) 0

/-- Appends digits to a value while it stays below the bound, and gives back those left over. -/
def appendDigits (bound : Nat) : Nat → List Char → Nat × List Char
  | value, [] => (value, [])
  | value, c :: rest =>
    if value * 10 + digitOf c < bound then appendDigits bound (value * 10 + digitOf c) rest
    else (value, c :: rest)

/-- The leading digits of a number as a whole number, and the power of ten it is scaled by. -/
def scientific (lexeme : List Char) : Nat × Int :=
  let unsigned := lexeme.dropWhile (· == '-')
  let isMark := fun (c : Char) => c == 'e' || c == 'E'
  let mantissa := unsigned.takeWhile fun c => !isMark c
  let whole := mantissa.takeWhile (· != '.')
  let fraction := (mantissa.dropWhile (· != '.')).drop 1
  let exponent : Int :=
    match (unsigned.dropWhile fun c => !isMark c).drop 1 with
    | '-' :: ds => -(decimal ds : Int)
    | '+' :: ds => decimal ds
    | ds => decimal ds
  let (leading, skipped) := appendDigits UInt64.size 0 whole
  let (leading, unread) := appendDigits UInt64.size leading fraction
  (leading, exponent + skipped.length - (fraction.length - unread.length : Nat))

def isFiniteDouble (lexeme : String) : Bool :=
  let (leading, exponent) := scientific lexeme.toList
  if leading = 0 ∨ exponent < 0 then true
  else if 308 < exponent then false
  else
    decide (nearestDouble leading * nearestDouble (Nat.pow 10 exponent.toNat) < doubleBound)

mutual

def isHoldable (depth : Nat) : Json → Bool
  | .null | .bool _ => true
  | .number lexeme => isFiniteDouble lexeme
  | .string s => s.isSome
  | .array items => depth != 0 && areHoldable (depth - 1) items
  | .object fields => depth != 0 && fieldsHoldable (depth - 1) fields

def areHoldable (depth : Nat) : List Json → Bool
  | [] => true
  | item :: rest => isHoldable depth item && areHoldable depth rest

def fieldsHoldable (depth : Nat) : List (EscapedText × Json) → Bool
  | [] => true
  | (name, value) :: rest =>
    name.isSome && isHoldable depth value && fieldsHoldable depth rest

end

end CallEffects.Json
