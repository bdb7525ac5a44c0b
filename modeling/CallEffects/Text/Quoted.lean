import CallEffects.Text.Graphic
import CallEffects.Text.Number

/-!
# Quoted text

Messages quote the text they are about between double quotes. A double quote and a backslash get a
backslash, tab, line feed, carriage return and the null character have short escapes, and any other
character that does not show itself is written as its code point between braces.
-/

namespace CallEffects.Text

def escape (c : Char) : List Char :=
  if c = '"' then ['\\', '"']
  else if c = '\\' then ['\\', '\\']
  else if c = '\t' then ['\\', 't']
  else if c = '\n' then ['\\', 'n']
  else if c = '\r' then ['\\', 'r']
  else if c.toNat = 0 then ['\\', '0']
  else if isGraphic c then [c]
  else ['\\', 'u', '\x7b'] ++ hexDigits c.toNat ++ ['\x7d']

def quoted (s : List Char) : String := String.ofList (['"'] ++ s.flatMap escape ++ ['"'])

end CallEffects.Text
