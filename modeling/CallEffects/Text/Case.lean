/-!
# Lower case for names

Names of architectures, registers, conventions and types are plain ASCII words and are compared
without regard to case. `lowercase` maps every character whose lower case is an ASCII letter: the
ASCII capitals and the Kelvin sign. Any other character stays as it is, and no name holds one.
-/

namespace CallEffects.Text

def lowerChar (c : Char) : Char := if c.toNat = 0x212a then 'k' else c.toLower

def lowercase (s : String) : String := String.ofList (s.toList.map lowerChar)

end CallEffects.Text
