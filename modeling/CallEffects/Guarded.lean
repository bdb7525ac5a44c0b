/-!
# Guarded registries

A registry is shared by everything that analyses an image, and whoever gives up in the middle of a
change to it leaves it poisoned. Its contents are still there for those who only look, but an
analysis that comes to read it has to stop.
-/

namespace CallEffects

structure Guarded (α : Type) where
  value : α
  poisoned : Bool
deriving DecidableEq

namespace Guarded

variable {α : Type}

def sound (value : α) : Guarded α := ⟨value, false⟩

def poison (g : Guarded α) : Guarded α := { g with poisoned := true }

end Guarded

end CallEffects
