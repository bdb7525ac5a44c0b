import CallEffects.Function

/-!
# Ownership of addresses

The function that the statement at an address belongs to. Code that several functions share belongs
to the first of them.
-/

namespace CallEffects

open Std

abbrev Owners := ExtTreeMap Address FunctionId

def Owners.ofFunctions (fs : Functions) : Owners :=
  (fs.flatMap fun f => f.statements.filterMap fun s => s.address.map fun a => (a, f.id)).foldl
    (fun owners (a, f) => owners.insertIfNew a f) ∅

end CallEffects
