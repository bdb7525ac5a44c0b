import Std.Data.ExtTreeMap

/-!
# Orders given by ranks

Tables are sorted by key. A key type gets its order from a rank, a list of numbers compared from
the left. The order is total for every rank, and it tells different keys apart when the rank does.
-/

namespace CallEffects

open Std

variable {α : Type}

/-- The order of the ranks. -/
abbrev compareRank (rank : α → List Nat) : α → α → Ordering := compareOn rank

instance transCmp_compareRank (rank : α → List Nat) : TransCmp (compareRank rank) :=
  inferInstanceAs (TransCmp (compareOn rank))

theorem lawfulEqCmp_compareRank {rank : α → List Nat} (h : ∀ a b, rank a = rank b → a = b) :
    LawfulEqCmp (compareRank rank) where
  eq_of_compare hc :=
    h _ _ (LawfulEqCmp.eq_of_compare (show compare (rank _) (rank _) = .eq from hc))

end CallEffects
