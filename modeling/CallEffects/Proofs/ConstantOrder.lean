import CallEffects.Constants
import CallEffects.Proofs.Tables
import Mathlib.Data.List.Perm.Subperm

/-!
# Knowing more constants

`Within` compares tables of constants: one knows at least what the other knows. Every statement
keeps the order of the tables it is given, also when it moves the stack pointer, and adds one fact
at most. A call that has become hooked only keeps more. Going down in the order makes a table
smaller, so that facts are lost a bounded number of times.
-/

namespace CallEffects

open Std

namespace Constants

/-- Whatever is known here is known there. -/
def Within (known other : Constants) : Prop :=
  ∀ (l : Location) (v : UInt64), known[l]? = some v → other[l]? = some v

variable {a b c : Constants} {l : Location}

theorem Within.refl (a : Constants) : a.Within a := fun _ _ h => h

theorem Within.trans (h : a.Within b) (h' : b.Within c) : a.Within c :=
  fun l v hl => h' l v (h l v hl)

theorem Within.antisymm (h : a.Within b) (h' : b.Within a) : a = b := by
  apply ExtTreeMap.ext_getElem?
  intro l
  apply Option.ext
  intro v
  exact ⟨h l v, h' l v⟩

theorem empty_within (a : Constants) : Within ∅ a := by
  intro l v h
  simp at h

theorem eq_empty_of_within (h : a.Within ∅) : a = ∅ := by
  apply ExtTreeMap.ext_getElem?
  intro l
  cases hl : a[l]? with
  | none => rfl
  | some v => exact (h l v hl).symm

/-! ## Size -/

theorem mem_toList {v : UInt64} : (l, v) ∈ a.toList ↔ a[l]? = some v :=
  ExtTreeMap.mem_toList_iff_getElem?_eq_some

theorem nodup_toList (a : Constants) : a.toList.Nodup := by
  refine a.distinct_keys_toList.imp ?_
  rintro x y hne rfl
  exact hne ReflCmp.compare_self

theorem Within.subperm (h : a.Within b) : List.Subperm a.toList b.toList := by
  refine List.subperm_of_subset a.nodup_toList ?_
  rintro ⟨l, v⟩ hx
  exact mem_toList.mpr (h l v (mem_toList.mp hx))

theorem Within.size_lt (h : a.Within b) (hne : a ≠ b) : a.size < b.size := by
  rw [← a.length_toList, ← b.length_toList]
  apply Nat.lt_of_le_of_ne h.subperm.length_le
  intro hlen
  exact hne (ExtTreeMap.ext_toList (h.subperm.perm_of_length_le (Nat.le_of_eq hlen.symm)))

theorem Within.size_le (h : a.Within b) : a.size ≤ b.size := by
  rw [← a.length_toList, ← b.length_toList]
  exact h.subperm.length_le

theorem size_set_le (a : Constants) (l : Location) (x : Option UInt64) :
    (a.set l x).size ≤ a.size + 1 := by
  cases x with
  | none => exact Nat.le_trans ExtTreeMap.size_erase_le (Nat.le_succ _)
  | some v => exact ExtTreeMap.size_insert_le

theorem size_shiftStack_le (a : Constants) (delta : Int64) : (a.shiftStack delta).size ≤ a.size := by
  refine Nat.le_trans ExtTreeMap.size_ofList_le ?_
  rw [List.length_map]
  exact Nat.le_of_eq a.length_toList

/-! ## What keeps the order -/

theorem Within.set (h : a.Within b) {x y : Option UInt64} (hxy : ∀ v, x = some v → y = some v) :
    (a.set l x).Within (b.set l y) := by
  intro k v hk
  by_cases hl : l = k
  · subst hl
    rw [getElem?_set_self] at hk ⊢
    exact hxy v hk
  · rw [getElem?_set_of_ne _ _ hl] at hk ⊢
    exact h k v hk

theorem Within.evaluate (h : a.Within b) (src : Value) {v : UInt64} (hv : a.evaluate src = some v) :
    b.evaluate src = some v := by
  cases src with
  | constant c => exact hv
  | location l => exact h l v hv

theorem shiftLocation_neg (delta : Int64) (l : Location) :
    shiftLocation delta (shiftLocation (-delta) l) = l := by
  cases l with
  | stack offset =>
    simp only [shiftLocation, Location.stack.injEq]
    grind
  | register | memory | flags => rfl

theorem shiftLocation_inj (delta : Int64) {l k : Location}
    (h : shiftLocation delta l = shiftLocation delta k) : l = k := by
  have hback : ∀ l, shiftLocation (-delta) (shiftLocation delta l) = l := by
    intro l
    have hneg := shiftLocation_neg (-delta) l
    rwa [Int64.neg_neg] at hneg
  rw [← hback l, h, hback]

theorem getElem?_shiftStack (a : Constants) (delta : Int64) (l : Location) (v : UInt64) :
    (a.shiftStack delta)[l]? = some v ↔ a[shiftLocation (-delta) l]? = some v := by
  have hdistinct : (a.toList.map fun x => (shiftLocation delta x.1, x.2)).Pairwise
      fun x y => ¬compare x.1 y.1 = .eq := by
    rw [List.pairwise_map]
    refine a.distinct_keys_toList.imp ?_
    intro x y hne heq
    refine hne ?_
    rw [shiftLocation_inj delta (LawfulEqCmp.eq_of_compare heq)]
    exact ReflCmp.compare_self
  have hfound : ∀ v, a[shiftLocation (-delta) l]? = some v → (a.shiftStack delta)[l]? = some v := by
    intro v hv
    refine ExtTreeMap.getElem?_ofList_of_mem (k := l) ReflCmp.compare_self hdistinct ?_
    exact List.mem_map.mpr ⟨_, mem_toList.mpr hv, by simp only [shiftLocation_neg]⟩
  refine ⟨?_, hfound v⟩
  intro hv
  cases hsource : a[shiftLocation (-delta) l]? with
  | some w => rw [← hv, hfound w hsource]
  | none =>
    have hmissing : (a.shiftStack delta)[l]? = none := by
      apply ExtTreeMap.getElem?_ofList_of_contains_eq_false
      rw [← Bool.not_eq_true, List.contains_iff_mem, List.map_map]
      intro hmem
      obtain ⟨⟨k, w⟩, hk, rfl⟩ := List.mem_map.mp hmem
      have hback : shiftLocation (-delta) (shiftLocation delta k) = k := by
        have hneg := shiftLocation_neg (-delta) k
        rwa [Int64.neg_neg] at hneg
      simp only [Function.comp_apply, hback] at hsource
      rw [mem_toList.mp hk] at hsource
      cases hsource
    rw [hmissing] at hv
    cases hv

theorem Within.shiftStack (h : a.Within b) (delta : Int64) :
    (a.shiftStack delta).Within (b.shiftStack delta) := by
  intro l v hl
  rw [getElem?_shiftStack] at hl ⊢
  exact h _ v hl

theorem Within.adjustStack (h : a.Within b) (pointer : Location) (delta : Int64) :
    (a.adjustStack pointer delta).Within (b.adjustStack pointer delta) := by
  refine (h.shiftStack delta).set fun v hv => ?_
  obtain ⟨w, hw, rfl⟩ := Option.map_eq_some_iff.mp hv
  rw [h pointer w hw]
  rfl

end Constants

open Constants

variable {a b : Constants} {s : Statement} {next next' : Option Statement} {ss : List Statement}

theorem Constants.Within.transfer (h : a.Within b) (s : Statement)
    (hn : isHookedCall next → isHookedCall next') :
    (s.transfer next a).Within (s.transfer next' b) := by
  unfold Statement.transfer
  split
  · exact h.set fun v hv => h.evaluate _ hv
  · split
    · next hhook =>
      rw [if_pos (hn hhook)]
      exact h
    · exact empty_within _
  · exact h.set fun v hv => hv
  · exact h.set fun v hv => hv
  · exact h.adjustStack _ _
  all_goals exact h

theorem Constants.Within.walk (h : a.Within b) (ss : List Statement) :
    (walk ss a).Within (walk ss b) := by
  induction ss generalizing a b with
  | nil => exact h
  | cons s ss ih => exact ih (h.transfer s id)

theorem size_transfer_le (s : Statement) (next : Option Statement) (a : Constants) :
    (s.transfer next a).size ≤ a.size + 1 := by
  unfold Statement.transfer
  split
  · exact size_set_le _ _ _
  · split
    · exact Nat.le_succ _
    · exact Nat.zero_le _
  · exact size_set_le _ _ _
  · exact size_set_le _ _ _
  · exact Nat.le_trans (size_set_le _ _ _) (Nat.succ_le_succ (size_shiftStack_le _ _))
  all_goals exact Nat.le_succ _

theorem size_walk_le (ss : List Statement) (a : Constants) :
    (walk ss a).size ≤ a.size + ss.length := by
  induction ss generalizing a with
  | nil => exact Nat.le_refl _
  | cons s ss ih =>
    have hrest := ih (s.transfer ss.head? a)
    have hone := size_transfer_le s ss.head? a
    rw [List.length_cons]
    exact Nat.le_trans hrest (by omega)

end CallEffects
