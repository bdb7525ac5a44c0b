import CallEffects.Instruction
import CallEffects.Proofs.Tables

/-!
# The instruction that covers an address

A set keeps, for each address, the instruction that was added there last. Asked for the instruction
that covers an address, it looks at the nearest start only. So what it gives does cover the address,
and it misses none as long as no instruction starts inside another. Where one does, it may end
before an address that the outer one still covers.
-/

namespace CallEffects

open Std

namespace Instruction

variable {i : Instruction} {a : Address}

def Fits (i : Instruction) : Prop := i.address.toNat + i.size.toNat < UInt64.size

instance : DecidablePred Fits := fun i =>
  inferInstanceAs (Decidable (i.address.toNat + i.size.toNat < UInt64.size))

def Covers (i : Instruction) (a : Address) : Prop :=
  i.address.toNat ≤ a.toNat ∧ a.toNat < i.address.toNat + i.size.toNat

instance (i : Instruction) (a : Address) : Decidable (i.Covers a) :=
  inferInstanceAs (Decidable (_ ∧ _))

theorem Fits.toNat_endAddress (h : i.Fits) :
    i.endAddress.toNat = i.address.toNat + i.size.toNat := by
  rw [endAddress, UInt64.toNat_add, Nat.mod_eq_of_lt h]

theorem Fits.covers_iff (h : i.Fits) : i.Covers a ↔ i.address ≤ a ∧ a < i.endAddress := by
  rw [Covers, UInt64.le_iff_toNat_le, UInt64.lt_iff_toNat_lt, h.toNat_endAddress]

end Instruction

namespace Instructions

variable {is : Instructions} {added : List Instruction} {i j : Instruction} {a : Address}

/-- The instruction was added, and none at its address after it. -/
def Standing (added : List Instruction) (i : Instruction) : Prop :=
  ∃ before after, added = before ++ i :: after ∧ ∀ j ∈ after, j.address ≠ i.address

theorem Standing.mem (h : Standing added i) : i ∈ added := by
  obtain ⟨before, after, rfl, -⟩ := h
  simp

theorem standing_cons {rest : List Instruction} :
    Standing (j :: rest) i ↔
      Standing rest i ∨ (j = i ∧ ∀ k ∈ rest, k.address ≠ i.address) := by
  constructor
  · rintro ⟨before, after, heq, hafter⟩
    cases before with
    | nil =>
      obtain ⟨rfl, rfl⟩ := List.cons.inj heq
      exact .inr ⟨rfl, hafter⟩
    | cons _ before => exact .inl ⟨before, after, (List.cons.inj heq).2, hafter⟩
  · rintro (⟨before, after, rfl, hafter⟩ | ⟨rfl, hrest⟩)
    · exact ⟨j :: before, after, rfl, hafter⟩
    · exact ⟨[], rest, rfl, hrest⟩

theorem get?_add (is : Instructions) (i : Instruction) (a : Address) :
    (is.add i).2.get? a = if i.address = a then some i else is.get? a := by
  split
  · next h =>
    rw [← h]
    exact ExtTreeMap.getElem?_insert_self
  · next h => exact Table.getElem?_insert_of_ne h

theorem get?_addAll :
    (is.addAll added).2.get? a = some i ↔
      (Standing added i ∧ i.address = a) ∨ (is.get? a = some i ∧ ∀ k ∈ added, k.address ≠ a) := by
  induction added generalizing is with
  | nil => simp [addAll, Standing]
  | cons j rest ih =>
    have hrest : (is.addAll (j :: rest)).2 = ((is.add j).2.addAll rest).2 := rfl
    rw [hrest, ih, get?_add, standing_cons, List.forall_mem_cons]
    -- What is added first counts only if it is at the address and nothing after it is.
    by_cases hj : j.address = a
    · subst hj
      simp only [if_pos, ne_eq, not_true_eq_false, false_and, and_false, or_false,
        Option.some.injEq, or_and_right]
      refine or_congr_right ⟨?_, ?_⟩
      · rintro ⟨rfl, hk⟩
        exact ⟨⟨rfl, hk⟩, rfl⟩
      · rintro ⟨⟨rfl, hk⟩, -⟩
        exact ⟨rfl, hk⟩
    · have hnot : ¬((j = i ∧ ∀ k ∈ rest, k.address ≠ i.address) ∧ i.address = a) := by
        rintro ⟨⟨rfl, -⟩, hi⟩
        exact hj hi
      rw [if_neg hj, or_and_right, or_iff_left hnot, and_iff_right hj]

theorem get?_addAll_empty :
    (empty.addAll added).2.get? a = some i ↔ Standing added i ∧ i.address = a := by
  rw [get?_addAll]
  simp [get?, empty]

theorem covering?_eq_some_iff :
    is.covering? a = some i ↔
      ∃ start, is.get? start = some i ∧ start ≤ a ∧
        (∀ s j, is.get? s = some j → s ≤ a → s ≤ start) ∧ a < i.endAddress := by
  simp only [covering?, Option.filter_eq_some_iff, Option.map_eq_some_iff, decide_eq_true_eq]
  constructor
  · rintro ⟨⟨⟨start, i⟩, hentry, rfl⟩, hend⟩
    obtain ⟨hget, hstart, hgreatest⟩ := Table.getEntryLE?_eq_some_iff.mp hentry
    simp only [isLE_compare] at hstart hgreatest
    exact ⟨start, hget, hstart, hgreatest, hend⟩
  · rintro ⟨start, hget, hstart, hgreatest, hend⟩
    refine ⟨⟨(start, i), Table.getEntryLE?_eq_some_iff.mpr ?_, rfl⟩, hend⟩
    simp only [isLE_compare]
    exact ⟨hget, hstart, hgreatest⟩

theorem covering?_addAll_empty (hfit : ∀ i ∈ added, i.Fits) :
    (empty.addAll added).2.covering? a = some i ↔
      Standing added i ∧ i.Covers a ∧
        ∀ j, Standing added j → j.address ≤ a → j.address ≤ i.address := by
  simp only [covering?_eq_some_iff, get?_addAll_empty]
  constructor
  · rintro ⟨start, ⟨hi, rfl⟩, hstart, hgreatest, hend⟩
    exact ⟨hi, (hfit i hi.mem).covers_iff.mpr ⟨hstart, hend⟩,
      fun j hj => hgreatest j.address j ⟨hj, rfl⟩⟩
  · rintro ⟨hi, hcovers, hgreatest⟩
    obtain ⟨hstart, hend⟩ := (hfit i hi.mem).covers_iff.mp hcovers
    refine ⟨i.address, ⟨hi, rfl⟩, hstart, ?_, hend⟩
    rintro s j ⟨hj, rfl⟩
    exact hgreatest j hj

/-- What is found covers the address and starts nearest to it, and it is found whenever no
instruction starts inside another. -/
theorem covering_from_nearest_start (hfit : ∀ i ∈ added, i.Fits) (a : Address) :
    (∀ i, (empty.addAll added).2.covering? a = some i ↔
      Standing added i ∧ i.Covers a ∧
        ∀ j, Standing added j → j.address ≤ a → j.address ≤ i.address) ∧
    ((∀ i j, Standing added i → Standing added j → i.address < j.address →
        ¬i.Covers j.address) →
      (((empty.addAll added).2.covering? a).isSome ↔ ∃ i, Standing added i ∧ i.Covers a)) := by
  refine ⟨fun i => covering?_addAll_empty hfit, fun hapart => ?_⟩
  rw [Option.isSome_iff_exists]
  refine exists_congr fun i => (covering?_addAll_empty hfit).trans ⟨?_, ?_⟩
  · rintro ⟨hi, hcovers, -⟩
    exact ⟨hi, hcovers⟩
  · rintro ⟨hi, hcovers⟩
    refine ⟨hi, hcovers, fun j hj hja => UInt64.not_lt.mp fun hlt => ?_⟩
    refine hapart i j hi hj hlt ⟨Nat.le_of_lt (UInt64.lt_iff_toNat_lt.mp hlt), ?_⟩
    exact Nat.lt_of_le_of_lt (UInt64.le_iff_toNat_le.mp hja) hcovers.2

/-- An instruction that reached into the next one until it was replaced by a shorter one. -/
def shortened : List Instruction :=
  [.ofBytes 0x1000 [0xb8, 0, 0, 0, 0] "mov" "eax, 0",
    .ofBytes 0x1001 [0xe8, 0, 0, 0, 0] "call" "0x1006",
    .ofBytes 0x1000 [0x55] "push" "ebp"]

theorem shortened_covers :
    (∀ i ∈ shortened, i.Fits) ∧
    (∀ i j, Standing shortened i → Standing shortened j → i.address < j.address →
      ¬i.Covers j.address) ∧
    ((empty.addAll shortened).2.covering? 0x1003).isSome ∧
    ∃ i, Standing shortened i ∧ i.Covers 0x1003 := by
  have hfit : ∀ i ∈ shortened, i.Fits := by decide
  have hapart : ∀ i ∈ shortened, (empty.addAll shortened).2.get? i.address = some i →
      ∀ j ∈ shortened, (empty.addAll shortened).2.get? j.address = some j →
        i.address < j.address → ¬i.Covers j.address := by decide
  have hfound : ((empty.addAll shortened).2.covering? 0x1003).isSome := by decide
  have hstanding : ∀ i j, Standing shortened i → Standing shortened j → i.address < j.address →
      ¬i.Covers j.address := fun i j hi hj =>
    hapart i hi.mem (get?_addAll_empty.mpr ⟨hi, rfl⟩) j hj.mem (get?_addAll_empty.mpr ⟨hj, rfl⟩)
  exact ⟨hfit, hstanding, hfound,
    ((covering_from_nearest_start hfit 0x1003).2 hstanding).mp hfound⟩

/-- Code that is jumped into: the operand of the first instruction is code as well. -/
def overlapping : List Instruction :=
  [.ofBytes 0x1000 [0xb8, 0x90, 0x90, 0x90, 0x90] "mov" "eax, 0x90909090",
    .ofBytes 0x1001 [0x90] "nop" ""]

/-- The nearest start hides an instruction that goes on after the inner one has ended. -/
theorem covering_misses_outer :
    (∀ i ∈ overlapping, i.Fits) ∧
    ¬(((empty.addAll overlapping).2.covering? 0x1003).isSome ↔
      ∃ i, Standing overlapping i ∧ i.Covers 0x1003) := by
  refine ⟨by decide, fun hiff => ?_⟩
  have hmissed : ((empty.addAll overlapping).2.covering? 0x1003).isSome = false := by decide
  have houter : ∃ i, Standing overlapping i ∧ i.Covers 0x1003 :=
    ⟨_, ⟨[], _, rfl, by decide⟩, by decide⟩
  rw [hiff.mpr houter] at hmissed
  cases hmissed

end Instructions

end CallEffects
