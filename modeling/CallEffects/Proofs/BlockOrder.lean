import CallEffects.Description
import CallEffects.Proofs.Tables

/-!
# Blocks are described in any order

The blocks of a description are resolved and added one after the other, and the first fault stops the
loading. Which fault is the first depends on the order of the blocks, but nothing else does: two
blocks that are added in either order give the same program or fail in both, and so do all
permutations of a list of blocks. What comes after the blocks reads the program only.
-/

namespace CallEffects

open Std

/-! ## Steps that commute up to their faults -/

section Commuting

variable {ε α β : Type}

theorem toOption_bind (x : Except ε α) (k : α → Except ε β) :
    (x >>= k).toOption = x.toOption.bind fun a => (k a).toOption := by
  cases x <;> rfl

theorem toOption_eq_some_iff {x : Except ε α} {a : α} : x.toOption = some a ↔ x = .ok a := by
  cases x <;> simp [Except.toOption]

theorem toOption_bind_congr {x y : Except ε α} (h : x.toOption = y.toOption)
    (k : α → Except ε β) : (x >>= k).toOption = (y >>= k).toOption := by
  rw [toOption_bind, toOption_bind, h]

/-- Two steps in either order come to the same, or fail both times. -/
def Commutes (step : β → α → Except ε β) : Prop :=
  ∀ s a b, (step s a >>= fun t => step t b).toOption = (step s b >>= fun t => step t a).toOption

theorem Commutes.foldlM_perm {step : β → α → Except ε β} (hstep : Commutes step) {as bs : List α}
    (h : as.Perm bs) (s : β) : (as.foldlM step s).toOption = (bs.foldlM step s).toOption := by
  induction h generalizing s with
  | nil => rfl
  | cons a _ ih =>
    rw [List.foldlM_cons, List.foldlM_cons, toOption_bind, toOption_bind]
    congr 1
    funext t
    exact ih t
  | swap a b as =>
    have hswap := toOption_bind_congr (hstep s b a) fun t => as.foldlM step t
    simpa only [List.foldlM_cons, bind_assoc] using hswap
  | trans _ _ ih ih' => exact (ih s).trans (ih' s)

end Commuting

/-! ## Adding blocks -/

namespace Program

theorem toOption_addBlock (p : Program) (x : ProgramBlock) :
    (p.addBlock x).toOption =
      if p.blocks.contains x.address then none
      else some { p with blocks := p.blocks.insert x.address x } := by
  unfold addBlock
  split <;> rfl

theorem toOption_addBlock_addBlock (p : Program) (x y : ProgramBlock) :
    (p.addBlock x >>= fun q => q.addBlock y).toOption =
      if p.blocks.contains x.address ∨ p.blocks.contains y.address ∨ x.address = y.address then none
      else some { p with
        blocks := (p.blocks.insert x.address x).insert y.address y } := by
  rw [toOption_bind, toOption_addBlock]
  by_cases hx : p.blocks.contains x.address
  · simp [hx]
  · have hsecond : (p.blocks.insert x.address x).contains y.address =
        (decide (x.address = y.address) || p.blocks.contains y.address) := by
      rw [ExtTreeMap.contains_insert, Bool.eq_iff_iff]
      simp [LawfulEqCmp.compare_eq_iff_eq]
    rw [if_neg hx, Option.bind_some, toOption_addBlock, hsecond]
    by_cases hy : p.blocks.contains y.address <;> by_cases hxy : x.address = y.address <;>
      simp [hx, hy, hxy]

/-- Only blocks at one address get into each other's way, in whichever order they come. -/
theorem addBlock_comm (p : Program) (x y : ProgramBlock) :
    (p.addBlock x >>= fun q => q.addBlock y).toOption =
      (p.addBlock y >>= fun q => q.addBlock x).toOption := by
  rw [toOption_addBlock_addBlock, toOption_addBlock_addBlock]
  by_cases hxy : x.address = y.address
  · simp [hxy]
  · rw [Table.insert_comm hxy]
    congr 1
    simp only [eq_iff_iff, eq_comm (a := y.address)]
    exact or_left_comm

end Program

namespace Description

theorem toOption_addBlock (arch : Architecture) (p : Program) (b : BlockDescription) :
    (addBlock arch p b).toOption =
      (resolveBlock arch b).toOption.bind fun block => (p.addBlock block).toOption := by
  rw [addBlock, toOption_bind]
  congr 1
  funext block
  cases p.addBlock block <;> rfl

theorem commutes_addBlock (arch : Architecture) : Commutes (addBlock arch) := by
  intro p a b
  rw [toOption_bind, toOption_bind]
  simp only [toOption_addBlock]
  cases resolveBlock arch a with
  | error e =>
    have hnone : ∀ q : Option Program, q.bind (fun _ => (none : Option Program)) = none := by simp
    exact (hnone _).symm
  | ok x =>
    cases resolveBlock arch b with
    | error e => simp [Except.toOption]
    | ok y =>
      have hcomm := p.addBlock_comm x y
      rw [toOption_bind, toOption_bind] at hcomm
      exact hcomm

theorem toOption_load_perm {d : Description} {blocks : List BlockDescription}
    (h : d.blocks.Perm blocks) : d.load.toOption = { d with blocks }.load.toOption := by
  unfold load
  cases Architecture.ofName? d.architecture with
  | none => rfl
  | some arch => exact toOption_bind_congr ((commutes_addBlock arch).foldlM_perm h .empty) _

/-- With its blocks in another order a description loads if it loads at all, and nothing of what is
loaded depends on that order; nor do the functions that are built from it, down to their ids. -/
theorem load_in_any_order {d : Description} {blocks : List BlockDescription}
    (h : d.blocks.Perm blocks) :
    ((∃ l, d.load = .ok l) ↔ ∃ l, { d with blocks }.load = .ok l) ∧
    ∀ l l', d.load = .ok l → { d with blocks }.load = .ok l' →
      l'.image = l.image ∧ l'.program = l.program ∧ l'.conventions = l.conventions ∧
        l'.signatures = l.signatures ∧ l'.program.buildFunctions = l.program.buildFunctions := by
  have hload := toOption_load_perm h
  have hok : ∀ l, d.load = .ok l ↔ { d with blocks }.load = .ok l := by
    intro l
    rw [← toOption_eq_some_iff, ← toOption_eq_some_iff, hload]
  refine ⟨exists_congr hok, ?_⟩
  intro l l' hl hl'
  obtain rfl : l = l' := Except.ok.inj (((hok l).mp hl).symm.trans hl')
  exact ⟨rfl, rfl, rfl, rfl, rfl⟩

/-- A block that is entered by name and calls the next, with their addresses in two spellings. -/
def sample : Description where
  name := "sample"
  architecture := "x86"
  entries := [⟨.text "0x1000", some "main"⟩]
  blocks := [⟨.text " 4096", [.number 0x1010], [⟨none, .call "0x2000"⟩]⟩,
    ⟨.number 0x1010, [], [⟨none, .ret 0⟩]⟩, ⟨.text "+8192", [], [⟨none, .ret 4⟩]⟩]
  conventions := ExtTreeMap.ofList [("0x2000", "stdcall")]
  signatures := ∅

theorem sample_loads_in_any_order : ∃ l l' fs,
    Description.sample.blocks.Perm Description.sample.blocks.reverse ∧
    Description.sample.load = .ok l ∧
    { Description.sample with blocks := Description.sample.blocks.reverse }.load = .ok l' ∧
    l'.program = l.program ∧ l'.conventions = l.conventions ∧
    l.program.buildFunctions = .ok fs ∧ l'.program.buildFunctions = .ok fs ∧ fs.length = 2 := by
  have hloads : Description.sample.load.toOption.any fun l =>
      l.program.buildFunctions.toOption.any fun fs => fs.length == 2 := by
    decide +kernel
  obtain ⟨l, hl, hbuild⟩ := (Option.any_eq_true _ _).mp hloads
  obtain ⟨fs, hfs, hlength⟩ := (Option.any_eq_true _ _).mp hbuild
  have hl := toOption_eq_some_iff.mp hl
  have hfs := toOption_eq_some_iff.mp hfs
  have hperm := (List.reverse_perm Description.sample.blocks).symm
  obtain ⟨hiff, hsame⟩ := load_in_any_order hperm
  obtain ⟨l', hl'⟩ := hiff.mp ⟨l, hl⟩
  obtain ⟨-, hprogram, hconventions, -, hfunctions⟩ := hsame l l' hl hl'
  exact ⟨l, l', fs, hperm, hl, hl', hprogram, hconventions, hfs, hfunctions.trans hfs,
    beq_iff_eq.mp hlength⟩

end Description

end CallEffects
