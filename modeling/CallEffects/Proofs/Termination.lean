import CallEffects.Proofs.Worklist
import Mathlib.Data.Nat.Find

/-!
# The worklist runs empty

`Progress.after` repeats the step of the propagation without asking how much of the budget is left.
The stack is empty after at most as many steps as the budget allows, whatever the graph and the
statements are. Moving the stack pointer renames slots, so a loop can mention ever new locations; no
bound on these is needed, since the facts at the exit of a block are never more than there are
statements and only get fewer once the block has been visited.
-/

namespace CallEffects

open Std

namespace Propagation

variable {f : Function} {p : Progress} {b : BlockId} {exit : Constants} {n m : Nat}

namespace Progress

theorem step_of_nil (hp : p.pending = []) : p.step f = p := by
  rw [step, hp]

theorem run_succ (f : Function) (n : Nat) (p : Progress) :
    p.run f (n + 1) = (p.run f n).step f := by
  induction n generalizing p with
  | zero =>
    rw [run, run]
    split
    · next hempty => exact (step_of_nil (List.isEmpty_iff.mp hempty)).symm
    · rfl
  | succ n ih =>
    rw [run]
    split
    · next hempty =>
      rw [run, if_pos hempty]
      exact (step_of_nil (List.isEmpty_iff.mp hempty)).symm
    · next hwaits => rw [ih, run, if_neg hwaits]

def after (f : Function) : Nat → Progress
  | 0 => start
  | n + 1 => (after f n).step f

theorem run_start_eq_after (f : Function) (n : Nat) : start.run f n = after f n := by
  induction n with
  | zero => rfl
  | succ n ih => rw [run_succ, ih, after]

theorem sound_after (f : Function) (n : Nat) : (after f n).Sound f := by
  induction n with
  | zero => exact sound_start f
  | succ n ih => exact ih.step

theorem after_of_nil (hp : (after f n).pending = []) (hle : n ≤ m) : after f m = after f n := by
  induction hle with
  | refl => rfl
  | step _ ih => rw [after, ih, step_of_nil hp]

/-- Every step that is taken uses up some of the load. -/
theorem load_after_le (hwaits : ∀ k < n, (after f k).pending ≠ []) :
    (after f n).load f + n ≤ budget f := by
  induction n with
  | zero => exact Nat.le_of_eq (load_start f)
  | succ n ih =>
    have hlt : (after f (n + 1)).load f < (after f n).load f :=
      (sound_after f n).load_lt (hwaits n (Nat.lt_succ_self n))
    have hle := ih fun k hk => hwaits k (Nat.lt_succ_of_lt hk)
    omega

theorem exists_after_eq_nil (f : Function) : ∃ n, (after f n).pending = [] := by
  by_contra hnever
  have hle := load_after_le (n := budget f + 1) fun k _ hk => hnever ⟨k, hk⟩
  omega

/-- A step takes no exit facts back and adds none to a block that has them. -/
theorem Sound.step_shrinks (h : p.Sound f) (hexit : p.exits[b]? = some exit) :
    ∃ exit', (p.step f).exits[b]? = some exit' ∧ Constants.Within exit' exit := by
  rcases p.step_cases f with ⟨-, heq⟩ | ⟨c, rest, -, -, heq⟩ | ⟨c, block, hv⟩
  · rw [heq]
    exact ⟨exit, hexit, .refl _⟩
  · rw [heq]
    exact ⟨exit, hexit, .refl _⟩
  · exact h.shrinks hv b exit hexit

theorem size_exit_after_le (hexit : (after f n).exits[b]? = some exit) :
    ExtTreeMap.size exit ≤ f.statements.length :=
  Nat.le_trans ((sound_after f n).small hexit) ((after f n).visitedLength_le f)

end Progress

end Propagation

namespace Function

open Propagation

/-- The propagation takes `n` steps and no more. -/
structure HaltsAfter (f : Function) (n : Nat) : Prop where
  waits : ∀ {m}, m < n → (Progress.after f m).pending ≠ []
  ends : ∀ {m}, n ≤ m → Progress.after f m = Progress.after f n
  empty : (Progress.after f n).pending = []
  within_budget : n ≤ budget f
  /-- What the last step leaves is what the propagation finds. -/
  finds : (Progress.after f n).entries = f.blockFacts
  /-- The exit facts of a block form a decreasing chain. -/
  shrinks : ∀ {m : Nat} {b : BlockId} {exit : Constants}, (Progress.after f m).exits[b]? = some exit →
    ∃ exit', (Progress.after f (m + 1)).exits[b]? = some exit' ∧ exit'.Within exit
  small : ∀ {m : Nat} {b : BlockId} {exit : Constants}, (Progress.after f m).exits[b]? = some exit →
    exit.size ≤ f.statements.length

theorem propagation_halts (f : Function) : ∃ n, f.HaltsAfter n := by
  have hends := Progress.exists_after_eq_nil f
  have hempty : (Progress.after f (Nat.find hends)).pending = [] := Nat.find_spec hends
  have hwaits : ∀ k < Nat.find hends, (Progress.after f k).pending ≠ [] :=
    fun k hk => Nat.find_min hends hk
  have hload := Progress.load_after_le hwaits
  have hbudget : Nat.find hends ≤ budget f := Nat.le_trans (Nat.le_add_left _ _) hload
  have hlast := Progress.after_of_nil hempty hbudget
  refine ⟨Nat.find hends, fun hm => hwaits _ hm, fun hle => Progress.after_of_nil hempty hle, hempty,
    hbudget, ?_, fun hexit => (Progress.sound_after f _).step_shrinks hexit,
    fun hexit => Progress.size_exit_after_le hexit⟩
  rw [blockFacts, Progress.run_start_eq_after, hlast]

/-- A constant is put on the stack, and then a loop moves the stack pointer with every turn. -/
def drifting : Function :=
  let enter := Statement.lifted 0 none (.assign (.stack 0) (.constant 5))
  let turn := Statement.lifted 1 none (.adjustStack (.register 4) 8)
  ⟨0, "drifting", none, [⟨none, [enter], [1]⟩, ⟨none, [turn], [1]⟩], 2, 0⟩

/-- The slot has another offset after each of two visits of the loop; the third visit is the last. -/
example :
    ((Progress.after drifting 2).exits[1]?).map ExtTreeMap.toList = some [(.stack (-8), 5)] ∧
      (Progress.after drifting 3).exits[1]? = some ∅ ∧
      (Progress.after drifting 3).pending = [1] ∧ (Progress.after drifting 4).pending = [] := by
  decide +kernel

end Function

end CallEffects
