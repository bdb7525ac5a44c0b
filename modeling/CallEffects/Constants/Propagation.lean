import CallEffects.Constants
import CallEffects.Function

/-!
# Constant propagation

The facts known at the entry of every block that is reachable from the entry block. Blocks wait in
a stack. Taking one out computes its entry facts, none for the entry block and for any other block
the facts on which the exits of its visited predecessors agree, and walks its statements; if its
exit facts changed, its successors are put on the stack. `budget` bounds the number of blocks ever
taken: the exit of a block only loses facts after its first visit, it has at most as many as the
function has statements, and every change puts each successor on the stack once at most.
-/

namespace CallEffects

open Std

namespace Propagation

structure Progress where
  entries : ExtTreeMap BlockId Constants
  exits : ExtTreeMap BlockId Constants
  /-- The top of the stack first; no block waits twice. -/
  pending : List BlockId
deriving DecidableEq

def start : Progress := ⟨∅, ∅, [Function.entryBlock]⟩

/-- In block order, a predecessor as often as it has edges to the block. -/
def predecessors (f : Function) (b : BlockId) : List BlockId :=
  f.blocks.zipIdx.flatMap fun (block, p) => (block.successors.filter (· == b)).map fun _ => p

def meetAll : List Constants → Constants
  | [] => ∅
  | c :: rest => rest.foldl Constants.meet c

def Progress.entryFacts (p : Progress) (f : Function) (b : BlockId) : Constants :=
  if b = Function.entryBlock then ∅
  else meetAll ((predecessors f b).filterMap fun q => p.exits[q]?)

def enqueue (pending : List BlockId) (b : BlockId) : List BlockId :=
  if b ∈ pending then pending else b :: pending

def Progress.visit (p : Progress) (f : Function) (b : BlockId) (block : Block) : Progress :=
  let entry := p.entryFacts f b
  let exit := walk block.statements entry
  let entries := p.entries.insert b entry
  if p.exits[b]? = some exit then { p with entries }
  else ⟨entries, p.exits.insert b exit, block.successors.foldl enqueue p.pending⟩

def Progress.step (p : Progress) (f : Function) : Progress :=
  match p.pending with
  | [] => p
  | b :: pending =>
    match f.blocks[b]? with
    | none => { p with pending }
    | some block => { p with pending }.visit f b block

def Progress.run (f : Function) : Nat → Progress → Progress
  | 0, p => p
  | fuel + 1, p => if p.pending.isEmpty then p else Progress.run f fuel (p.step f)

def edgeCount (f : Function) : Nat := (f.blocks.flatMap (·.successors)).length

def budget (f : Function) : Nat := (f.statements.length + 1) * edgeCount f + 1

end Propagation

/-- The facts at the entry of each reachable block. -/
def Function.blockFacts (f : Function) : ExtTreeMap BlockId Constants :=
  (Propagation.Progress.run f (Propagation.budget f) Propagation.start).entries

end CallEffects
