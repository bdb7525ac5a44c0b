import CallEffects.Function

/-!
# Programs

A program holds the lifted blocks of a whole image by address, before they belong to functions.
Function entries are the declared ones and every direct call target that names a block.
`functionBlocks` lists the blocks of one function in breadth-first order, and `buildFunctions` gives
each entry, in ascending order, a function with its own copy of the blocks reachable from it.
Successors that name no block are dropped.
-/

namespace CallEffects

open Std

structure ProgramStatement where
  address : Option Address
  kind : StatementKind
deriving DecidableEq, Repr

structure ProgramBlock where
  address : Address
  statements : List ProgramStatement
  successors : List Address
deriving DecidableEq, Repr

structure Program where
  blocks : ExtTreeMap Address ProgramBlock
  /-- The declared entries, with the last name each was given. -/
  entries : ExtTreeMap Address (Option String)
deriving DecidableEq

namespace Program

def empty : Program := ⟨∅, ∅⟩

def addBlock (p : Program) (block : ProgramBlock) : Except IrError Program :=
  if p.blocks.contains block.address then .error (.duplicateBlock block.address)
  else .ok { p with blocks := p.blocks.insert block.address block }

/-- An entry declared again without a name keeps the name it had. -/
def addEntry (p : Program) (address : Address) (name : Option String) : Program :=
  { p with entries := p.entries.insert address (name <|> (p.entries[address]?).join) }

def directTargets (block : ProgramBlock) : List Address :=
  block.statements.filterMap fun s =>
    match s.kind with
    | .call target => target.direct?
    | _ => none

/-- The addresses that start a function, in ascending order. -/
def functionEntries (p : Program) : List Address :=
  let called := (p.blocks.values.flatMap directTargets).filter fun a => p.blocks.contains a
  (called.foldl (fun entries a => entries.insertIfNew a none) p.entries).keys

/-- Successors of the block at an address that name blocks. -/
def successors (p : Program) (address : Address) : List Address :=
  match p.blocks[address]? with
  | none => []
  | some block => block.successors.filter fun a => p.blocks.contains a

/-- Breadth-first search: `found` lists the addresses in the order of their discovery, `queue` those
whose successors have not been looked at. -/
def explore (p : Program) : Nat → List Address → List Address → List Address
  | 0, found, _ => found
  | _, found, [] => found
  | fuel + 1, found, a :: queue =>
    let fresh := ((p.successors a).filter fun s => !found.contains s).eraseDups
    explore p fuel (found ++ fresh) (queue ++ fresh)

/-- Every block is looked at once at most. -/
def functionBlocks (p : Program) (entry : Address) : List Address :=
  p.explore (p.blocks.size + 1) [entry] [entry]

/-- Copies the blocks at the addresses, numbering statements from `next` and naming successors by
their place in `order`. -/
def liftBlocks (p : Program) (order : List Address) : StatementId → List Address → List Block
  | _, [] => []
  | next, a :: rest =>
    let statements := ((p.blocks[a]?).map (·.statements)).getD []
    let lifted := (statements.zipIdx next).map fun (s, id) => Statement.lifted id s.address s.kind
    let edges := ((p.successors a).filterMap fun s => order.idxOf? s).eraseDups
    ⟨some a, lifted, edges⟩ :: liftBlocks p order (next + statements.length) rest

/-- The revision counts the lifted edits the function stands for: one for every block after the
first, every statement and every edge, repeated edges included. -/
def buildFunction (p : Program) (id : FunctionId) (entry : Address) : Function :=
  let order := p.functionBlocks entry
  let blocks := p.liftBlocks order 0 order
  let statements := (blocks.flatMap (·.statements)).length
  let edges := (order.flatMap fun a => (p.successors a).filter order.contains).length
  { id
    name := ((p.entries[entry]?).join).getD ("sub_" ++ String.ofList (Text.hexDigits entry.toNat))
    entryAddress := some entry
    blocks
    nextStatement := statements
    revision := (order.length - 1) + statements + edges }

def buildFunctions (p : Program) : Except IrError Functions :=
  let entries := p.functionEntries
  match entries.find? fun a => !p.blocks.contains a with
  | some missing => .error (.missingEntryBlock missing)
  | none => .ok (entries.zipIdx.map fun (entry, id) => p.buildFunction id entry)

end Program

end CallEffects
