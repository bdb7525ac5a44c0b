import CallEffects.Statement

/-!
# Functions

A function is a list of blocks of statements, its entry block first; the position of a block is its
id. Lifted edits (`addBlock`, `addEdge`, `push`, `remove`) change what the function means and raise
its revision. Synthetic edits (`insertSynthetic`, `removeSynthetic`) attach and detach hooks and
leave the revision alone. An edit that fails gives no function back, so it changes nothing.
-/

namespace CallEffects

structure Block where
  address : Option Address
  statements : List Statement
  successors : List BlockId
deriving DecidableEq, Repr

namespace Block

def empty (address : Option Address) : Block := ⟨address, [], []⟩

def lifted (b : Block) : List Statement := b.statements.filter (!·.isSynthetic)

def synthetic (b : Block) : List Statement := b.statements.filter (·.isSynthetic)

def position? (b : Block) (id : StatementId) : Option Nat := b.statements.findIdx? (·.id == id)

def addSuccessor (b : Block) (target : BlockId) : Block :=
  if target ∈ b.successors then b else { b with successors := b.successors ++ [target] }

def insertAt (b : Block) (i : Nat) (statements : List Statement) : Block :=
  { b with statements := b.statements.take i ++ statements ++ b.statements.drop i }

end Block

structure Function where
  id : FunctionId
  name : String
  entryAddress : Option Address
  blocks : List Block
  /-- The next statement id to hand out; ids are never used again. -/
  nextStatement : StatementId
  revision : Nat
deriving DecidableEq, Repr

inductive IrError where
  | invalidBlock (block : BlockId)
  | statementNotFound (function : FunctionId) (statement : StatementId)
  | invalidFunction (function : FunctionId)
  | duplicateBlock (address : Address)
  | missingEntryBlock (address : Address)
deriving DecidableEq, Repr

def IrError.message : IrError → String
  | .invalidBlock block => "invalid basic block id: " ++ BlockId.render block
  | .statementNotFound function statement =>
    "statement " ++ StatementId.render statement ++ " not found in function " ++
      FunctionId.render function
  | .invalidFunction function => "invalid function id: " ++ FunctionId.render function
  | .duplicateBlock address => "duplicate block at address " ++ Text.hex address.toNat
  | .missingEntryBlock address => "no block at function entry " ++ Text.hex address.toNat

/-- Where synthetic statements go. -/
inductive InsertPosition where
  | blockStart (block : BlockId)
  | before (statement : StatementId)
  | after (statement : StatementId)
deriving DecidableEq, Repr

namespace Function

def entryBlock : BlockId := 0

def empty (id : FunctionId) (name : String) (entryAddress : Option Address) : Function :=
  ⟨id, name, entryAddress, [Block.empty entryAddress], 0, 0⟩

def statements (f : Function) : List Statement := f.blocks.flatMap (·.statements)

def syntheticCount (f : Function) : Nat := f.statements.countP (·.isSynthetic)

/-- The first statement with the id, as a block and a position in it. -/
def locate (f : Function) (id : StatementId) : Option (BlockId × Nat) :=
  f.blocks.zipIdx.findSome? fun (block, b) => (block.position? id).map fun i => (b, i)

def statement? (f : Function) (id : StatementId) : Option Statement :=
  f.statements.find? (·.id == id)

def modifyBlock (f : Function) (b : BlockId) (change : Block → Block) : Function :=
  { f with blocks := f.blocks.modify b change }

def raiseRevision (f : Function) : Function := { f with revision := f.revision + 1 }

def addBlock (f : Function) (address : Option Address) : BlockId × Function :=
  (f.blocks.length, raiseRevision { f with blocks := f.blocks ++ [Block.empty address] })

/-- The target of the edge is checked first. -/
def addEdge (f : Function) (source target : BlockId) : Except IrError Function :=
  if f.blocks.length ≤ target then .error (.invalidBlock target)
  else if f.blocks.length ≤ source then .error (.invalidBlock source)
  else .ok (raiseRevision (f.modifyBlock source fun block => block.addSuccessor target))

/-- Hands out the next number. A count in 32 bits hands out the same until it has run out. -/
def allocate (f : Function) : StatementId × Function :=
  (f.nextStatement, { f with nextStatement := f.nextStatement + 1 })

def push (f : Function) (b : BlockId) (address : Option Address) (kind : StatementKind) :
    Except IrError (StatementId × Function) :=
  if f.blocks.length ≤ b then .error (.invalidBlock b)
  else
    let (id, f) := f.allocate
    .ok (id, raiseRevision (f.modifyBlock b fun block =>
      { block with statements := block.statements ++ [.lifted id address kind] }))

/-- Removes the first statement with the id, lifted or synthetic. -/
def remove (f : Function) (id : StatementId) : Except IrError (Statement × Function) :=
  match f.statement? id, f.locate id with
  | some removed, some (b, i) =>
    .ok (removed, raiseRevision (f.modifyBlock b fun block =>
      { block with statements := block.statements.eraseIdx i }))
  | _, _ => .error (.statementNotFound f.id id)

def resolvePosition (f : Function) : InsertPosition → Except IrError (BlockId × Nat)
  | .blockStart b => if b < f.blocks.length then .ok (b, 0) else .error (.invalidBlock b)
  | .before id =>
    match f.locate id with
    | some place => .ok place
    | none => .error (.statementNotFound f.id id)
  | .after id =>
    match f.locate id with
    | some (b, i) => .ok (b, i + 1)
    | none => .error (.statementNotFound f.id id)

def insertSynthetic (f : Function) (position : InsertPosition) (statements : List Statement) :
    Except IrError Function :=
  (f.resolvePosition position).map fun (b, i) =>
    f.modifyBlock b fun block => block.insertAt i statements

/-- A lifted statement stays, whatever its id. -/
def removeSynthetic (f : Function) (ids : List StatementId) : Function :=
  { f with
    blocks := f.blocks.map fun block =>
      { block with
        statements := block.statements.filter fun s => !(s.isSynthetic && ids.contains s.id) } }

def render (f : Function) : String :=
  let header := "function " ++ f.name ++
    (match f.entryAddress with
    | some address => " @ " ++ Text.hex address.toNat
    | none => "")
  let blockLines := fun ((block, b) : Block × Nat) =>
    let edges :=
      if block.successors.isEmpty then ""
      else " -> " ++ ", ".intercalate (block.successors.map BlockId.render)
    ("  " ++ BlockId.render b ++ ":" ++ edges) ::
      block.statements.map fun s => "    " ++ s.render
  String.join ((header :: f.blocks.zipIdx.flatMap blockLines).map (· ++ "\n"))

end Function

/-- The functions of a program; the position of a function is its id. -/
abbrev Functions := List Function

namespace Functions

def add (fs : Functions) (name : String) (entryAddress : Option Address) :
    FunctionId × Functions :=
  (fs.length, fs ++ [Function.empty fs.length name entryAddress])

/-- The first function with the entry address. -/
def startingAt? (fs : Functions) (address : Address) : Option Function :=
  fs.find? (·.entryAddress == some address)

end Functions

end CallEffects
