import CallEffects.Artifacts
import CallEffects.Instruction
import CallEffects.Ownership
import CallEffects.Program
import CallEffects.PseudoSource
import CallEffects.Round

/-!
# The workspace

Everything one session knows about an image. What has not been set is `none`; whether its parts
agree with each other is up to the analyses that make them. An engine instruments with the
registries of the workspace until these are exchanged for others; from then on it has registries of
its own. Subscribers get a mailbox each for the changes they may want to hear about.
-/

namespace CallEffects

open Std

structure Image where
  name : String
  architecture : Architecture
  entryPoint : Option Address
deriving DecidableEq, Repr

inductive Event where
  | instructionsChanged
  | treeChanged
deriving DecidableEq, Repr

structure Engine where
  hooks : Hooks
  detector : Option Detector
  /-- `none` while the engine shares the registry of the workspace. -/
  ownConventions : Option (Guarded Conventions)
  ownSignatures : Option (Guarded Signatures)

namespace Engine

def fresh : Engine := ⟨.empty, none, none, none⟩

/-- The counts of the engine in one line. -/
def summary (e : Engine) : String :=
  "Hooks \x7b cached: " ++ toString e.hooks.built.length ++ ", active: " ++
    toString e.hooks.active.size ++ ", touched: " ++ toString e.hooks.touched.size ++
    ", detector: " ++ toString e.detector.isSome ++ " \x7d"

end Engine

structure Workspace where
  image : Option Image
  instructions : Option Instructions
  program : Option Program
  functions : Option Functions
  owners : Option Owners
  conventions : Option (Guarded Conventions)
  signatures : Option (Guarded Signatures)
  engine : Option Engine
  snapshots : Option Snapshots
  artifacts : ExtTreeMap FunctionId FunctionArtifacts
  tree : Option PseudoSource
  cancellation : Cancellation
  /-- Oldest event first, `none` for a subscriber that has left. -/
  mailboxes : List (Option (List Event))
  /-- What detectors remember being asked. -/
  asked : List Callee

namespace Workspace

def empty : Workspace where
  image := none
  instructions := none
  program := none
  functions := none
  owners := none
  conventions := none
  signatures := none
  engine := none
  snapshots := none
  artifacts := ∅
  tree := none
  cancellation := .never
  mailboxes := []
  asked := []

def notify (w : Workspace) (e : Event) : Workspace :=
  { w with mailboxes := w.mailboxes.map fun mailbox => mailbox.map (· ++ [e]) }

def subscribe (w : Workspace) : Nat × Workspace :=
  (w.mailboxes.length, { w with mailboxes := w.mailboxes ++ [some []] })

def unsubscribe? (w : Workspace) (subscriber : Nat) : Option Workspace :=
  if subscriber < w.mailboxes.length then
    some { w with mailboxes := w.mailboxes.set subscriber none }
  else none

def emptyMailboxes (w : Workspace) : Workspace :=
  { w with mailboxes := w.mailboxes.map fun mailbox => mailbox.map fun _ => [] }

def setInstructions (w : Workspace) (is : Instructions) : Workspace :=
  notify { w with instructions := some is } .instructionsChanged

def setTree (w : Workspace) (tree : PseudoSource) : Workspace :=
  notify { w with tree := some tree } .treeChanged

/-- Both registries exist afterwards, empty ones if there were none. -/
def ensureRegistries (w : Workspace) : Workspace :=
  { w with
    conventions := some (w.conventions.getD (.sound .empty))
    signatures := some (w.signatures.getD (.sound .empty)) }

/-- Exchanges both registries; an engine that shared the old ones keeps them. -/
def replaceRegistries (w : Workspace) (conventions : Conventions) (signatures : Signatures) :
    Workspace :=
  { w with
    engine := w.engine.map fun e =>
      { e with
        ownConventions := e.ownConventions <|> w.conventions
        ownSignatures := e.ownSignatures <|> w.signatures }
    conventions := some (.sound conventions)
    signatures := some (.sound signatures) }

def modifyConventions (w : Workspace) (change : Conventions → Conventions) : Workspace :=
  { w with
    conventions := w.ensureRegistries.conventions.map fun g => { g with value := change g.value } }

def modifySignatures (w : Workspace) (change : Signatures → Signatures) : Workspace :=
  { w with
    signatures := w.ensureRegistries.signatures.map fun g => { g with value := change g.value } }

def currentConventions (w : Workspace) : Guarded Conventions :=
  w.conventions.getD (.sound .empty)

def currentSignatures (w : Workspace) : Guarded Signatures := w.signatures.getD (.sound .empty)

def engineConventions (w : Workspace) (e : Engine) : Guarded Conventions :=
  e.ownConventions.getD w.currentConventions

def engineSignatures (w : Workspace) (e : Engine) : Guarded Signatures :=
  e.ownSignatures.getD w.currentSignatures

/-- A new engine on the registries of the workspace. -/
def installEngine (w : Workspace) (detector : Option Detector) : Workspace :=
  { w.ensureRegistries with engine := some { Engine.fresh with detector } }

/-- No functions, no snapshots and a new engine. -/
def reset (w : Workspace) : Workspace :=
  { w.installEngine none with functions := some [], snapshots := some ∅ }

def artifactsOf (w : Workspace) (f : FunctionId) : FunctionArtifacts :=
  (w.artifacts[f]?).getD .none

/-- What is kept for a function, if anything is. -/
def artifacts? (w : Workspace) (f : FunctionId) : Option FunctionArtifacts :=
  (w.artifacts[f]?).filter fun a => !a.isEmpty

def modifyArtifacts (w : Workspace) (f : FunctionId)
    (change : FunctionArtifacts → FunctionArtifacts) : Workspace :=
  { w with artifacts := w.artifacts.insert f (change (w.artifactsOf f)) }

def clearArtifacts (w : Workspace) (f : FunctionId) : Workspace :=
  { w with artifacts := w.artifacts.erase f }

/-- The engine, the functions and the snapshots together, if all three are there. -/
def round? (w : Workspace) : Option (Sources × Round) := do
  let e ← w.engine
  let functions ← w.functions
  let snapshots ← w.snapshots
  some (⟨e.detector, w.engineSignatures e⟩,
    { functions
      hooks := e.hooks
      snapshots
      conventions := w.engineConventions e
      asked := w.asked
      cancellation := w.cancellation
      stats := .zero })

/-- Takes over what a round has reached. -/
def putBack (w : Workspace) (r : Round) : Workspace :=
  let shared := w.engine.all fun e => e.ownConventions.isNone
  { w with
    functions := some r.functions
    snapshots := some r.snapshots
    engine := w.engine.map fun e =>
      { e with
        hooks := r.hooks
        ownConventions := e.ownConventions.map fun _ => r.conventions }
    conventions := if shared then some r.conventions else w.conventions
    asked := r.asked
    cancellation := r.cancellation }

def emitTree (w : Workspace) (fs : Functions) (signatures : Signatures) :
    Except AnalysisError Workspace :=
  (PseudoSource.emit fs signatures).map w.setTree

end Workspace

end CallEffects
