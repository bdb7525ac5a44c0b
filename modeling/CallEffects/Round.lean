import CallEffects.Instrumentation

/-!
# Rounds

One round of an analysis takes a snapshot of every function, learns from all of them what callees
release on return, and then instruments the functions one by one, each followed by a fresh snapshot.
Before each function it is polled whether the analysis has been cancelled. A round that stops early
carries what it has reached.
-/

namespace CallEffects

open Std

/-- How often the analysis may still be polled before it finds itself cancelled; `none` if never. -/
structure Cancellation where
  pollsLeft : Option Nat
deriving DecidableEq, Repr

namespace Cancellation

def never : Cancellation := ⟨none⟩

def now : Cancellation := ⟨some 0⟩

def isCancelled (c : Cancellation) : Bool := c.pollsLeft == some 0

/-- `none` if the analysis is cancelled. -/
def poll (c : Cancellation) : Option Cancellation :=
  match c.pollsLeft with
  | none => some c
  | some 0 => none
  | some (n + 1) => some ⟨some n⟩

end Cancellation

/-- What a round works on. -/
structure Round where
  functions : Functions
  hooks : Hooks
  snapshots : Snapshots
  conventions : Guarded Conventions
  asked : List Callee
  cancellation : Cancellation
  stats : InstrumentStats
deriving DecidableEq

structure Stopped where
  round : Round
  cause : AnalysisError

namespace Round

def bench (r : Round) (f : Function) : Bench :=
  ⟨f, r.hooks, r.conventions, r.asked, .zero⟩

/-- Takes over what happened on the bench. -/
def putBack (r : Round) (b : Bench) : Round :=
  { r with
    functions := r.functions.set b.function.id b.function
    hooks := b.hooks
    conventions := b.conventions
    asked := b.asked
    stats := r.stats.merge b.stats }

def instrument (r : Round) (sources : Sources) (f : Function) (s : Snapshot) :
    Except Stopped Round :=
  match (r.bench f).instrument sources s with
  | .error halt => .error ⟨r.putBack halt.bench, halt.cause⟩
  | .ok b => .ok (r.putBack b)

def instrumentNext (sources : Sources) (r : Round) (s : Snapshot) : Except Stopped Round :=
  match r.cancellation.poll with
  | none => .error ⟨r, .cancelled⟩
  | some cancellation =>
    let r := { r with cancellation }
    match r.functions[s.function]? with
    | none => .error ⟨r, .ir (.invalidFunction s.function)⟩
    | some f => do
      let r ← r.instrument sources f s
      let done := (r.functions[s.function]?).getD f
      .ok { r with snapshots := r.snapshots.insert s.function (.take done) }

def observe (r : Round) (s : Snapshot) : Round :=
  match r.functions[s.function]? with
  | none => r
  | some f => { r with hooks := r.hooks.observe f s }

def takeAll (fs : Functions) : List Snapshot := fs.map Snapshot.take

def run (r : Round) (sources : Sources) : Except Stopped Round :=
  let fresh := takeAll r.functions
  fresh.foldlM (instrumentNext sources) (fresh.foldl observe r)

def deinstrument (r : Round) (f : Function) : Round := r.putBack (r.bench f).deinstrument

/-- Takes the hooks off every function that was ever instrumented. -/
def deinstrumentAll (r : Round) : Round :=
  r.hooks.touched.keys.foldl
    (fun r id =>
      match r.functions[id]? with
      | none => r
      | some f => r.deinstrument f) r

def refreshSnapshots (r : Round) : Round :=
  { r with snapshots := ExtTreeMap.ofList ((takeAll r.functions).map fun s => (s.function, s)) }

end Round

end CallEffects
