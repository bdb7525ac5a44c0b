import CallEffects.Detector
import CallEffects.Guarded
import CallEffects.Hook
import CallEffects.Snapshot

/-!
# Instrumentation

`Hooks` remembers every hook ever built, the hook active on each anchor, the hook last active on it,
the bytes each callee was seen to release, and the functions it has touched. Instrumenting a
function settles its anchors one by one: the entry, the calls of the snapshot, its returns. An
anchor whose callee has a convention gets the hook of its key, built on first use and replacing a
different one; an anchor without a convention loses its hook, and so does an anchor that the
snapshot does not list. Removing all hooks gives back the lifted code.

An edit can fail half way. `Halt` then carries the bench as it was left, since what was done before
stays done.
-/

namespace CallEffects

open Std

structure InstrumentStats where
  /-- Hooks attached to an anchor. -/
  attached : Nat
  detached : Nat
  /-- Synthetic statements. -/
  inserted : Nat
  removed : Nat
  /-- Hooks built because no hook had the key. -/
  synthesized : Nat
  /-- Anchors left without a hook for lack of a convention. -/
  unresolved : Nat
deriving DecidableEq, Repr

namespace InstrumentStats

def zero : InstrumentStats := ⟨0, 0, 0, 0, 0, 0⟩

def changed (s : InstrumentStats) : Bool := s.attached > 0 || s.detached > 0

def merge (s t : InstrumentStats) : InstrumentStats :=
  ⟨s.attached + t.attached, s.detached + t.detached, s.inserted + t.inserted,
    s.removed + t.removed, s.synthesized + t.synthesized, s.unresolved + t.unresolved⟩

@[simp] theorem zero_merge (s : InstrumentStats) : zero.merge s = s := by
  simp [merge, zero]

@[simp] theorem merge_zero (s : InstrumentStats) : s.merge zero = s := by
  simp [merge, zero]

end InstrumentStats

structure Hooks where
  /-- Oldest first, no two with the same key. -/
  built : List Hook
  active : ExtTreeMap Anchor Hook
  last : ExtTreeMap Anchor Hook
  /-- The most bytes that a return of the callee was seen to pop. -/
  observed : ExtTreeMap Callee Nat
  touched : ExtTreeMap FunctionId Unit
deriving DecidableEq

namespace Hooks

def empty : Hooks := ⟨[], ∅, ∅, ∅, ∅⟩

def ofKind (h : Hooks) (kind : HookKind) : List Hook := h.built.filter (·.id.kind == kind)

def find? (h : Hooks) (id : HookId) : Option Hook := h.built.find? (·.id == id)

def cached? (h : Hooks) (key : HookKey) : Option Hook := h.built.find? (·.key == key)

/-- Entry, calls, returns; calls and returns in the order of their statements. -/
def activeIn (h : Hooks) (f : FunctionId) : List Hook :=
  h.active.values.filter (·.anchor.function == f)

def isInstrumented (h : Hooks) (f : FunctionId) : Bool := !(h.activeIn f).isEmpty

/-- The most bytes popped by the returns that the snapshot lists. -/
def popOf? (f : Function) (s : Snapshot) : Option Nat :=
  (s.returns.filterMap fun id =>
    match (f.statement? id).map (·.kind) with
    | some (StatementKind.ret pop) => some pop
    | _ => none).max?

def observe (h : Hooks) (f : Function) (s : Snapshot) : Hooks :=
  match popOf? f s with
  | none => h
  | some pop => { h with observed := h.observed.insert (.ofFunction f) pop }

def touch (h : Hooks) (f : FunctionId) : Hooks := { h with touched := h.touched.insert f () }

end Hooks

/-- A function on the bench with the engine, the conventions known so far, the callees that a
detector remembers being asked about, and what was done to the function. -/
structure Bench where
  function : Function
  hooks : Hooks
  conventions : Guarded Conventions
  asked : List Callee
  stats : InstrumentStats
deriving DecidableEq

structure Halt where
  bench : Bench
  cause : AnalysisError

namespace Bench

/-- The convention of a callee. A detector is asked only if the registry has none. -/
def resolve (b : Bench) (detector : Option Detector) (callee : Callee) :
    Option (ConventionId × Convention) × Bench :=
  match b.conventions.value.lookup? callee, detector with
  | some known, _ => (some known, b)
  | none, none => (none, b)
  | none, some d =>
    let found := d.detect b.asked callee b.conventions.value
    let asked := if d.remembers then b.asked ++ [callee] else b.asked
    (found.lookup? callee, { b with conventions := { b.conventions with value := found }, asked })

/-- Takes the active hook off an anchor. -/
def detach (b : Bench) (anchor : Anchor) : Bench :=
  match b.hooks.active[anchor]? with
  | none => b
  | some hook =>
    let function := b.function.removeSynthetic hook.statementIds
    { b with
      function
      hooks := { b.hooks with active := b.hooks.active.erase anchor }
      stats := { b.stats with
        detached := b.stats.detached + 1
        removed := b.stats.removed + (b.function.syntheticCount - function.syntheticCount) } }

/-- The hook of the plan's key, built if there is none yet. -/
def obtain (b : Bench) (plan : Plan) : Hook × Bench :=
  match b.hooks.cached? plan.key with
  | some hook => (hook, b)
  | none =>
    let kind := plan.key.anchor.kind
    let (hook, function) := Hook.build ⟨kind, (b.hooks.ofKind kind).length⟩ plan b.function
    (hook,
      { b with
        function
        hooks := { b.hooks with built := b.hooks.built ++ [hook] }
        stats := { b.stats with synthesized := b.stats.synthesized + 1 } })

def remember (b : Bench) (hook : Hook) : Bench :=
  { b with hooks := { b.hooks with last := b.hooks.last.insert hook.anchor hook } }

/-- Makes a hook the active one of its anchor. -/
def attach (b : Bench) (hook : Hook) : Except Halt Bench :=
  if (b.hooks.active[hook.anchor]?).any fun active => active.id == hook.id then
    .ok (b.remember hook)
  else
    let b := b.detach hook.anchor
    match b.function.insertSynthetic hook.anchor.position hook.statements with
    | .error e => .error ⟨b, .ir e⟩
    | .ok function =>
      .ok (remember
        { b with
          function
          hooks := { b.hooks with active := b.hooks.active.insert hook.anchor hook }
          stats := { b.stats with
            attached := b.stats.attached + 1
            inserted := b.stats.inserted + hook.statements.length } }
        hook)

/-- Brings an anchor in line with its plan; without one it loses its hook. -/
def settle (b : Bench) (anchor : Anchor) : Option Plan → Except Halt Bench
  | none =>
    let b := b.detach anchor
    .ok { b with stats := { b.stats with unresolved := b.stats.unresolved + 1 } }
  | some plan =>
    let (hook, b) := b.obtain plan
    b.attach hook

def settleCall (detector : Option Detector) (signatures : Signatures) (b : Bench)
    (site : CallSite) : Except Halt Bench :=
  let call : StatementRef := ⟨b.function.id, site.statement⟩
  let callee := Callee.ofCall call site.target
  let (convention, b) := b.resolve detector callee
  b.settle (.call call) <| convention.map fun c =>
    .ofCall call c (signatures.forCall? call callee) b.hooks.observed[callee]?

/-- Detaches the hooks and forgets the last hooks of the function's anchors of a kind that are not
among those seen. -/
def dropUnseen (b : Bench) (kind : HookKind) (seen : List Anchor) : Bench :=
  let unseen := fun (a : Anchor) =>
    a.kind == kind && a.function == b.function.id && !seen.contains a
  let b := (b.hooks.active.keys.filter unseen).foldl detach b
  { b with hooks := { b.hooks with last := b.hooks.last.filter fun a _ => !unseen a } }

/-- Settles every anchor of the function; `own` is the function's convention and `signature` its
signature. -/
def settleAll (b : Bench) (detector : Option Detector) (signatures : Signatures) (s : Snapshot)
    (own : Option (ConventionId × Convention)) (signature : Option (Nat × FunctionSignature)) :
    Except Halt Bench := do
  let f := b.function.id
  let b ← b.settle (.entry f) (own.map fun c => .ofEntry f c signature)
  let b ← s.calls.foldlM (settleCall detector signatures) b
  let b := b.dropUnseen .call (s.calls.map fun site => .call ⟨f, site.statement⟩)
  let b ← s.returns.foldlM
    (fun b ret => b.settle (.ret ⟨f, ret⟩) (own.map fun c => .ofReturn ⟨f, ret⟩ c signature)) b
  .ok (b.dropUnseen .ret (s.returns.map fun ret => .ret ⟨f, ret⟩))

end Bench

/-- What the engine consults and does not change. -/
structure Sources where
  detector : Option Detector
  signatures : Guarded Signatures

/-- Instruments a function at the revision of the snapshot. -/
def Bench.instrument (b : Bench) (sources : Sources) (s : Snapshot) : Except Halt Bench :=
  match s.mismatch? b.function with
  | some error => .error ⟨b, error⟩
  | none =>
    let own := Callee.ofFunction b.function
    let b := { b with hooks := (b.hooks.touch b.function.id).observe b.function s }
    if b.conventions.poisoned then .error ⟨b, .poisoned .conventions⟩
    else
      let (convention, b) := b.resolve sources.detector own
      if sources.signatures.poisoned then .error ⟨b, .poisoned .signatures⟩
      else
        let signatures := sources.signatures.value
        b.settleAll sources.detector signatures s convention (signatures.function? own)

/-- Takes every hook off the function. -/
def Bench.deinstrument (b : Bench) : Bench :=
  (b.hooks.active.keys.filter (·.function == b.function.id)).foldl Bench.detach b

end CallEffects
