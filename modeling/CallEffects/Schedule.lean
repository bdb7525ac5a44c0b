import CallEffects.Configuration
import CallEffects.Workspace

/-!
# The schedule

A run fills in what the workspace lacks and then repeats rounds until one changes neither the code
nor the registries, or until the rounds allowed are used up. It may end by taking all hooks off and
emitting pseudo-source. A run that fails leaves the workspace as it was when it failed.
-/

namespace CallEffects

structure ScheduleStats where
  iterations : Nat
  /-- The last round changed nothing. -/
  converged : Bool
  instrument : InstrumentStats
  /-- Statements removed at the end. -/
  deinstrumented : Nat
deriving DecidableEq, Repr

def ScheduleStats.zero : ScheduleStats := ⟨0, false, .zero, 0⟩

structure Interrupted where
  workspace : Workspace
  cause : AnalysisError

namespace Workspace

/-- The detector a new engine gets. An unknown preset gives none, nor does the platform of an image
that is not there. -/
def configuredDetector (w : Workspace) (c : Configuration) : Option Detector :=
  match c.defaultConvention with
  | some name => (Convention.preset? name).map fun conv => .fixed conv c.guessIndirectCalls
  | none =>
    if c.architectureDefault then
      w.image.map fun image => .ofArchitecture image.architecture c.guessIndirectCalls
    else none

def prepare (w : Workspace) (c : Configuration) : Except AnalysisError Workspace := do
  let functions ← match w.functions, w.program with
    | some fs, _ => .ok fs
    | none, none => .error (.missing .program)
    | none, some p => p.buildFunctions.mapError .ir
  let w := ensureRegistries
    { w with
      functions := some functions
      owners := some (w.owners.getD (.ofFunctions functions))
      snapshots := some (w.snapshots.getD ∅) }
  .ok (if w.engine.isSome then w else w.installEngine (w.configuredDetector c))

/-- The revisions of the registries of the workspace. -/
def revisions (w : Workspace) : Except AnalysisError (Nat × Nat) :=
  if w.currentConventions.poisoned then .error (.poisoned .conventions)
  else if w.currentSignatures.poisoned then .error (.poisoned .signatures)
  else .ok (w.currentConventions.value.revision, w.currentSignatures.value.revision)

def runRound (w : Workspace) : Except Interrupted (Workspace × InstrumentStats) :=
  match w.round? with
  | none => .error ⟨w, .missing .hooks⟩
  | some (sources, round) =>
    match round.run sources with
    | .error stopped => .error ⟨w.putBack stopped.round, stopped.cause⟩
    | .ok round => .ok (w.putBack round, round.stats)

/-- So many more rounds at most. -/
def runRounds : Nat → Workspace → ScheduleStats → Except Interrupted (Workspace × ScheduleStats)
  | 0, w, stats => .ok (w, stats)
  | n + 1, w, stats => do
    let before ← w.revisions.mapError (⟨w, ·⟩)
    let (w, done) ← w.runRound
    let after ← w.revisions.mapError (⟨w, ·⟩)
    let converged := !done.changed && before == after
    let stats :=
      { stats with
        iterations := stats.iterations + 1
        converged
        instrument := stats.instrument.merge done }
    if converged then .ok (w, stats) else runRounds n w stats

/-- Takes every hook off and renews the snapshots. -/
def deinstrument (w : Workspace) : Except AnalysisError (Workspace × Nat) :=
  match w.round? with
  | none => .error (.missing .hooks)
  | some (_, round) =>
    let round := round.deinstrumentAll
    .ok (w.putBack round.refreshSnapshots, round.stats.removed)

def finish (w : Workspace) (c : Configuration) (stats : ScheduleStats) :
    Except Interrupted (Workspace × ScheduleStats) := do
  let (w, stats) ←
    if c.deinstrumentAtEnd then do
      let (w, removed) ← w.deinstrument.mapError (⟨w, ·⟩)
      pure (w, { stats with deinstrumented := removed })
    else pure (w, stats)
  if c.emitTree then
    match w.functions with
    | none => .error ⟨w, .missing .functions⟩
    | some fs =>
      if w.currentSignatures.poisoned then .error ⟨w, .poisoned .signatures⟩
      else
        let w ← (w.emitTree fs w.currentSignatures.value).mapError (⟨w, ·⟩)
        pure (w, stats)
  else pure (w, stats)

def run (w : Workspace) (c : Configuration) : Except Interrupted (Workspace × ScheduleStats) := do
  let w ← (w.prepare c).mapError (⟨w, ·⟩)
  let (w, stats) ← runRounds c.maxIterations w .zero
  w.finish c stats

end Workspace

end CallEffects
