import CallEffects.Json.Printer
import CallEffects.Schedule

/-!
# What is printed

The listing of the instrumented code, the list of built-in conventions, and the report about the
hooks of each function, as a table or as JSON.
-/

namespace CallEffects.CommandLine

def lines (ls : List String) : String := String.join (ls.map (· ++ "\n"))

def spaces (n : Nat) : String := String.ofList (List.replicate n ' ')

/-- Fills up with blanks behind the text. -/
def padRight (width : Nat) (s : String) : String := s ++ spaces (width - s.length)

def padLeft (width : Nat) (s : String) : String := spaces (width - s.length) ++ s

def conventionLine (c : Convention) : String :=
  "  " ++ padRight 12 c.name ++ " " ++ padRight 7 c.architecture.name ++ " " ++
    toString c.registerArguments.length ++ " register args, " ++
    (if c.calleeCleans then "callee cleans" else "caller cleans")

def conventionList : String :=
  lines (["Built-in conventions", String.ofList (List.replicate 50 '=')] ++
    Convention.presets.map conventionLine)

def notConverged (stats : ScheduleStats) : String :=
  if stats.converged then "" else " (not converged)"

def functionLines (f : Function) : List String :=
  let labels := fun (b : BlockId) =>
    if f.blocks.length > 1 then ["  " ++ BlockId.render b ++ ":"] else []
  [f.name ++ " @ " ++ Text.hex (f.entryAddress.getD 0).toNat] ++
    (f.blocks.zipIdx.flatMap fun (block, b) =>
      labels b ++ block.statements.map fun s => "    " ++ s.render) ++ [""]

def listing (fs : Functions) (stats : ScheduleStats) : String :=
  lines (fs.flatMap functionLines ++
    [toString stats.iterations ++ " passes" ++ notConverged stats ++ ", " ++
      toString stats.instrument.attached ++ " hooks attached, " ++
      toString stats.instrument.unresolved ++ " unresolved"])

structure FunctionReport where
  name : String
  entry : Option Address
  entryHook : Bool
  callHooks : Nat
  calls : Nat
  returnHooks : Nat
  returns : Nat
  syntheticStatements : Nat

namespace FunctionReport

def of (hooks : Hooks) (f : Function) : FunctionReport :=
  let count := fun (kind : HookKind) => (hooks.activeIn f.id).countP (·.id.kind == kind)
  { name := f.name
    entry := f.entryAddress
    entryHook := count .entry > 0
    callHooks := count .call
    calls := f.statements.countP (·.isCall)
    returnHooks := count .ret
    returns := f.statements.countP (·.isReturn)
    syntheticStatements := f.syntheticCount }

def row (name entry calls returns statements : String) : String :=
  padRight 24 name ++ " " ++ padLeft 6 entry ++ " " ++ padLeft 8 calls ++ " " ++
    padLeft 8 returns ++ " " ++ padLeft 7 statements

def toRow (r : FunctionReport) : String :=
  row r.name (if r.entryHook then "yes" else "no")
    (toString r.callHooks ++ "/" ++ toString r.calls)
    (toString r.returnHooks ++ "/" ++ toString r.returns) (toString r.syntheticStatements)

def toJson (r : FunctionReport) : Json :=
  .record [("name", .text r.name), ("entry", .ofOption (fun a => .ofNat a.toNat) r.entry),
    ("entry_hook", .bool r.entryHook), ("call_hooks", .ofNat r.callHooks),
    ("calls", .ofNat r.calls), ("return_hooks", .ofNat r.returnHooks),
    ("returns", .ofNat r.returns), ("synthetic_statements", .ofNat r.syntheticStatements)]

end FunctionReport

structure Report where
  image : Option String
  stats : ScheduleStats
  cached : Nat
  active : Nat
  functions : List FunctionReport

namespace Report

def of (w : Workspace) (stats : ScheduleStats) : Report :=
  let hooks := (w.engine.map (·.hooks)).getD .empty
  { image := w.image.map (·.name)
    stats
    cached := hooks.built.length
    active := hooks.active.size
    functions := (w.functions.getD []).map (FunctionReport.of hooks) }

def toText (r : Report) : String :=
  let image := r.image.toList.map fun name => "Module:        " ++ name
  lines (["Instrumentation Report", "======================"] ++ image ++
    ["Passes:        " ++ toString r.stats.iterations ++ notConverged r.stats,
      "Hooks:         " ++ toString r.active ++ " active, " ++ toString r.cached ++ " cached",
      "",
      FunctionReport.row "Function" "Entry" "Calls" "Returns" "Stmts",
      String.ofList (List.replicate 57 '-')] ++
    r.functions.map FunctionReport.toRow)

def toJson (r : Report) : Json :=
  .record [("module", .ofOption .text r.image), ("iterations", .ofNat r.stats.iterations),
    ("converged", .bool r.stats.converged), ("hooks_cached", .ofNat r.cached),
    ("hooks_active", .ofNat r.active), ("unresolved", .ofNat r.stats.instrument.unresolved),
    ("functions", .ofList FunctionReport.toJson r.functions)]

end Report

end CallEffects.CommandLine
