import CallEffects.CommandLine.Arguments
import CallEffects.CommandLine.Report
import CallEffects.Description.Reader

/-!
# The command line

One run of the program: options, the description of a lifted program, the schedule, and what is
printed. Reading the file is left to the caller, who answers with its text or with the reason why
it cannot be read. `conventions` reads no file; otherwise the file comes before the convention.
-/

namespace CallEffects.CommandLine

inductive Failure where
  | unreadable (path reason : String)
  | unparsable (path : String)
  | invalid (cause : LoadError)
  | unknownConvention (name : String)
  | analysis (cause : AnalysisError)

namespace Failure

/-- What went wrong, from the outermost to the innermost. -/
def chain : Failure → List String
  | .unreadable path reason => ["Failed to read program: " ++ path, reason]
  | .unparsable path => ["Failed to parse program: " ++ path]
  | .invalid cause => cause.chain
  | .unknownConvention name =>
    ["unknown convention " ++ Text.quoted name.toList ++ "; expected one of " ++
      ", ".intercalate Convention.presetNames]
  | .analysis cause =>
    ["Instrumentation failed", cause.message] ++ cause.cause?.toList.map IrError.message

/-- Several causes are numbered, a single one is not. -/
def causes : List String → String
  | [] => ""
  | [cause] => "\nCaused by:\n    " ++ cause ++ "\n"
  | many => "\nCaused by:\n" ++
      lines (many.zipIdx.map fun (cause, i) => "    " ++ toString i ++ ": " ++ cause)

def render (f : Failure) : String :=
  "Error: " ++ lines (f.chain.take 1) ++ causes (f.chain.drop 1)

end Failure

inductive Outcome where
  | success (output : String)
  | failure (cause : Failure)
  | usage

def version : String := "hexhook 0.1.0\n"

def configuration (o : Options) : Except Failure Configuration := do
  match o.convention with
  | some name =>
    if (Convention.preset? name).isNone then throw (.unknownConvention name)
  | none => pure ()
  let c := { Configuration.standard.withMaxIterations (o.iterations.getD 8) with
    parallelDataflow := !o.sequential
    architectureDefault := o.platformDefault
    guessIndirectCalls := o.guessIndirect
    defaultConvention := o.convention }
  return if o.command = some .emit then c.forEmission else c

def output (command : Option Command) (w : Workspace) (stats : ScheduleStats) : String :=
  match command with
  | none | some .ir => listing (w.functions.getD []) stats
  | some .emit => ((w.tree.map PseudoSource.render).getD "No output\n")
  | some (.report true) => (Report.of w stats).toJson.pretty ++ "\n"
  | some (.report false) => (Report.of w stats).toText
  | some .conventions => conventionList

def analyze (o : Options) (path text : String) : Except Failure String := do
  let some description := Description.parse? text | throw (.unparsable path)
  let loaded ← description.load.mapError .invalid
  let c ← configuration o
  let (w, stats) ← ((Workspace.empty.takeIn loaded).run c).mapError fun i => .analysis i.cause
  return output o.command w stats

def runOptions (o : Options) (readFile : String → Except String String) : Except Failure String :=
  if o.command = some .conventions then .ok conventionList
  else do
    let path := o.program.getD ""
    let text ← (readFile path).mapError (.unreadable path)
    analyze o path text

def run (arguments : List String) (readFile : String → Except String String) : Outcome :=
  match parseArguments arguments with
  | .error .version => .success version
  | .error .usage => .usage
  | .ok o =>
    match runOptions o readFile with
    | .ok output => .success output
    | .error cause => .failure cause

end CallEffects.CommandLine
