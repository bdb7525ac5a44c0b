import CallEffects.Description
import CallEffects.JsonForm.Calling

/-!
# Sessions in JSON

The JSON forms of configurations, detector rules, places for statements, instructions, emitted
functions, events and the results kept for functions.
-/

namespace CallEffects

open Json

def Json.pair? {α β : Type} (first : Json → Option α) (second : Json → Option β) :
    Json → Option (α × β)
  | .array [a, b] => do return (← first a, ← second b)
  | _ => none

def Json.ofPair (a b : Json) : Json := .array [a, b]

/-- A number of 64 bits at most. -/
def Json.size? (j : Json) : Option Nat := j.naturalBelow? UInt64.size

def Configuration.toJson (c : Configuration) : Json :=
  .record [("max_iterations", .ofNat c.maxIterations),
    ("parallel_dataflow", .bool c.parallelDataflow),
    ("default_convention", .ofOption .text c.defaultConvention),
    ("architecture_default", .bool c.architectureDefault),
    ("guess_indirect_calls", .bool c.guessIndirectCalls),
    ("deinstrument_at_end", .bool c.deinstrumentAtEnd), ("emit_tree", .bool c.emitTree)]

def DetectorRule.ofJson? (j : Json) : Option DetectorRule := do
  let (asked, assignments) ←
    pair? Callee.ofJson? (Json.list? (pair? Callee.ofJson? Json.text?)) j
  return ⟨asked, assignments⟩

def InsertPosition.ofJson? (j : Json) : Option InsertPosition := do
  match ← j.variant? with
  | ("BlockStart", b) => b.word?.map .blockStart
  | ("Before", s) => s.word?.map .before
  | ("After", s) => s.word?.map .after
  | _ => none

def Instruction.ofJson? (j : Json) : Option Instruction := do
  return .ofBytes (← requiredField j "address" Json.uint64?)
    (← requiredField j "bytes" (Json.list? Json.uint8?))
    (← requiredField j "mnemonic" Json.text?)
    ((← optionalField j "operands" Json.text?).getD "")

def EmittedFunction.toJson (e : EmittedFunction) : Json :=
  .record [("function", .ofNat e.function), ("prototype", .text e.prototype),
    ("body", .ofList (fun (l : Line) => .text l.text) e.body)]

def PseudoSource.toJson (p : PseudoSource) : Json :=
  .record [("text", .text p.render), ("functions", .ofList EmittedFunction.toJson p)]

def Event.toJson : Event → Json
  | .instructionsChanged => .text "InstructionsChanged"
  | .treeChanged => .text "TreeChanged"

def Variable.toJson (v : Variable) : Json :=
  ofPair (.text v.name) (.ofList Location.toJson v.locations)

namespace RegionKind

def name : RegionKind → String
  | .block => "Block"
  | .sequence => "Sequence"
  | .ifThen => "IfThen"
  | .ifThenElse => "IfThenElse"
  | .loop => "Loop"
  | .unstructured => "Unstructured"

def ofJson? (j : Json) : Option RegionKind := do
  let name ← j.text?
  [block, sequence, ifThen, ifThenElse, loop, unstructured].find? fun kind => kind.name == name

end RegionKind

def Region.toJson (r : Region) : Json :=
  .record [("kind", .text r.kind.name), ("blocks", .ofList .ofNat r.blocks),
    ("children", .ofList .ofNat r.children)]

def FunctionArtifacts.toJson (a : FunctionArtifacts) : Json :=
  .record [("liveness", .bool a.liveness.isSome), ("types", .bool a.types.isSome),
    ("variables", .bool a.sourceVariables.isSome), ("regions", .bool a.regions.isSome),
    ("is_empty", .bool a.isEmpty)]

/-- A convention with its id, by name. -/
def conventionEntry (c : ConventionId × Convention) : Json := ofPair (.ofNat c.1) (.text c.2.name)

def signatureEntry (s : Nat × FunctionSignature) : Json := ofPair (.ofNat s.1) s.2.toJson

/-- The addresses with a convention or a signature, of those listed. -/
def Loaded.known (l : Loaded) (addresses : List Address) : List Json :=
  addresses.filterMap fun a =>
    let convention := l.conventions.lookup? (.address a)
    let signature := l.signatures.function? (.address a)
    if convention.isNone && signature.isNone then none
    else some (.record [("address", ofAddress a),
      ("convention", .ofOption conventionEntry convention),
      ("signature", .ofOption signatureEntry signature)])

/-- `addresses` are asked about besides those of entries and blocks. -/
def Loaded.toJson (l : Loaded) (addresses : List Address) : Json :=
  let asked := l.program.functionEntries ++ l.program.blocks.keys ++ addresses
  let sorted := (asked.foldl (fun m a => m.insert a ()) (∅ : Std.ExtTreeMap Address Unit)).keys
  .record [("module", l.image.toJson), ("program", l.program.toJson),
    ("registered", .array (l.known sorted)),
    ("conventions", .ofNat l.conventions.registered.length),
    ("conventions_revision", .ofNat l.conventions.revision),
    ("signatures_revision", .ofNat l.signatures.revision)]

end CallEffects
