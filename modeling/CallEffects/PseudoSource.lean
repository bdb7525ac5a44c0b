import CallEffects.Error
import CallEffects.Signature.Registry

/-!
# Pseudo-source

The program as C-like text, a prototype and a body for each function. It is made from code without
synthetic statements only: these describe assumptions of the analysis and not what the program
does, so a function that holds one is an error.
-/

namespace CallEffects

inductive Line where
  | label (block : BlockId)
  | code (text : String)
deriving DecidableEq, Repr

namespace Line

def text : Line → String
  | .label block => BlockId.render block ++ ":"
  | .code s => s

def indented : Line → String
  | .label block => (label block).text
  | .code s => "    " ++ s

end Line

structure EmittedFunction where
  function : FunctionId
  prototype : String
  body : List Line
deriving DecidableEq, Repr

abbrev PseudoSource := List EmittedFunction

namespace EmittedFunction

/-- No code for statements without effect, nor for the kinds that come from hooks only. -/
def statementCode? (fs : Functions) (successors : List BlockId) : StatementKind → Option String
  | .assign dst src => some (dst.render ++ " = " ++ src.render ++ ";")
  | .call (.direct address) =>
    let unnamed := "sub_" ++ String.ofList (Text.hexDigits address.toNat)
    some (((fs.startingAt? address).map (·.name)).getD unnamed ++ "();")
  | .call (.indirect location) => some ("(*" ++ location.render ++ ")();")
  | .ret _ => some "return;"
  | .jump => some ("goto " ++ " | ".intercalate (successors.map BlockId.render) ++ ";")
  | .nop | .touch .. | .kill _ | .adjustStack .. => none

/-- Blocks are labelled if there are several. -/
def of (fs : Functions) (signatures : Signatures) (f : Function) : EmittedFunction :=
  let signature := ((signatures.function? (.ofFunction f)).map (·.2)).getD .unknown
  let labels := fun (b : BlockId) => if f.blocks.length > 1 then [Line.label b] else []
  { function := f.id
    prototype := signature.prototype f.name
    body := f.blocks.zipIdx.flatMap fun (block, b) =>
      labels b ++ (block.statements.filterMap fun s =>
        (statementCode? fs block.successors s.kind).map Line.code) }

def render (e : EmittedFunction) : String :=
  e.prototype ++ " \x7b\n" ++ String.join (e.body.map fun l => l.indented ++ "\n") ++ "\x7d\n"

end EmittedFunction

namespace PseudoSource

def leak? (f : Function) : Option AnalysisError :=
  (f.statements.find? (·.isSynthetic)).map fun s => .syntheticLeak f.id s.id

def emit (fs : Functions) (signatures : Signatures) : Except AnalysisError PseudoSource :=
  match fs.findSome? leak? with
  | some error => .error error
  | none => .ok (fs.map (EmittedFunction.of fs signatures))

/-- Functions are set apart by an empty line. -/
def render (p : PseudoSource) : String := "\n".intercalate (p.map EmittedFunction.render)

end PseudoSource

end CallEffects
