import CallEffects.Text.Number

/-!
# Arguments

The arguments are taken from left to right: the program, options in between, and at most one
command, which takes the rest. A value follows its option, or is attached to it with or without an
equals sign; an argument that starts with a dash, other than a lone dash, is not taken for a value.
After `--` nothing is an option or a command. The version option answers as soon as it is met.
-/

namespace CallEffects.CommandLine

inductive Command where
  | ir
  | emit
  | report (json : Bool)
  | conventions
deriving DecidableEq, Repr

structure Options where
  program : Option String
  convention : Option String
  platformDefault : Bool
  guessIndirect : Bool
  iterations : Option Nat
  sequential : Bool
  command : Option Command
deriving DecidableEq, Repr

def Options.none : Options := ⟨.none, .none, false, false, .none, false, .none⟩

/-- Why there are no options to go by. -/
inductive Refusal where
  | version
  | usage
deriving DecidableEq, Repr

inductive ValueOption where
  | convention
  | iterations
deriving DecidableEq, Repr

inductive Flag where
  | platformDefault
  | guessIndirect
  | sequential
deriving DecidableEq, Repr

namespace Options

/-- No option may be given twice. -/
def setValue (o : Options) (option : ValueOption) (value : String) : Except Refusal Options :=
  match option with
  | .convention =>
    if o.convention.isSome then .error .usage else .ok { o with convention := some value }
  | .iterations =>
    match o.iterations, Text.readUnsigned 10 UInt64.size value.toList with
    | .none, .ok n => .ok { o with iterations := some n }
    | _, _ => .error .usage

def setFlag (o : Options) : Flag → Except Refusal Options
  | .platformDefault =>
    if o.platformDefault then .error .usage else .ok { o with platformDefault := true }
  | .guessIndirect =>
    if o.guessIndirect then .error .usage else .ok { o with guessIndirect := true }
  | .sequential => if o.sequential then .error .usage else .ok { o with sequential := true }

def setProgram (o : Options) (path : String) : Except Refusal Options :=
  if o.program.isSome || path.isEmpty then .error .usage else .ok { o with program := some path }

end Options

/-- What an argument is by its form. -/
inductive Shape where
  /-- Ends the options. -/
  | separator
  | valueOption (option : ValueOption) (attached : Option String)
  | flag (flag : Flag)
  | version
  | unknownOption
  | plain
deriving DecidableEq, Repr

def longShape (name : List Char) (attached : Option String) : Shape :=
  match String.ofList name, attached with
  | "convention", value => .valueOption .convention value
  | "iterations", value => .valueOption .iterations value
  | "platform-default", none => .flag .platformDefault
  | "guess-indirect", none => .flag .guessIndirect
  | "sequential", none => .flag .sequential
  | "version", none => .version
  | _, _ => .unknownOption

def attachedToLetter : List Char → Option String
  | [] => none
  | '=' :: value => some (String.ofList value)
  | value => some (String.ofList value)

def shape (argument : String) : Shape :=
  match argument.toList with
  | ['-', '-'] => .separator
  | '-' :: '-' :: rest =>
    let name := rest.takeWhile (· != '=')
    match rest.dropWhile (· != '=') with
    | [] => longShape name none
    | _ :: value => longShape name (some (String.ofList value))
  | '-' :: 'c' :: rest => .valueOption .convention (attachedToLetter rest)
  | '-' :: 'i' :: rest => .valueOption .iterations (attachedToLetter rest)
  | '-' :: 'V' :: _ => .version
  | '-' :: _ :: _ => .unknownOption
  | _ => .plain

/-- A command with the arguments after it. -/
def readCommand : String → List String → Option (Except Refusal Command)
  | "ir", rest => some (if rest ∈ [[], ["--"]] then .ok .ir else .error .usage)
  | "emit", rest => some (if rest ∈ [[], ["--"]] then .ok .emit else .error .usage)
  | "conventions", rest => some (if rest ∈ [[], ["--"]] then .ok .conventions else .error .usage)
  | "report", rest =>
    some (if rest ∈ [[], ["--"]] then .ok (.report false)
      else if rest ∈ [["--json"], ["--json", "--"]] then .ok (.report true)
      else .error .usage)
  | _, _ => none

def readPlain (o : Options) (arguments : List String) : Except Refusal Options :=
  arguments.foldlM Options.setProgram o

def readOptions (o : Options) : List String → Except Refusal Options
  | [] => .ok o
  | argument :: rest =>
    match shape argument with
    | .separator => readPlain o rest
    | .flag flag => do readOptions (← o.setFlag flag) rest
    | .version => .error .version
    | .unknownOption => .error .usage
    | .valueOption option (some value) => do readOptions (← o.setValue option value) rest
    | .valueOption option none =>
      match rest with
      | [] => .error .usage
      | value :: rest =>
        if shape value = .plain then do readOptions (← o.setValue option value) rest
        else .error .usage
    | .plain =>
      match readCommand argument rest with
      | some command => do return { o with command := some (← command) }
      | none => do readOptions (← o.setProgram argument) rest

/-- A program is always needed. -/
def parseArguments (arguments : List String) : Except Refusal Options := do
  let o ← readOptions .none arguments
  if o.program.isSome then .ok o else .error .usage

end CallEffects.CommandLine
