import CallEffects.CommandLine

/-!
# The program

Reads the file, prints what the command line answers with, and exits with 0, with 1 after a failure
and with 2 if the arguments cannot be understood.
-/

open CallEffects

def readDescription (path : String) : IO (Except String String) :=
  try
    return .ok (← IO.FS.readFile path)
  catch
    | .noFileOrDirectory .. => return .error "No such file or directory (os error 2)"
    | e => return .error (toString e)

def main (arguments : List String) : IO UInt32 := do
  let contents ←
    match CommandLine.parseArguments arguments with
    | .ok o => readDescription (o.program.getD "")
    | .error _ => pure (.error "")
  match CommandLine.run arguments fun _ => contents with
  | .success output =>
    IO.print output
    return 0
  | .failure cause =>
    IO.eprint cause.render
    return 1
  | .usage =>
    IO.eprintln "usage: hexhook [OPTIONS] <PROGRAM> [COMMAND]"
    return 2
