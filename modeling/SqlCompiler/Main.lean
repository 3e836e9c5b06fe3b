import SqlCompiler.CommandLine

/-!
# The Tool

The command-line tool: arguments, environment, files and streams.
-/

namespace SqlCompiler

/-- The text of a file, if it can be read. -/
def readText? (path : String) : IO (Option String) := do
  try
    return some (← IO.FS.readFile path)
  catch _ =>
    return none

/-- The files that a command reads. -/
def Command.files (c : Command) : List String :=
  let input :=
    match c.action with
    | .compile (some path) _ _ => [path]
    | _ => []
  c.config.toList ++ input

/-- The standard input, for a command that reads it. -/
def Command.readInput (c : Command) : IO String := do
  match c.action with
  | .compile none _ _ => (← IO.getStdin).readToEnd
  | _ => return ""

/-- Runs a well-formed command. -/
def Command.execute (c : Command) : IO UInt32 := do
  let texts ← c.files.mapM fun path => return (path, ← readText? path)
  let file? path := (texts.find? fun entry => entry.1 == path).bind Prod.snd
  let outcome := c.run file? (← c.readInput)
  match outcome with
  | .success output => IO.print output
  | .unreadable => IO.eprintln "Error: a file could not be read as JSON of the expected form"
  | .fault f => IO.eprintln ("Error: " ++ faultReport f)
  return UInt32.ofNat outcome.code

end SqlCompiler

/-- The entry point of the tool. -/
def main (args : List String) : IO UInt32 := do
  let env : SqlCompiler.Environment := {
    dialect := ← IO.getEnv SqlCompiler.Command.dialectVariable
    config := ← IO.getEnv SqlCompiler.Command.configVariable }
  match SqlCompiler.Command.ofArguments? env args with
  | some command => command.execute
  | none =>
    IO.eprintln "error: the arguments do not form a command"
    return UInt32.ofNat SqlCompiler.Command.usageCode
