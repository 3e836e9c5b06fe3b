import SqlCompiler.Request

/-!
# Command Line

The arguments of the command-line tool, and what it does with them. Options stand before the
subcommand they do not belong to; a value follows its option as the next argument, after an equals
sign, or, for a one-letter option, directly.

## Main definitions

- `Arguments.scan?`: arguments sorted into options and positional arguments
- `Command`, `Command.ofArguments?`: what is asked for, where the arguments are well formed
- `Command.run`: the outcome, given the files and the standard input
-/

namespace SqlCompiler

/-! ## §1 Arguments -/

/-- An option: its long name, its letter, and whether it takes a value. -/
structure OptionSpec where
  name : String
  letter : Option Char := none
  takesValue : Bool := true

/-- Options with their values, positional arguments, and the arguments that were not looked at. -/
structure Arguments where
  options : List (String × String) := []
  positionals : List String := []
  rest : List String := []

namespace Arguments

/-- What an argument is by itself. -/
inductive Shape where
  | positional
  /-- Two hyphens: all that follows is positional. -/
  | escape
  /-- Options with values, and possibly one whose value is the next argument. -/
  | options (given : List (String × String)) (awaiting : Option String)
  | unknown

/-- The shape of a long option. -/
def longShape (specs : List OptionSpec) (arg : String) : Shape :=
  let (name, value?) :=
    match Text.splitFirst? "=" arg with
    | some (name, value) => (name, some value)
    | none => (arg, none)
  match specs.find? fun spec => spec.name == name with
  | none => .unknown
  | some spec =>
    match spec.takesValue, value? with
    | true, some value => .options [(name, value)] none
    | true, none => .options [] (some name)
    | false, none => .options [(name, "")] none
    | false, some _ => .unknown

/-- The shape of one-letter options behind a hyphen. The rest after an option with a value is that
value. -/
def shortShape (specs : List OptionSpec) (given : List (String × String)) : List Char → Shape
  | [] => .options given none
  | c :: cs =>
    match specs.find? fun spec => spec.letter == some c with
    | none => .unknown
    | some spec =>
      if spec.takesValue then
        match cs with
        | [] => .options given (some spec.name)
        | '=' :: value => .options (given ++ [(spec.name, String.ofList value)]) none
        | value => .options (given ++ [(spec.name, String.ofList value)]) none
      else shortShape specs (given ++ [(spec.name, "")]) cs

/-- The shape of an argument. A single hyphen is positional. -/
def shape (specs : List OptionSpec) (arg : String) : Shape :=
  match arg.toList with
  | ['-', '-'] => .escape
  | '-' :: '-' :: name => longShape specs (String.ofList name)
  | '-' :: c :: cs => shortShape specs [] (c :: cs)
  | _ => .positional

/-- Whether an argument can be the value of the option before it. -/
def isValue (arg : String) : Bool :=
  arg == "-" || !arg.startsWith "-"

/-- Adds options in front. -/
def withOptions (given : List (String × String)) (a : Arguments) : Arguments :=
  { a with options := given ++ a.options }

/-- Arguments sorted into options and positional ones; if asked for, only up to the first positional
argument. Nothing if an option is unknown or lacks its value. -/
def scan? (specs : List OptionSpec) (untilPositional : Bool) : List String → Option Arguments
  | [] => some {}
  | arg :: rest =>
    match shape specs arg with
    | .positional =>
      if untilPositional then some { positionals := [arg], rest }
      else
        (scan? specs untilPositional rest).map fun a =>
          { a with positionals := arg :: a.positionals }
    -- in front of a subcommand there is nothing to escape
    | .escape => if untilPositional then none else some { positionals := rest }
    | .options given none => (scan? specs untilPositional rest).map (withOptions given)
    | .options given (some name) =>
      match rest with
      | value :: rest =>
        if isValue value then
          (scan? specs untilPositional rest).map (withOptions (given ++ [(name, value)]))
        else none
      | [] => none
    | .unknown => none

/-- Whether no option stands twice. -/
def unrepeated (a : Arguments) : Bool :=
  (a.options.map Prod.fst).Pairwise (· ≠ ·)

/-- The value of an option. -/
def option? (a : Arguments) (name : String) : Option String :=
  (a.options.find? fun (key, _) => key == name).map Prod.snd

/-- Arguments in which no option stands twice. -/
def parse? (specs : List OptionSpec) (untilPositional : Bool) (args : List String) :
    Option Arguments := do
  let a ← scan? specs untilPositional args
  guard a.unrepeated
  return a

end Arguments

/-! ## §2 Commands -/

/-- What is to be done. -/
inductive Action where
  /-- Compile the request of a file, or of the standard input. -/
  | compile (input : Option String) (format : OutputFormat) (inline : Bool)
  /-- List the dialects. -/
  | dialects
deriving DecidableEq, Repr

/-- A well-formed command line. -/
structure Command where
  dialect : Dialect
  config : Option String
  tablePrefix : Option String
  verbose : Bool
  action : Action
deriving DecidableEq, Repr

/-- The environment variables that stand in for missing options. -/
structure Environment where
  dialect : Option String := none
  config : Option String := none

namespace Command

/-- The environment variable for the dialect. -/
def dialectVariable : String := "OXIDE_GRAMMAR_DIALECT"

/-- The environment variable for the path of the options. -/
def configVariable : String := "OXIDE_GRAMMAR_CONFIG"

/-- The options in front of the subcommand. -/
def globalOptions : List OptionSpec :=
  [{ name := "dialect", letter := some 'd' }, { name := "config", letter := some 'c' },
    { name := "table-prefix" }, { name := "verbose", letter := some 'v', takesValue := false }]

/-- The options of the subcommand that compiles. -/
def compileOptions : List OptionSpec :=
  [{ name := "format", letter := some 'f' }, { name := "raw", takesValue := false }]

/-- A path is not empty. -/
def path? (path : String) : Option String :=
  if path.isEmpty then none else some path

/-- The action of a subcommand with its arguments. -/
def action? (subcommand : String) (args : List String) : Option Action :=
  match subcommand with
  | "compile" => do
    let a ← Arguments.parse? compileOptions false args
    let format ← OutputFormat.ofName? ((a.option? "format").getD "text")
    let input ←
      match a.positionals with
      | [] => some none
      | [path] => (path? path).map some
      | _ => none
    return .compile input format (a.option? "raw").isSome
  | "dialects" => do
    let a ← Arguments.parse? [] false args
    guard a.positionals.isEmpty
    return .dialects
  | _ => none

/-- The command of arguments; nothing if they are not well formed. -/
def ofArguments? (env : Environment) (args : List String) : Option Command := do
  let a ← Arguments.parse? globalOptions true args
  let action ← action? (← a.positionals.head?) a.rest
  let dialect ← (Dialect.ofName (((a.option? "dialect") <|> env.dialect).getD "generic")).toOption
  let config ←
    match (a.option? "config") <|> env.config with
    | some path => (path? path).map some
    | none => some none
  return {
    dialect
    config
    tablePrefix := a.option? "table-prefix"
    verbose := (a.option? "verbose").isSome
    action }

/-! ## §3 Outcomes -/

/-- How a run of the tool ends. -/
inductive Outcome where
  /-- The text on standard output. -/
  | success (output : String)
  /-- A file cannot be read, or is no JSON of the right shape. -/
  | unreadable
  /-- The request cannot be compiled. -/
  | fault (fault : Fault)

/-- The exit code of arguments that are not well formed. -/
def usageCode : Nat := 2

/-- The exit code of an outcome. -/
def Outcome.code : Outcome → Nat
  | .success _ => 0
  | .unreadable | .fault _ => 1

/-- The report of a fault. -/
def faultReport (f : Fault) : String :=
  "Grammar error: " ++ f.message

/-- The options of a command, given the files. -/
def options? (c : Command) (file? : String → Option String) : Option Options := do
  let options ←
    match c.config with
    | some path => ((← file? path) |> Json.ofText?).bind Options.decode?
    | none => some {}
  match c.tablePrefix with
  | some text => return { options with tablePrefix := text }
  | none => return options

/-- The request of a file, or of the standard input. -/
def request? (input : Option String) (file? : String → Option String) (stdin : String) :
    Option Request := do
  match input with
  | some path => Request.ofText? (← file? path)
  | none => Request.ofText? stdin

/-- The outcome of a command, given the files and the standard input. -/
def run (c : Command) (file? : String → Option String) (stdin : String) : Outcome :=
  match c.action with
  | .dialects => .success (String.join (Dialect.all.map fun d => d.name ++ "\n"))
  | .compile input format inline =>
    -- options and request are both read before anything is compiled
    match c.options? file?, request? input file? stdin with
    | some options, some request =>
      match request.compile ⟨c.dialect, options⟩ with
      | .ok statements => .success (c.dialect.render statements format inline ++ "\n")
      | .error f => .fault f
    | _, _ => .unreadable

end Command

end SqlCompiler
