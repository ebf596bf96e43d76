/-!
# Arguments

What the process is asked to do. The one option comes before the command, with its value behind it
or behind an equal sign. Arguments are taken from left to right, and the first that asks for help or
makes no sense decides.
-/

namespace Roster.Command

/-- What the process is started for. -/
inductive Job where
  /-- serves queries -/
  | locate
  /-- runs one cycle -/
  | syncOnce
  deriving DecidableEq, Repr

/-- What the arguments ask for. -/
inductive Request where
  /-- the arguments make no sense -/
  | misuse
  | help
  | run (configPath : String) (job : Job)
  deriving DecidableEq, Repr

/-- The configuration file that is read unless another one is named. -/
def standardConfigPath : String := "mlabns.yaml"

/-- The name of the option that names the configuration file. -/
def configOption : String := "--config-file-path"

/-- The job with a name. -/
def Job.ofName? : String → Option Job
  | "locate" => some .locate
  | "sync-once" => some .syncOnce
  | _ => none

/-- Whether an argument asks for help. Short options may be written together. -/
def asksForHelp (argument : String) : Bool :=
  argument = "--help" || "-h".isPrefixOf argument

/-- Whether an argument is an option, and so no value of one. -/
def isOption (argument : String) : Bool :=
  "-".isPrefixOf argument && argument ≠ "-"

/-- What is asked for once the job is named. Nothing but a call for help may follow. -/
def afterJob (configPath : String) (job : Job) : List String → Request
  | [] | ["--"] => .run configPath job
  | argument :: _ => if asksForHelp argument then .help else .misuse

/-- What is asked for after the word `help`. -/
def afterHelp : List String → Request
  | [] | ["locate"] | ["sync-once"] | ["help"] => .help
  | _ => .misuse

/-- The value behind the equal sign, if an argument is the option with one. -/
def inlineValue? (argument : String) : Option String :=
  let start := (configOption ++ "=").toList
  if start.isPrefixOf argument.toList then some (.ofList (argument.toList.drop start.length))
  else none

/-- Takes the arguments, where `path` is the value of the option if it was given. -/
def readFrom (path : Option String) : List String → Request
  | [] => .misuse
  | "--" :: _ => .misuse
  | argument :: rest =>
    if asksForHelp argument then .help
    else if argument = configOption then
      match rest with
      | value :: rest =>
        if path.isSome ∨ isOption value ∨ value = "" then .misuse else readFrom (some value) rest
      | [] => .misuse
    else
      match inlineValue? argument with
      | some value => if path.isSome ∨ value = "" then .misuse else readFrom (some value) rest
      | none =>
        match Job.ofName? argument with
        | some job => afterJob (path.getD standardConfigPath) job rest
        | none => if argument = "help" then afterHelp rest else .misuse

/-- What all arguments together ask for. -/
def read (arguments : List String) : Request :=
  readFrom none arguments

/-- The text that explains the arguments. -/
def usage : String :=
  "Measurement target lookup service\n\nUsage: mlabns [OPTIONS] <COMMAND>\n\nCommands:\n" ++
  "  locate     Serve the query API, synchronizing the rate table when configured to\n" ++
  "  sync-once  Run one synchronization cycle and exit\n" ++
  "  help       Print this message or the help of the given subcommand(s)\n\nOptions:\n" ++
  "      --config-file-path <CONFIG_FILE_PATH>  [default: mlabns.yaml]\n" ++
  "  -h, --help                                 Print help\n"

end Roster.Command
