import ObjectSpec.FileTree
import ObjectSpec.Json.Printer
import ObjectSpec.Registry.Standard
import ObjectSpec.Settings.Load
import ObjectSpec.Spec.Basic
import ObjectSpec.Tree.Json

/-!
# Command line

The program reads a spec, prints its canonical text or its tree in JSON, and
checks its type names on request. This module says what it does with its
arguments and with the texts it is given; reading files is left to its caller.
-/

namespace ObjectSpec.CommandLine

structure Options where
  /-- The file to read instead of the standard input. -/
  file : Option String := none
  json : Bool := false
  check : Bool := false
  config : Option String := none
deriving DecidableEq

/-- What the arguments ask for. -/
inductive Request
  | run (options : Options)
  | version
  | help
  | refused (argument : String)
deriving DecidableEq

namespace Options

/-- Set an option that takes a value, which must not be empty. No option comes twice. -/
def set? (o : Options) (name value : String) : Option Options :=
  if value = "" then none
  else if name = "file" ∧ o.file.isNone then some { o with file := some value }
  else if name = "config" ∧ o.config.isNone then some { o with config := some value }
  else none

/-- Set an option that takes no value. -/
def flag? (o : Options) (name : String) : Option Options :=
  if name = "json" ∧ !o.json then some { o with json := true }
  else if name = "check" ∧ !o.check then some { o with check := true }
  else none

end Options

/-- What one argument does. -/
inductive Step
  /-- Set an option to the value in the same argument. -/
  | set (name value : String)
  /-- Set an option to the next argument. -/
  | await (name : String)
  | flag (name : String)
  | version
  | help
  /-- No options follow. -/
  | ending
  /-- A value, or something unknown. -/
  | value
  | unknown
deriving DecidableEq

/-- A long option, with what stands after an equals sign. -/
def longStep (name : String) (value : Option String) : Step :=
  if ["file", "config"].contains name then
    match value with
    | some v => .set name v
    | none => .await name
  else if value.isSome then .unknown
  else if name = "version" then .version
  else if name = "help" then .help
  else .flag name

/-- A short option, with what stands behind its letter. An equals sign may come first. -/
def shortStep (letter : Char) (behind : List Char) : Step :=
  if letter = 'V' then .version
  else if letter = 'h' then .help
  else if letter = 'f' then
    if behind.isEmpty then .await "file"
    else .set "file" (String.ofList (if behind.head? = some '=' then behind.tail else behind))
  else .unknown

def step (argument : String) : Step :=
  match argument.toList with
  | ['-', '-'] => .ending
  | '-' :: '-' :: text =>
    longStep (String.ofList (text.takeWhile (· != '=')))
      ((text.dropWhile (· != '=')).tail?.map String.ofList)
  | '-' :: letter :: behind => shortStep letter behind
  | _ => .value

/-- The options after one more argument, and the option that awaits its value then. -/
def advance (o : Options) (awaiting : Option String) (argument : String) :
    Option (Options × Option String) :=
  match awaiting, step argument with
  | some name, .value => (o.set? name argument).map (·, none)
  | none, .set name value => (o.set? name value).map (·, none)
  | none, .await name => some (o, some name)
  | none, .flag name => (o.flag? name).map (·, none)
  | _, _ => none

/-- Read arguments from left to right. The first that asks for something else decides. -/
def read (o : Options) (awaiting : Option String) : List String → Request
  | [] =>
    match awaiting with
    | some name => .refused name
    | none => .run o
  | argument :: rest =>
    match awaiting, step argument with
    | none, .version => .version
    | none, .help => .help
    | none, .ending =>
      -- There are no arguments other than options, so nothing may follow.
      match rest with
      | [] => .run o
      | extra :: _ => .refused extra
    | _, _ =>
      match advance o awaiting argument with
      | some (o, awaiting) => read o awaiting rest
      | none => .refused argument

/-- What the arguments ask for. The environment names the settings if no argument does. -/
def request (arguments : List String) (environment : Option String) : Request :=
  match read {} none arguments with
  | .run o =>
    match o.config, environment with
    | none, some "" => .refused Settings.pathVariable
    | none, some path => .run { o with config := some path }
    | _, _ => .run o
  | other => other

/-- What the program leaves behind. -/
structure Outcome where
  exitCode : Nat
  output : String := ""
  errors : String := ""
deriving DecidableEq

namespace Outcome

/-- Nothing but a reason. -/
def failed (reason : String) : Outcome := { exitCode := 1, errors := s!"error: {reason}\n" }

end Outcome

def versionText : String := "spec_cli 0.1.0\n"

def helpText : String :=
  "Parse object specs, print canonical text, check type names\n\n" ++
  "Usage: spec_cli [OPTIONS]\n\n" ++
  "Options:\n" ++
  "  -f, --file <FILE>      Input file (reads stdin if not provided)\n" ++
  "      --json             Print the parsed tree as JSON instead of canonical text\n" ++
  "      --check            Validate type names against the standard registry\n" ++
  "      --config <CONFIG>  Config file (defaults to SPEC_REPO_CONFIG, then ./spec-repo.yaml)\n" ++
  "  -h, --help             Print help\n" ++
  "  -V, --version          Print version\n"

/-- The settings in a text that was read from `path`, or the message that there are none. -/
def settingsFrom (path : String) (text : Except ReadError String) : Except String Settings :=
  match text with
  | .error e => .error s!"{(Settings.LoadError.unreadable path).summary}: {e.message}"
  | .ok source =>
    (Settings.load (fun _ => some source) (some path)).mapError Settings.LoadError.message

/-- The lines of a check: the diagnostics, and a line that sums up. -/
def checkLines (r : Catalog.Report) : String :=
  let summary := s!"checked {r.constructs} construct(s), {r.unknown} unknown type(s), " ++
    s!"nesting depth {r.depth}"
  String.join ((r.diagnostics.map Diagnostic.text ++ [summary]).map (· ++ "\n"))

/-- Print a spec, and check it if that is asked for. -/
def print (o : Options) (settings : Settings) (source : String) : Outcome :=
  let repo : Repo Unit := ⟨.standard, settings⟩
  match repo.make .anonymous source with
  | .error e => .failed (e.diagnostic source).text
  | .ok spec =>
    let output := (if o.json then spec.root.toJson.pretty 0 else spec.text) ++ "\n"
    if o.check then
      let report := spec.check
      { exitCode := if report.isValid then 0 else 1, output, errors := checkLines report }
    else { exitCode := 0, output }

/-- Do what the options say, with the settings and the text to read. The settings come first. -/
def run (o : Options) (settings : Except String Settings) (input : Except ReadError String) :
    Outcome :=
  match settings with
  | .error reason => .failed reason
  | .ok settings =>
    match input with
    | .ok source => print o settings source
    | .error e =>
      match o.file with
      | some path => .failed s!"Failed to read '{path}': {e.message}"
      | none => .failed s!"Failed to read stdin: {e.message}"

end ObjectSpec.CommandLine
