import ObjectSpec.CommandLine

/-!
# The program

Files, the environment and the standard streams.
-/

namespace ObjectSpec.Program

/-- Bytes as text. -/
def decode (bytes : ByteArray) : Except ReadError String :=
  match String.fromUTF8? bytes with
  | some text => .ok text
  | none => .error .notText

/-- The number of a system error, which some calls give with a minus sign. -/
def errorNumber (code : UInt32) : Nat := code.toInt32.toInt.natAbs

/-- The reason of a failure to read. -/
def readError (e : IO.Error) : ReadError :=
  let code : Option UInt32 :=
    match e with
    | .noFileOrDirectory _ code _ | .inappropriateType _ code _ | .permissionDenied _ code _
    | .invalidArgument _ code _ | .resourceExhausted _ code _ => some code
    | .otherError code _ => some code
    | _ => none
  ((code.map errorNumber).bind ReadError.ofCode?).getD (.other (toString e))

def readFile (path : String) : IO (Except ReadError String) := do
  try
    return decode (← IO.FS.readBinFile path)
  catch e =>
    return .error (readError e)

/-- The rest of a stream. -/
partial def readAll (stream : IO.FS.Stream) (bytes : ByteArray) : IO ByteArray := do
  let more ← stream.read 65536
  if more.isEmpty then return bytes else readAll stream (bytes ++ more)

def readInput (file : Option String) : IO (Except ReadError String) := do
  match file with
  | some path => readFile path
  | none => return decode (← readAll (← IO.getStdin) .empty)

/-- The settings of the named file, of the file in the working directory, or the usual ones. -/
def readSettings (named : Option String) : IO (Except String Settings) := do
  let present ← match ← readFile Settings.defaultFile with
    | .error .notFound => pure false
    | _ => pure true
  match Settings.path? named fun _ => present with
  | none => return .ok {}
  | some path => return CommandLine.settingsFrom path (← readFile path)

/-- Do what the options say, and print what there is to print. -/
def run (options : CommandLine.Options) : IO UInt32 := do
  let settings ← readSettings options.config
  let input ← match settings with
    | .ok _ => readInput options.file
    | .error _ => pure (.ok "")
  let outcome := CommandLine.run options settings input
  IO.print outcome.output
  IO.eprint outcome.errors
  return outcome.exitCode.toUInt32

end ObjectSpec.Program

open ObjectSpec in
def main (arguments : List String) : IO UInt32 := do
  let environment ← IO.getEnv Settings.pathVariable
  match CommandLine.request arguments environment with
  | .version => IO.print CommandLine.versionText; return 0
  | .help => IO.print CommandLine.helpText; return 0
  | .refused argument => IO.eprintln s!"error: unexpected argument '{argument}'"; return 2
  | .run options => Program.run options
