import GrantCompiler.CommandLine.Log
import GrantCompiler.CommandLine.Run

/-!
# The program

Reads the files that the settings name, leaves the work to `CommandLine.prepare`, and puts the
policies out.  Findings and failures go to standard error.
-/

set_option autoImplicit false

namespace GrantCompiler.CommandLine

/-- The number that the system gives an error, which may be handed on negated. -/
def errorNumber (code : UInt32) : Nat := min code.toNat (UInt32.size - code.toNat)

/-- Why the system refused a file. -/
def fileFailure : IO.Error → FileFailure
  | .noFileOrDirectory .. => .notFound
  | .inappropriateType _ code _ => if errorNumber code = 20 then .notDirectory else .isDirectory
  | .invalidArgument _ code text =>
    if errorNumber code = 36 then .nameTooLong else .other text
  | .permissionDenied .. => .other "Permission denied (os error 13)"
  | e => .other (toString e)

/-- What the system says to a text that it does not take. -/
def refusal : IO.Error → String
  | .resourceExhausted .. => noSpace
  | e => toString e

/-- Reads a file of the system. -/
def readSystemFile (path : String) : IO (Except FileFailure String) := do
  match ← (IO.FS.readBinFile path).toBaseIO with
  | .ok bytes =>
    return match String.fromUTF8? bytes with
      | some text => .ok text
      | none => .error .notText
  | .error e => return .error (fileFailure e)

/-- Writes a text to a stream of the system, or says why it could not. -/
def writeTo (stream : IO.FS.Stream) (text : String) : IO (Option Failure) := do
  match ← (do stream.putStr text; stream.flush : IO Unit).toBaseIO with
  | .ok () => return none
  | .error e => return some (.writing (.device (refusal e)))

/-- Puts the text of a run out, or says why it could not. -/
def putOut (s : Settings) (text : String) : IO (Option Failure) := do
  match s.outputFile with
  | none => writeTo (← IO.getStdout) text
  | some path =>
    match ← (IO.FS.Handle.mk path .write).toBaseIO with
    | .ok handle => writeTo (.ofHandle handle) text
    | .error e => return some (.output path (fileFailure e))

/-- Reports why a run failed. -/
def fail (e : Failure) : IO UInt32 := do
  IO.eprintln ("Error: " ++ e.message)
  return 1

/-- Refuses the arguments, possibly over a binding that spells none. -/
def refuse (malformed : Option String) : IO UInt32 := do
  IO.eprintln ("error: " ++
    match malformed with
    | none => "the arguments are not understood"
    | some argument => (Locator.Failure.malformedBinding argument).message)
  return 2

/-- A run that its arguments have been accepted for. -/
def execute (s : Settings) : IO UInt32 := do
  let texts ← s.inputs.mapM fun path => do return (path, ← readSystemFile path)
  let prepared := prepare s fun path => (texts.lookup path).getD (.error .notFound)
  for d in prepared.warnings do
    IO.eprintln (" WARN " ++ d.logText)
  match prepared.policies with
  | .error e => fail e
  | .ok policies =>
    match ← putOut s (policies.text s.layout) with
    | some e => fail e
    | none => return 0

end GrantCompiler.CommandLine

open GrantCompiler.CommandLine in
/-- The whole program: reads the arguments, and runs what they ask for. -/
def main (arguments : List String) : IO UInt32 := do
  match Settings.parse arguments (← IO.getEnv "LOG_LEVEL") with
  | .error .help =>
    IO.print helpText
    return 0
  | .error .version =>
    IO.print versionText
    return 0
  | .error .refused => refuse none
  | .error (.malformedBinding argument) => refuse (GrantCompiler.Terminal.plain? argument)
  | .ok s => execute s
