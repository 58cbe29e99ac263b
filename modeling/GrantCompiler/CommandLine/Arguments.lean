import GrantCompiler.Locator.Binding

/-!
# Arguments

Arguments are read from left to right.  A word after two dashes is a long option, letters after one
dash are short ones, and a value stands either in the same argument or in the next one, where it may
not look like an option.  There are no other arguments, so anything else is refused, and so is a
second use of anything but the binding of a locator.

A value in an argument of its own is only judged when the next option is taken up or when the
arguments end.  So the first fault in reading order is the one that is reported, except that an
argument that cannot be taken up at all comes before a bad value right in front of it.
-/

set_option autoImplicit false

namespace GrantCompiler
namespace CommandLine

open Locator (Binding)

/-! ## What can be set -/

/-- How much is logged. -/
inductive LogLevel
  | trace
  | debug
  | info
  | warn
  | error
deriving DecidableEq

/-- The level that a word names. -/
def LogLevel.ofText? : String → Option LogLevel
  | "trace" => some .trace
  | "debug" => some .debug
  | "info" => some .info
  | "warn" => some .warn
  | "error" => some .error
  | _ => none

/-- Whether warnings are logged. -/
def LogLevel.showsWarnings (level : LogLevel) : Bool := level != .error

/-- What the arguments of a run ask for; what they leave open has a default. -/
structure Settings where
  logLevel : Option LogLevel
  stage : Option String
  region : Option String
  provider : Option String
  /-- In the order in which they are given. -/
  bindings : List Binding
  locatorsFile : Option String
  appsFile : Option String
  usageFile : Option String
  outputFile : Option String
  pretty : Bool
  strict : Bool

/-- Settings that leave everything open. -/
def Settings.initial : Settings :=
  ⟨none, none, none, none, [], none, none, none, none, false, false⟩

/-- An option that takes a value. -/
inductive Parameter
  | logLevel
  | stage
  | region
  | provider
  | binding
  | locatorsFile
  | appsFile
  | usageFile
  | outputFile

/-- An option that takes none. -/
inductive Switch
  | pretty
  | strict
  | help
  | version

/-- The parameter with a long name. -/
def parameterOfName? : String → Option Parameter
  | "log-level" => some .logLevel
  | "stage" => some .stage
  | "region" => some .region
  | "provider" => some .provider
  | "locator" => some .binding
  | "locators-file" => some .locatorsFile
  | "apps-file" => some .appsFile
  | "usage-file" => some .usageFile
  | "output-file" => some .outputFile
  | _ => none

/-- The parameter with a letter; some have none. -/
def parameterOfLetter? : Char → Option Parameter
  | 's' => some .stage
  | 'r' => some .region
  | 'p' => some .provider
  | 'l' => some .binding
  | 'a' => some .appsFile
  | 'u' => some .usageFile
  | 'o' => some .outputFile
  | _ => none

/-- The switch with a long name. -/
def switchOfName? : String → Option Switch
  | "pretty" => some .pretty
  | "strict" => some .strict
  | "help" => some .help
  | "version" => some .version
  | _ => none

/-- The switch with a letter; only those that end everything have one. -/
def switchOfLetter? : Char → Option Switch
  | 'h' => some .help
  | 'V' => some .version
  | _ => none

/-! ## Reading -/

/-- Why no run comes of the arguments. -/
inductive Stop
  | help
  | version
  /-- The arguments are refused. -/
  | refused
  /-- They are refused because of a binding that spells none. -/
  | malformedBinding (argument : String)

/-- The first value of something that may be set once. -/
def once {α : Type} (held : Option α) (value : α) : Except Stop (Option α) :=
  match held with
  | none => .ok (some value)
  | some _ => .error .refused

/-- The first path of something; a path has at least one character. -/
def oncePath (held : Option String) (path : String) : Except Stop (Option String) :=
  if path.isEmpty then .error .refused else once held path

/-- Sets a parameter to a value that it can take.  All but the binding can be set only once. -/
def Settings.set (s : Settings) (p : Parameter) (value : String) : Except Stop Settings :=
  match p with
  | .logLevel =>
    match LogLevel.ofText? value with
    | none => .error .refused
    | some level => do return { s with logLevel := ← once s.logLevel level }
  | .stage => do return { s with stage := ← once s.stage value }
  | .region => do return { s with region := ← once s.region value }
  | .provider => do return { s with provider := ← once s.provider value }
  | .binding =>
    match Binding.parse? value with
    | none => .error (.malformedBinding value)
    | some b => .ok { s with bindings := s.bindings ++ [b] }
  | .locatorsFile => do return { s with locatorsFile := ← oncePath s.locatorsFile value }
  | .appsFile => do return { s with appsFile := ← oncePath s.appsFile value }
  | .usageFile => do return { s with usageFile := ← oncePath s.usageFile value }
  | .outputFile => do return { s with outputFile := ← oncePath s.outputFile value }

/-- Turns on a switch that is off.  Help and the version are asked for instead of a run. -/
def Settings.switch (s : Settings) : Switch → Except Stop Settings
  | .pretty => if s.pretty then .error .refused else .ok { s with pretty := true }
  | .strict => if s.strict then .error .refused else .ok { s with strict := true }
  | .help => .error .help
  | .version => .error .version

/-- What has been read so far: what is set, and a parameter with its value, if that has come, which
has not been judged. -/
structure Reading where
  settings : Settings
  pending : Option (Parameter × Option String)

namespace Reading

/-- Judges the value that is pending; one that has not come is refused. -/
def settle (r : Reading) : Except Stop Settings :=
  match r.pending with
  | none => .ok r.settings
  | some (p, some value) => r.settings.set p value
  | some (_, none) => .error .refused

/-- Takes up a parameter, with its value if that stands in the same argument. -/
def parameter (r : Reading) (p : Parameter) (attached : Option String) : Except Stop Reading := do
  let settings ← r.settle
  match attached with
  | some value => return ⟨← settings.set p value, none⟩
  | none => return ⟨settings, some (p, none)⟩

/-- Takes up a switch. -/
def switch (r : Reading) (s : Switch) : Except Stop Reading := do
  return ⟨← (← r.settle).switch s, none⟩

/-- A word after two dashes, with what follows its first equals sign as the value. -/
def long (r : Reading) (word : List Char) : Except Stop Reading :=
  let name := String.ofList (word.takeWhile (· != '='))
  let attached := match word.dropWhile (· != '=') with
    | _ :: value => some (String.ofList value)
    | [] => none
  match parameterOfName? name, switchOfName? name, attached with
  | some p, _, _ => r.parameter p attached
  | none, some s, none => r.switch s
  | _, _, _ => .error .refused

/-- Letters after one dash.  What follows the letter of a parameter is its value, less an equals
sign in front. -/
def short (r : Reading) : List Char → Except Stop Reading
  | [] => .ok r
  | c :: rest =>
    match parameterOfLetter? c, switchOfLetter? c with
    | some p, _ =>
      match rest with
      | [] => r.parameter p none
      | '=' :: value => r.parameter p (some (String.ofList value))
      | value => r.parameter p (some (String.ofList value))
    | none, some s => do (← r.switch s).short rest
    | none, none => .error .refused

/-- An argument that does not look like an option, which has to be the value that is waited for. -/
def value (r : Reading) (argument : String) : Except Stop Reading :=
  match r.pending with
  | some (p, none) => .ok { r with pending := some (p, some argument) }
  | _ => .error .refused

/-- Reads arguments to the end.  Nothing may follow two dashes by themselves. -/
def all (r : Reading) : List String → Except Stop Settings
  | [] => r.settle
  | argument :: rest =>
    match argument.toList with
    | ['-', '-'] => if rest.isEmpty then r.settle else .error .refused
    | '-' :: '-' :: word => do (← r.long word).all rest
    | '-' :: c :: letters => do (← r.short (c :: letters)).all rest
    | _ => do (← r.value argument).all rest

end Reading

/-- The settings that arguments ask for.  A log level that they leave open is taken from the
environment, if it is set there. -/
def Settings.parse (arguments : List String) (environmentLevel : Option String) :
    Except Stop Settings := do
  let s ← Reading.all ⟨.initial, none⟩ arguments
  match s.logLevel, environmentLevel with
  | none, some text =>
    match LogLevel.ofText? text with
    | none => throw .refused
    | some level => return { s with logLevel := some level }
  | _, _ => return s

end CommandLine
end GrantCompiler
