import GrantCompiler.CommandLine.Arguments
import GrantCompiler.CommandLine.Terminal
import GrantCompiler.Compilation
import GrantCompiler.FileSystem
import GrantCompiler.Locator.Builder
import GrantCompiler.Policy.Record

/-!
# Runs

A run collects locators, reads the two documents, compiles them, and writes the records to standard
output or to a file.  `prepare` is everything up to the writing: it only reads, and answers with
the policies to be written or with the reason why there are none.  `run` is a whole run over a file
system, from the arguments to what it leaves behind.
-/

set_option autoImplicit false

namespace GrantCompiler
namespace CommandLine

open Locator (Builder)

/-- What the program is called by. -/
def programName : String := "iamgen"

/-- What the program calls its version. -/
def programVersion : String := "0.0.1-stage1-phase2"

/-- What is put out on request instead of a run. -/
def versionText : String := programName ++ " " ++ programVersion ++ "\n"

/-- What is put out on request instead of a run: the purpose of the program and the form of its
arguments. -/
def helpText : String :=
  "Generate auth config for infra resources\n\nUsage: " ++ programName ++ " [OPTIONS]\n"

/-- Where the applications are listed, unless the arguments say otherwise. -/
def defaultAppsFile : String := "./apps.yaml"

/-- Where the usage is declared, unless the arguments say otherwise. -/
def defaultUsageFile : String := "./resource-usage.yaml"

namespace Settings

/-- The path of the document on applications. -/
def appsPath (s : Settings) : String := s.appsFile.getD defaultAppsFile

/-- The path of the document on usage. -/
def usagePath (s : Settings) : String := s.usageFile.getD defaultUsageFile

/-- The layout that the records are put out in. -/
def layout (s : Settings) : Layout := if s.pretty then .indented else .compact

/-- The steps that collect locators: options first, then the file, then single bindings. -/
def steps (s : Settings) (read : ReadFile) : List Builder.Step :=
  [.provider (s.provider.getD Locator.defaultProvider),
    .region (s.region.getD Locator.defaultRegion),
    .stage (s.stage.getD Locator.defaultStage)] ++
  (s.locatorsFile.toList.map fun path => .file path (read path)) ++
  s.bindings.map fun b => .binding b.key b.value

/-- The files that a run reads. -/
def inputs (s : Settings) : List String := s.locatorsFile.toList ++ [s.appsPath, s.usagePath]

/-- The findings that are logged. -/
def warnings (s : Settings) (diagnostics : Diagnostics) : Diagnostics :=
  if (s.logLevel.getD .info).showsWarnings then diagnostics else []

end Settings

/-! ## Up to the writing -/

/-- Why a run failed. -/
inductive Failure
  | locators (cause : Locator.Failure)
  | compilation (cause : CompileFailure)
  /-- There are findings, and the run is strict. -/
  | strict (findings : Nat)
  | output (path : String) (cause : FileFailure)
  /-- The output took no more. -/
  | writing (cause : WriteFailure)

/-- The text of a failure, of which the first words say what failed. -/
def Failure.message : Failure → String
  | locators cause => "Locator error: " ++ cause.message
  | compilation cause => cause.message
  | strict findings => toString findings ++ " diagnostic(s) reported in strict mode"
  | output path cause => "I/O error on " ++ path ++ ": " ++ cause.message
  | writing cause => cause.message

/-- What a run logs, and the policies it comes to. -/
structure Prepared where
  warnings : Diagnostics
  policies : Except Failure Policies

/-- Collects, reads and compiles. -/
def compileSettings (s : Settings) (read : ReadFile) : Except Failure Compilation := do
  let locators ← (Locator.collect (s.steps read)).mapError Failure.locators
  (compileFiles read s.appsPath s.usagePath locators).mapError Failure.compilation

/-- All of a run but the writing.  A strict run has no policies if there are findings, and logs them
all the same. -/
def prepare (s : Settings) (read : ReadFile) : Prepared :=
  match compileSettings s read with
  | .error e => ⟨[], .error e⟩
  | .ok c =>
    ⟨s.warnings c.diagnostics,
      if s.strict && !c.diagnostics.isEmpty then .error (.strict c.diagnostics.length)
      else .ok c.policies⟩

/-! ## Writing -/

/-- What a run writes to. -/
def Settings.target (s : Settings) (files : FileSystem) : Except Failure FileSystem.Target :=
  match s.outputFile with
  | none => .ok (.sink .output)
  | some path => (files.create path).mapError (Failure.output path)

/-- The bytes that are gathered before any is handed on. -/
def bufferSize : Nat := 8192

/-- What the system says when a device takes no more. -/
def noSpace : String := "No space left on device (os error 28)"

/-- A full device behind a buffer: it refuses when the buffer has to be handed on, and in the end
if a text has been gathered. -/
def fullDevice (text : String) : Device where
  room := bufferSize
  refusal := noSpace
  flushRefusal := if text.isEmpty then none else some noSpace
  received := []

/-! ## Whole runs -/

/-- What came of a run. -/
inductive Ending
  | done
  | failed (cause : Failure)
  /-- The arguments were refused, possibly over a binding that spells none and can be shown. -/
  | refused (malformed : Option String)

/-- The number that the caller of the program gets. -/
def Ending.exitCode : Ending → Nat
  | done => 0
  | failed _ => 1
  | refused _ => 2

/-- Everything that can be seen of a run. -/
structure Outcome where
  ending : Ending
  output : String
  warnings : Diagnostics
  files : FileSystem

/-- Puts the policies of a run out. -/
def deliver (s : Settings) (files : FileSystem) (p : Prepared) : Outcome :=
  match p.policies with
  | .error e => ⟨.failed e, "", p.warnings, files⟩
  | .ok policies =>
    let text := policies.text s.layout
    match s.target files with
    | .error e => ⟨.failed e, "", p.warnings, files⟩
    | .ok (.file place) => ⟨.done, "", p.warnings, files.write place text⟩
    | .ok (.sink .output) => ⟨.done, text, p.warnings, files⟩
    | .ok (.sink .nowhere) => ⟨.done, "", p.warnings, files⟩
    | .ok (.sink .full) =>
      match ((fullDevice text).writePolicies s.layout policies).2 with
      | .error cause => ⟨.failed (.writing cause), "", p.warnings, files⟩
      | .ok _ => ⟨.done, "", p.warnings, files⟩

/-- A run with arguments over a file system. -/
def run (arguments : List String) (environmentLevel : Option String) (files : FileSystem) :
    Outcome :=
  match Settings.parse arguments environmentLevel with
  | .error .help => ⟨.done, helpText, [], files⟩
  | .error .version => ⟨.done, versionText, [], files⟩
  | .error .refused => ⟨.refused none, "", [], files⟩
  | .error (.malformedBinding argument) =>
    ⟨.refused (Terminal.plain? argument), "", [], files⟩
  | .ok s => deliver s files (prepare s files.readText)

end CommandLine
end GrantCompiler
