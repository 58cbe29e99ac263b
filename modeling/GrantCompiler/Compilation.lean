import GrantCompiler.Aggregation
import GrantCompiler.Document.Loading

/-!
# Compiling

Names first, then policies.  Compiling fails only for want of a locator; everything else that is
wrong with the documents is among the findings.  Compiling files can fail over the files besides,
and over the applications before the usage.
-/

set_option autoImplicit false

namespace GrantCompiler

/-- All that a run produces. -/
structure Compilation where
  names : Names
  policies : Policies
  diagnostics : Diagnostics

/-- Derives names and policies, with everything reported on the way. -/
def derive (apps : Apps) (document : UsageDocument) (locators : Locators) :
    Reported (Names × Policies) := do
  let names ← deriveNames apps document.resources locators
  let policies ← derivePolicies document.usage names document.permissions locators
  return (names, policies)

/-- Derives everything from the documents, or fails over the first locator that is missing; what was
reported until then is lost with the run. -/
def compile (apps : Apps) (document : UsageDocument) (locators : Locators) :
    Except MissingLocator Compilation :=
  let derived := derive apps document locators
  derived.outcome.map fun (names, policies) => ⟨names, policies, derived.diagnostics⟩

/-! ## Files -/

/-- Why files could not be compiled. -/
inductive CompileFailure
  | naming (cause : MissingLocator)
  | input (cause : DocumentFailure)

/-- The text of a failure, which says whether the names or the files are at fault. -/
def CompileFailure.message : CompileFailure → String
  | naming cause => "Naming error: " ++ cause.message
  | input cause => "Input error: " ++ cause.message

/-- Reads the applications, then the document on usage, and compiles them. -/
def compileFiles (read : ReadFile) (appsPath usagePath : String) (locators : Locators) :
    Except CompileFailure Compilation := do
  let apps ← (loadApps read appsPath).mapError CompileFailure.input
  let document ← (loadUsage read usagePath).mapError CompileFailure.input
  (compile apps document locators).mapError CompileFailure.naming

end GrantCompiler
