import GrantCompiler.FileSystem
import GrantCompiler.Locator.Basic
import GrantCompiler.Locator.Binding
import GrantCompiler.Toml.Document

/-!
# Collecting locators

A `Builder` gathers values until `build` settles them.  The provider, the region and the stage are
set by steps of their own and win over every binding that uses one of their keys; all other keys
are bound freely, and the last binding of a key stays.

A locators file is one step: either every value in it is a text and all of them are bound, or the
first key with another value is reported and nothing is bound.
-/

set_option autoImplicit false

namespace GrantCompiler
namespace Locator

/-- Why locators were refused. -/
inductive Failure
  | unsupportedStage (stage : String)
  | unsupportedProvider (provider : String)
  | unsupportedRegion (provider region : String)
  | malformedBinding (argument : String)
  | notText (key path : String)
  | unreadable (path : String) (cause : FileFailure)
  /-- The file is no TOML document; `detail` says what is wrong with it. -/
  | malformedFile (path detail : String)

/-- The text of a failure. -/
def Failure.message : Failure → String
  | unsupportedStage stage => "stage " ++ stage ++ " not supported"
  | unsupportedProvider provider => "provider " ++ provider ++ " not supported"
  | unsupportedRegion provider region =>
    "region " ++ region ++ " not supported for provider " ++ provider
  | malformedBinding argument => "locator argument \"" ++ argument ++ "\" malformed"
  | notText key path => "locator " ++ key ++ " has a non-string value in " ++ path
  | unreadable path cause => "failed to read locators file " ++ path ++ ": " ++ cause.message
  | malformedFile path detail => "failed to parse locators file " ++ path ++ ": " ++ detail

/-- Reads an argument of the form `NAME=VALUE`. -/
def Binding.parse (argument : String) : Except Failure Binding :=
  match Binding.parse? argument with
  | some binding => .ok binding
  | none => .error (.malformedBinding argument)

/-- Values gathered so far. -/
structure Builder where
  provider : String
  region : String
  stage : String
  bindings : OrderedMap String String
  company_bound : (bindings.get? company).isSome

namespace Builder

/-- The defaults that every collection starts from. -/
def initial : Builder where
  provider := defaultProvider
  region := defaultRegion
  stage := defaultStage
  bindings := OrderedMap.empty.insert company defaultCompany
  company_bound := by simp [OrderedMap.get?_insert]

/-- Sets the provider. -/
def withProvider (b : Builder) (provider : String) : Builder := { b with provider }

/-- Sets the region. -/
def withRegion (b : Builder) (region : String) : Builder := { b with region }

/-- Sets the stage. -/
def withStage (b : Builder) (stage : String) : Builder := { b with stage }

/-- Binds a key, or binds it anew. -/
def bind (b : Builder) (key value : String) : Builder :=
  { b with
    bindings := b.bindings.insert key value
    company_bound := by
      rw [OrderedMap.get?_insert]
      split
      · rfl
      · exact b.company_bound }

/-- Binds keys from left to right. -/
def bindAll (b : Builder) (pairs : List (String × String)) : Builder :=
  pairs.foldl (fun b p => b.bind p.1 p.2) b

/-! ## Steps -/

/-- The texts of a table, or the least key that holds something else. -/
def textsOf (path : String) (table : Toml.Table) : Except Failure (List (String × String)) :=
  table.toList.mapM fun
    | (key, .text value) => .ok (key, value)
    | (key, _) => .error (.notText key path)

/-- Binds everything a locators file holds. -/
def bindTable (b : Builder) (path : String) (table : Toml.Table) : Except Failure Builder := do
  return b.bindAll (← textsOf path table)

/-- One step of collecting locators. -/
inductive Step
  | provider (value : String)
  | region (value : String)
  | stage (value : String)
  | company (value : String)
  | binding (key value : String)
  /-- A binding in the form `NAME=VALUE`. -/
  | argument (text : String)
  /-- A locators file with what reading it gave. -/
  | file (path : String) (content : Except FileFailure String)

/-- Takes a step.  A step that fails leaves nothing behind of what it was to bind. -/
def apply (b : Builder) : Step → Except Failure Builder
  | .provider value => .ok (b.withProvider value)
  | .region value => .ok (b.withRegion value)
  | .stage value => .ok (b.withStage value)
  | .company value => .ok (b.bind Locator.company value)
  | .binding key value => .ok (b.bind key value)
  | .argument text => do
    let binding ← Binding.parse text
    return b.bind binding.key binding.value
  | .file path (.error cause) => .error (.unreadable path cause)
  | .file path (.ok text) =>
    match Toml.parse? text with
    | none => .error (.malformedFile path "not a TOML document")
    | some table => b.bindTable path table

/-! ## Settling -/

/-- The bindings with the provider, the region and the stage over them. -/
def settled (b : Builder) : OrderedMap String String :=
  ((b.bindings.insert Locator.provider b.provider).insert Locator.region b.region).insert
    Locator.stage b.stage

/-- The finished set.  An unsupported stage is reported before an unsupported provider, and that
before an unsupported region. -/
def build (b : Builder) : Except Failure Locators :=
  if hstage : b.stage ∈ supportedStages then
    if hprovider : b.provider ∈ supportedProviders then
      if hregion : b.region ∈ supportedRegions b.provider then
        .ok
          { values := b.settled
            company_bound := by
              simpa [settled, OrderedMap.get?_insert, company, Locator.provider, Locator.region,
                Locator.stage] using b.company_bound
            supported := ⟨b.provider, b.region, b.stage, ⟨hstage, hprovider, hregion⟩, by
              simp [settled, OrderedMap.get?_insert, Locator.provider, Locator.region,
                Locator.stage]⟩ }
      else .error (.unsupportedRegion b.provider b.region)
    else .error (.unsupportedProvider b.provider)
  else .error (.unsupportedStage b.stage)

end Builder

/-- Applies the steps in order to the defaults and settles the result. -/
def collect (steps : List Builder.Step) : Except Failure Locators := do
  (← steps.foldlM Builder.apply Builder.initial).build

end Locator
end GrantCompiler
