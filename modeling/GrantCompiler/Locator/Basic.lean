import GrantCompiler.OrderedMap

/-!
# Locators

A locator is a named value that is substituted into names: the company, the cloud provider, the
region, the deployment stage, the unit, and whatever else a run binds.  `Locators` is a finished
set of them, in which a company is bound and the stage, the provider and the region are supported
ones.  Anything else may be missing, and a name that needs it then fails with `MissingLocator`.
-/

set_option autoImplicit false

namespace GrantCompiler
namespace Locator

/-! ## Keys, defaults and what is supported -/

/-- The key of the company. -/
def company : String := "company"

/-- The key of the cloud provider. -/
def provider : String := "provider"

/-- The key of the region. -/
def region : String := "region"

/-- The key of the deployment stage. -/
def stage : String := "stage"

/-- The key of the unit. -/
def unit : String := "unit"

/-- The company while nothing else is bound. -/
def defaultCompany : String := "yoyodyne"

/-- The provider while no other is set. -/
def defaultProvider : String := "gcp"

/-- The region while no other is set. -/
def defaultRegion : String := "usce1"

/-- The stage while no other is set. -/
def defaultStage : String := "dev"

/-- The stages that can be deployed to. -/
def supportedStages : List String := ["dev", "stg", "prod"]

/-- The providers that can be deployed to. -/
def supportedProviders : List String := ["gcp"]

/-- The short region codes known for a provider. -/
def supportedRegions (provider : String) : List String :=
  if provider = "gcp" then ["usce1"] else []

/-- The provider, region and stage form a supported place to deploy to. -/
structure Supported (provider region stage : String) : Prop where
  stage_mem : stage ∈ supportedStages
  provider_mem : provider ∈ supportedProviders
  region_mem : region ∈ supportedRegions provider

end Locator

/-- A finished set of locators. -/
structure Locators where
  values : OrderedMap String String
  company_bound : (values.get? Locator.company).isSome
  supported : ∃ provider region stage, Locator.Supported provider region stage ∧
    values.get? Locator.provider = some provider ∧ values.get? Locator.region = some region ∧
    values.get? Locator.stage = some stage

/-- A name could not be rendered: a template needs a locator that is not bound. -/
structure MissingLocator where
  key : String
  template : String
deriving DecidableEq

/-- The text of the failure, which names the locator and what needed it. -/
def MissingLocator.message (e : MissingLocator) : String :=
  "locator \"" ++ e.key ++ "\" is required by the " ++ e.template ++
    " template but was not supplied"

namespace Locators

/-- The value of a key, if it is bound. -/
def get? (locators : Locators) (key : String) : Option String := locators.values.get? key

/-- The value of a key that a template needs. -/
def require (locators : Locators) (key template : String) : Except MissingLocator String :=
  match locators.get? key with
  | some value => .ok value
  | none => .error ⟨key, template⟩

end Locators

end GrantCompiler
