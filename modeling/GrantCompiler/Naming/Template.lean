import GrantCompiler.Locator.Basic

/-!
# Name templates

One function per naming convention.  The locators a convention substitutes are looked up first, in a
fixed order, so a missing one is reported under the template that needed it before any text is
formed.
-/

set_option autoImplicit false

namespace GrantCompiler
namespace Template

/-! ## The names of the templates -/

/-- The template of mail addresses of accounts. -/
def memberName : String := "gsaName"

/-- The template of subjects. -/
def subjectName : String := "gsaForKSAName"

/-- The template of paths of accounts. -/
def accountPath : String := "gsaFullName"

/-- The template of names of buckets. -/
def bucketName : String := "bucketName"

/-- The template of identifiers of projects. -/
def projectName : String := "projectName"

/-- The template of names of topics and subscriptions. -/
def queueName : String := "pubsubName"

/-! ## Accounts

Accounts live in the identity project that a stage and a unit share. -/

/-- What the conventions of the shared identity project substitute. -/
structure SharedProject where
  stage : String
  unit : String

/-- Looks up the stage and then the unit, on behalf of one of three templates. -/
def SharedProject.resolve (locators : Locators) (template : String) :
    Except MissingLocator SharedProject := do
  let stage ← locators.require Locator.stage template
  let unit ← locators.require Locator.unit template
  return { stage, unit }

/-- `<username>@iam-shr-<stage>-<unit>.iam.gserviceaccount.com` -/
def member (username : String) (p : SharedProject) : String :=
  username ++ "@iam-shr-" ++ p.stage ++ "-" ++ p.unit ++ ".iam.gserviceaccount.com"

/-- `gke-shr-<stage>-<unit>.svc.id.goog[<namespace>/<username>]` -/
def subject (account : String) (p : SharedProject) : String :=
  "gke-shr-" ++ p.stage ++ "-" ++ p.unit ++ ".svc.id.goog[" ++ account ++ "]"

/-- `projects/iam-shr-<stage>-<unit>/serviceAccounts/<member>` -/
def accountFullName (member : String) (p : SharedProject) : String :=
  "projects/iam-shr-" ++ p.stage ++ "-" ++ p.unit ++ "/serviceAccounts/" ++ member

/-! ## Buckets -/

/-- What the names of buckets substitute. -/
structure BucketSite where
  company : String
  stage : String
  region : String
  provider : String

/-- Looks up the company, the stage, the region and the provider, in this order. -/
def BucketSite.resolve (locators : Locators) : Except MissingLocator BucketSite := do
  let company ← locators.require Locator.company bucketName
  let stage ← locators.require Locator.stage bucketName
  let region ← locators.require Locator.region bucketName
  let provider ← locators.require Locator.provider bucketName
  return { company, stage, region, provider }

/-- `<company>-<name>-<stage>-<region><provider>` -/
def bucket (name : String) (p : BucketSite) : String :=
  p.company ++ "-" ++ name ++ "-" ++ p.stage ++ "-" ++ p.region ++ p.provider

/-- `projects/_/buckets/<bucket>` -/
def bucketFullName (bucket : String) : String := "projects/_/buckets/" ++ bucket

/-! ## Projects -/

/-- What the identifiers of projects substitute. -/
structure ProjectSite where
  stage : String
  unit : String

/-- Looks up the stage and then the unit. -/
def ProjectSite.resolve (locators : Locators) : Except MissingLocator ProjectSite := do
  let stage ← locators.require Locator.stage projectName
  let unit ← locators.require Locator.unit projectName
  return { stage, unit }

/-- `<owner>-<stage>-<unit>` -/
def project (owner : String) (p : ProjectSite) : String :=
  owner ++ "-" ++ p.stage ++ "-" ++ p.unit

/-! ## Queues -/

/-- What the names of topics and subscriptions substitute. -/
structure QueueSite where
  stage : String
  region : String
  provider : String

/-- Looks up the stage, the region and the provider, in this order. -/
def QueueSite.resolve (locators : Locators) : Except MissingLocator QueueSite := do
  let stage ← locators.require Locator.stage queueName
  let region ← locators.require Locator.region queueName
  let provider ← locators.require Locator.provider queueName
  return { stage, region, provider }

/-- `<name>.<stage>.<region><provider>` -/
def queue (name : String) (p : QueueSite) : String :=
  name ++ "." ++ p.stage ++ "." ++ p.region ++ p.provider

/-- The two halves of a queue. -/
inductive Collection
  | topics
  | subscriptions
deriving DecidableEq

/-- The segment of a path that stands for a half. -/
def Collection.text : Collection → String
  | topics => "topics"
  | subscriptions => "subscriptions"

/-- `projects/<project>/<collection>/<name>` -/
def queueFullName (project : String) (collection : Collection) (name : String) : String :=
  "projects/" ++ project ++ "/" ++ collection.text ++ "/" ++ name

end Template
end GrantCompiler
