import GrantCompiler.Document.Basic
import GrantCompiler.Naming.Derivation
import GrantCompiler.Policy.Map

/-!
# From usage to grants

Each name that an application lists under a kind and an operation is an occurrence.  An occurrence
yields grants, one for every effective kind under which the name is declared, and findings about
what the documents leave open.  Neither depends on any other occurrence, so the policies of a run
are those of all its grants, in whatever order they are made.

An application with a cloud account gets two grants on that account besides, whether it uses
anything or not: the account may issue tokens for itself, and the application's cluster account may
act as it.

Usage and accounts both ask for grants through a `Request`, and a run is the list of its requests.
-/

set_option autoImplicit false

namespace GrantCompiler

/-! ## Occurrences -/

/-- A resource that an operation is performed on. -/
structure Occurrence where
  kind : Kind
  operation : OperationName
  name : ResourceName

/-- Every occurrence in an application's usage, in the order of the document. -/
def AppUsage.occurrences (usage : AppUsage) : List Occurrence :=
  usage.toList.flatMap fun (kind, operations) =>
    operations.toList.flatMap fun (operation, names) =>
      names.map fun name => ⟨kind, operation, name⟩

namespace Occurrence

/-- The grants to a member; an operation without roles still addresses its resources. -/
def grants (names : Names) (permissions : Permissions) (member : Member) (o : Occurrence) :
    List Grant :=
  if o.kind.isOther then []
  else o.kind.effective.filterMap fun kind => do
    return ⟨← names.fullNames.get? kind o.name, permissions.roles kind o.operation, member⟩

/-- What is wrong with an occurrence.  An operation on a queue is known if either half defines it;
the queue is unknown if either half is not declared. -/
def findings (names : Names) (permissions : Permissions) (o : Occurrence) : Diagnostics :=
  if o.kind.isOther then [.unsupportedKind o.kind.text]
  else
    (if o.kind.effective.any fun kind => permissions.defines kind o.operation then []
      else [.unknownOperation o.kind.text o.operation]) ++
    (if o.kind.effective.all fun kind => (names.fullNames.get? kind o.name).isSome then []
      else [.unknownResource o.kind.text o.name])

end Occurrence

/-! ## Applications -/

/-- The grants that an application's usage asks for; none without a cloud account to grant to. -/
def usageGrants (names : Names) (permissions : Permissions) (app : AppName) (usage : AppUsage) :
    List Grant :=
  match names.cloudAccounts.get? app with
  | none => []
  | some member => usage.occurrences.flatMap (Occurrence.grants names permissions member)

/-- What is reported on an application's usage: only that the application is not declared, or else
the findings of every occurrence. -/
def usageFindings (names : Names) (permissions : Permissions) (app : AppName) (usage : AppUsage) :
    Diagnostics :=
  match names.cloudAccounts.get? app with
  | none => [.unknownApp app]
  | some _ => usage.occurrences.flatMap (Occurrence.findings names permissions)

/-- Lets an account issue tokens for itself. -/
def tokenCreator : RoleName := ⟨"roles/iam.serviceAccountTokenCreator"⟩

/-- Lets a cluster account act as a cloud account. -/
def workloadIdentityUser : RoleName := ⟨"roles/iam.workloadIdentityUser"⟩

/-- The grants on an application's own account; none while any of its names is missing. -/
def identityGrants (names : Names) (locators : Locators) (app : AppName) :
    Except MissingLocator (List Grant) :=
  match names.cloudAccounts.get? app, names.clusterAccounts.get? app,
      names.fullNames.get? .serviceAccounts app.asResource with
  | some cloud, some cluster, some resource => do
    let subject ← cluster.subject locators
    return [⟨resource, [tokenCreator], cloud⟩, ⟨resource, [workloadIdentityUser], subject⟩]
  | _, _, _ => return []

/-! ## Requests -/

/-- What asks for grants. -/
inductive Request
  /-- The usage of an application. -/
  | usage (app : AppName) (usage : AppUsage)
  /-- An application, for its own account. -/
  | identity (app : AppName)

namespace Request

/-- The grants that a request asks for.  Usage always has an answer; an account may need a locator
that is missing. -/
def grants (names : Names) (permissions : Permissions) (locators : Locators) :
    Request → Except MissingLocator (List Grant)
  | usage app u => .ok (usageGrants names permissions app u)
  | identity app => identityGrants names locators app

/-- What is reported on a request; nothing is on one for an account. -/
def findings (names : Names) (permissions : Permissions) : Request → Diagnostics
  | usage app u => usageFindings names permissions app u
  | identity _ => []

/-- The policies once a request has been met; one that fails leaves them as they are. -/
def meet (names : Names) (permissions : Permissions) (locators : Locators) (m : Policies)
    (r : Request) : Policies :=
  match r.grants names permissions locators with
  | .ok grants => m.addAll grants
  | .error _ => m

end Request

/-- The requests of a run: all usage, and then the account of every application. -/
def requests (usage : Usage) (names : Names) : List Request :=
  usage.toList.map (fun (app, u) => .usage app u) ++ names.cloudAccounts.keys.map .identity

/-- The policies of a run with what was reported on the way. -/
def derivePolicies (usage : Usage) (names : Names) (permissions : Permissions)
    (locators : Locators) : Reported Policies where
  diagnostics := (requests usage names).flatMap (Request.findings names permissions)
  outcome := do
    let grants ← (requests usage names).mapM (Request.grants names permissions locators)
    return .ofGrants grants.flatten

end GrantCompiler
