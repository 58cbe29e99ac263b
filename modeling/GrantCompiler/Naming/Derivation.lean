import GrantCompiler.Document.Basic
import GrantCompiler.Naming.FullName
import GrantCompiler.Naming.Identity

/-!
# Deriving all names of a run

From the declared applications and resources come, once and for all: a cluster account and a cloud
account for every application, full names for every resource, and one more full name for every
application's cloud account, which is a resource in its own right.

An application belongs to one namespace.  When several list it, the last of them in order keeps it,
and each change of hands is reported.
-/

set_option autoImplicit false

namespace GrantCompiler

/-- Every name that granting needs. -/
structure Names where
  clusterAccounts : OrderedMap AppName ClusterAccount
  cloudAccounts : OrderedMap AppName Member
  fullNames : FullNames

/-! ## Which namespace an application belongs to -/

/-- Every listing of an application, in the order of the document. -/
def Apps.listings (apps : Apps) : List (NamespaceName × AppName) :=
  apps.toList.flatMap fun (space, names) => names.map fun app => (space, app)

/-- The namespace of each application. -/
abbrev Homes := OrderedMap AppName NamespaceName

/-- The namespace of each application once the listings have been read. -/
def homesAfter (homes : Homes) (listings : List (NamespaceName × AppName)) : Homes :=
  listings.foldl (fun homes l => homes.insert l.2 l.1) homes

/-- The changes of hands while the listings are read. -/
def conflicts (homes : Homes) : List (NamespaceName × AppName) → Diagnostics
  | [] => []
  | (space, app) :: rest =>
    let later := conflicts (homes.insert app space) rest
    match homes.get? app with
    | some previous => if previous = space then later else .duplicateApp app space previous :: later
    | none => later

/-- The namespace that each application ends up in. -/
def Apps.homes (apps : Apps) : Homes := homesAfter .empty apps.listings

/-- The changes of hands while a whole document is read. -/
def Apps.conflicts (apps : Apps) : Diagnostics := GrantCompiler.conflicts .empty apps.listings

/-! ## Accounts and full names -/

/-- The cluster account of each application. -/
def clusterAccounts (homes : Homes) : OrderedMap AppName ClusterAccount :=
  .ofList <| homes.toList.map fun (app, space) => (app, app.clusterAccount space)

/-- The cloud account of each application, in order. -/
def cloudAccounts (homes : Homes) (locators : Locators) : Reported (OrderedMap AppName Member) := do
  let pairs ← homes.keys.mapM fun app => do return (app, ← app.cloudAccount locators)
  return .ofList pairs

/-- Every declared resource, in the order of the document. -/
def Resources.declarations (resources : Resources) : List (Kind × OwnerKey × ResourceName) :=
  resources.toList.flatMap fun (kind, owned) =>
    owned.toList.flatMap fun (owner, names) => names.map fun name => (kind, owner, name)

/-- The full names of one declaration; a kind that cannot be declared is reported. -/
def declarationEntries (locators : Locators) :
    Kind × OwnerKey × ResourceName → Reported (List FullNameEntry)
  | (kind, owner, name) => do
    let entries ← Reported.silently (kind.entries owner name locators)
    if entries.isEmpty then Reported.report (.unsupportedKind kind.text)
    return entries

/-- The cloud accounts as resources, each under its application's name. -/
def accountEntries (accounts : OrderedMap AppName Member) (locators : Locators) :
    Except MissingLocator (List FullNameEntry) :=
  accounts.toList.mapM fun (app, account) => do
    return ⟨.serviceAccounts, app.asResource, ← account.fullName locators⟩

/-- All names of a run, with what was reported on the way. -/
def deriveNames (apps : Apps) (resources : Resources) (locators : Locators) : Reported Names := do
  apps.conflicts.forM Reported.report
  let accounts ← cloudAccounts apps.homes locators
  let declared ← resources.declarations.mapM (declarationEntries locators)
  let own ← Reported.silently (accountEntries accounts locators)
  return {
    clusterAccounts := clusterAccounts apps.homes
    cloudAccounts := accounts
    fullNames := (FullNames.empty.insertAll declared.flatten).insertAll own }

end GrantCompiler
