import GrantCompiler.Kind
import GrantCompiler.Naming.Template
import GrantCompiler.OrderedMap

/-!
# Full names of resources

A bucket has one full name.  A queue has two, one for its topic and one for its subscription, in the
project that its owner names.  No other kind can be declared.

`FullNames` is the register of full names by kind and short name, in which the last entry wins.
-/

set_option autoImplicit false

namespace GrantCompiler

/-- A short name of a kind with the full name it stands for. -/
structure FullNameEntry where
  kind : Kind
  name : ResourceName
  fullName : FullName
deriving DecidableEq

/-- The full name of a bucket, to which its owner contributes nothing. -/
def bucketEntries (name : ResourceName) (locators : Locators) :
    Except MissingLocator (List FullNameEntry) := do
  let site ← Template.BucketSite.resolve locators
  return [⟨.buckets, name, ⟨Template.bucketFullName (Template.bucket name.text site)⟩⟩]

/-- The owner of a queue names the project it lives in. -/
def queueEntries (owner : OwnerKey) (name : ResourceName) (locators : Locators) :
    Except MissingLocator (List FullNameEntry) := do
  let queue := Template.queue name.text (← Template.QueueSite.resolve locators)
  let project := Template.project owner.text (← Template.ProjectSite.resolve locators)
  return [
    ⟨.queueTopics, name, ⟨Template.queueFullName project .topics queue⟩⟩,
    ⟨.queueSubscriptions, name, ⟨Template.queueFullName project .subscriptions queue⟩⟩]

/-- The full names of one declared resource; none for a kind that cannot be declared. -/
def Kind.entries (kind : Kind) (owner : OwnerKey) (name : ResourceName) (locators : Locators) :
    Except MissingLocator (List FullNameEntry) :=
  match kind with
  | .buckets => bucketEntries name locators
  | .queues => queueEntries owner name locators
  | _ => .ok []

/-! ## The register -/

/-- Full names by kind and short name. -/
structure FullNames where
  kinds : OrderedMap Kind (OrderedMap ResourceName FullName)

namespace FullNames

/-- The register without entries. -/
def empty : FullNames := ⟨.empty⟩

/-- Enters a full name over any earlier one of the same kind and short name. -/
def insert (names : FullNames) (entry : FullNameEntry) : FullNames :=
  ⟨names.kinds.update entry.kind fun held =>
    (held.getD .empty).insert entry.name entry.fullName⟩

/-- Enters full names from left to right. -/
def insertAll (names : FullNames) (entries : List FullNameEntry) : FullNames :=
  entries.foldl insert names

/-- The full name of a kind and a short name, if there is one. -/
def get? (names : FullNames) (kind : Kind) (name : ResourceName) : Option FullName := do
  (← names.kinds.get? kind).get? name

/-- All entries, by kind and then by short name. -/
def toList (names : FullNames) : List FullNameEntry :=
  names.kinds.toList.flatMap fun (kind, held) =>
    held.toList.map fun (name, fullName) => ⟨kind, name, fullName⟩

/-- The number of entries of all kinds. -/
def size (names : FullNames) : Nat :=
  names.kinds.values.foldl (fun n held => n + held.size) 0

/-- Whether there is no entry. -/
def isEmpty (names : FullNames) : Bool := names.size == 0

end FullNames

end GrantCompiler
