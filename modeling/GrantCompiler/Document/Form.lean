import GrantCompiler.Document.Basic
import GrantCompiler.Document.Tree

/-!
# The form of the documents

How each document stands in a tree, both ways.  The document on usage has three sections.  Each may
be missing and is then empty, and each may be written with a capital letter; written twice, under
either spelling, it is refused.  Other keys mean nothing.  The sections may also be given as a list,
in their order, of which the last ones may be missing.
-/

set_option autoImplicit false

namespace GrantCompiler

/-! ## Names, lists and maps of them -/

variable {sort sort' : NameSort}

/-- A name stands as a text. -/
def Name.ofTree? (t : Tree) : Option (Name sort) := t.asText?.map Name.mk

/-- The tree of a name. -/
def Name.toTree (n : Name sort) : Tree := .text n.text

/-- Names stand as a list. -/
def namesOfTree? (t : Tree) : Option (List (Name sort)) := t.asList? Name.ofTree?

/-- The tree of a list of names. -/
def namesToTree (names : List (Name sort)) : Tree := .ofList Name.toTree names

/-- A map from names to lists of names. -/
def nameListsOfTree? (t : Tree) : Option (OrderedMap (Name sort) (List (Name sort'))) :=
  t.asMap? Name.mk namesOfTree?

/-- The tree of a map from names to lists of names. -/
def nameListsToTree (m : OrderedMap (Name sort) (List (Name sort'))) : Tree :=
  .ofMap Name.text namesToTree m

/-! ## The documents -/

/-- Applications stand under their namespace. -/
def Apps.ofTree? (t : Tree) : Option Apps := nameListsOfTree? t

/-- The tree of the document on applications. -/
def Apps.toTree (apps : Apps) : Tree := nameListsToTree apps

/-- Declared resources stand under their owner, and that under the kind. -/
def Resources.ofTree? (t : Tree) : Option Resources := t.asMap? Kind.ofText nameListsOfTree?

/-- The tree of the section on resources. -/
def Resources.toTree (resources : Resources) : Tree := .ofMap Kind.text nameListsToTree resources

/-- Roles stand under the operation that needs them, and that under the kind. -/
def Permissions.ofTree? (t : Tree) : Option Permissions :=
  (t.asMap? Kind.ofText nameListsOfTree?).map Permissions.mk

/-- The tree of the section on permissions. -/
def Permissions.toTree (p : Permissions) : Tree := .ofMap Kind.text nameListsToTree p.kinds

/-- Used resources stand under the operation, and that under the kind. -/
def AppUsage.ofTree? (t : Tree) : Option AppUsage := t.asMap? Kind.ofText nameListsOfTree?

/-- The tree of what one application uses. -/
def AppUsage.toTree (usage : AppUsage) : Tree := .ofMap Kind.text nameListsToTree usage

/-- What is used stands under the application that uses it. -/
def Usage.ofTree? (t : Tree) : Option Usage := t.asMap? Name.mk AppUsage.ofTree?

/-- The tree of the section on usage. -/
def Usage.toTree (usage : Usage) : Tree := .ofMap Name.text AppUsage.toTree usage

/-- The sections of the document on usage. -/
inductive Section
  | resources
  | permissions
  | usage
deriving DecidableEq

namespace Section

/-- The sections, in the order in which a list gives them. -/
def all : List Section := [resources, permissions, usage]

/-- The key of a section, as it is written out. -/
def key : Section → String
  | resources => "resources"
  | permissions => "permissions"
  | usage => "usage"

/-- The other spelling of a section's key. -/
def capitalKey : Section → String
  | resources => "Resources"
  | permissions => "Permissions"
  | usage => "Usage"

/-- The section that a key opens. -/
def ofKey? (text : String) : Option Section :=
  all.find? fun s => text == s.key || text == s.capitalKey

end Section

/-- The trees of the sections that a document gives, in the order it gives them. -/
abbrev Sections := List (Section × Tree)

namespace Sections

/-- The tree of a section, if the document gives it. -/
def get? (sections : Sections) (s : Section) : Option Tree :=
  (sections.find? fun p => p.1 == s).map Prod.snd

/-- The sections among the entries of a document; every key has to be a text. -/
def ofEntries? : List (Tree × Tree) → Option Sections
  | [] => some []
  | (k, v) :: rest => do
    let key ← k.asText?
    let sections ← ofEntries? rest
    match Section.ofKey? key with
    | none => return sections
    | some s => if (sections.get? s).isSome then none else return (s, v) :: sections

/-- The sections of a document, given as a list or by their keys. -/
def ofTree? : Tree → Option Sections
  | .list items => if items.length ≤ Section.all.length then some (Section.all.zip items) else none
  | t => do ofEntries? (← t.asEntries?)

/-- A section's value; a missing section has no content. -/
def read {α : Type} (sections : Sections) (s : Section) (ofTree? : Tree → Option α) : Option α :=
  ofTree? ((sections.get? s).getD .blank)

end Sections

namespace UsageDocument

/-- Reads the document on usage. -/
def ofTree? (t : Tree) : Option UsageDocument := do
  let sections ← Sections.ofTree? t
  return {
    resources := ← sections.read .resources Resources.ofTree?
    permissions := ← sections.read .permissions Permissions.ofTree?
    usage := ← sections.read .usage Usage.ofTree? }

/-- The tree of a document, with all three sections. -/
def toTree (d : UsageDocument) : Tree :=
  .fields [
    (.text Section.resources.key, d.resources.toTree),
    (.text Section.permissions.key, d.permissions.toTree),
    (.text Section.usage.key, d.usage.toTree)]

end UsageDocument

end GrantCompiler
