import GrantCompiler.Kind
import GrantCompiler.OrderedMap

/-!
# What a run is told

Two documents: which applications each namespace holds, and how resources are used.  The second has
three sections: the declared resources, the roles that operations need, and the usage of each
application.
-/

set_option autoImplicit false

namespace GrantCompiler

/-- The applications of each namespace. -/
abbrev Apps := OrderedMap NamespaceName (List AppName)

/-- The short names that each owner declares, by kind. -/
abbrev Resources := OrderedMap Kind (OrderedMap OwnerKey (List ResourceName))

/-- The resources that each operation is performed on. -/
abbrev KindUsage := OrderedMap OperationName (List ResourceName)

/-- What one application uses, by kind. -/
abbrev AppUsage := OrderedMap Kind KindUsage

/-- What each application uses. -/
abbrev Usage := OrderedMap AppName AppUsage

/-- The roles that each operation needs, by addressable kind. -/
structure Permissions where
  kinds : OrderedMap Kind (OrderedMap OperationName (List RoleName))

namespace Permissions

/-- The table without entries. -/
def empty : Permissions := ⟨.empty⟩

/-- Enters the roles of an operation over any earlier ones. -/
def withRoles (p : Permissions) (kind : Kind) (operation : OperationName) (roles : List RoleName) :
    Permissions :=
  ⟨p.kinds.update kind fun held => (held.getD .empty).insert operation roles⟩

/-- The roles that are entered for an operation, if any are. -/
def lookup (p : Permissions) (kind : Kind) (operation : OperationName) :
    Option (List RoleName) := do
  (← p.kinds.get? kind).get? operation

/-- The roles of an operation; an operation without an entry needs none, so that a table with gaps
still yields part of the result. -/
def roles (p : Permissions) (kind : Kind) (operation : OperationName) : List RoleName :=
  (p.lookup kind operation).getD []

/-- Whether the table has an entry for an operation, if only one without roles. -/
def defines (p : Permissions) (kind : Kind) (operation : OperationName) : Bool :=
  (p.lookup kind operation).isSome

end Permissions

/-- The document on resources and their use. -/
structure UsageDocument where
  resources : Resources
  permissions : Permissions
  usage : Usage

end GrantCompiler
