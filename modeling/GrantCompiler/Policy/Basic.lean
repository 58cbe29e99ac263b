import GrantCompiler.Name
import GrantCompiler.OrderedMap

/-!
# Policies

A policy says who holds which role on one resource: for each role, the set of its members.  Roles
and members are kept in order and without repetition, so a policy does not show in which order, or
how often, its grants were made.

Granting creates whatever it does not find, down to the policy of a resource.  Granting no roles at
all still creates the policy, which is then empty.

A binding is found under its role and names it once more, because it is put out on its own.  Nothing
in the types keeps the two together: that is up to those who create bindings.
-/

set_option autoImplicit false

namespace GrantCompiler

/-- One role with its members. -/
structure RoleBinding where
  role : RoleName
  members : OrderedSet Member
deriving DecidableEq

namespace RoleBinding

/-- The binding of a role that nobody holds. -/
def ofRole (role : RoleName) : RoleBinding := ⟨role, .empty⟩

/-- Makes somebody a member. -/
def add (b : RoleBinding) (member : Member) : RoleBinding :=
  { b with members := b.members.insert member }

/-- Makes all of a set members. -/
def addAll (b : RoleBinding) (members : OrderedSet Member) : RoleBinding :=
  { b with members := b.members.union members }

end RoleBinding

/-- Who holds which role on a resource. -/
structure Policy where
  resource : FullName
  /-- The bindings, each to be found under its role. -/
  held : OrderedMap RoleName RoleBinding
deriving DecidableEq

namespace Policy

/-- The policy of a resource on which nobody holds a role. -/
def ofResource (resource : FullName) : Policy := ⟨resource, .empty⟩

/-- Grants one role to a member. -/
def grant (p : Policy) (role : RoleName) (member : Member) : Policy :=
  { p with held := p.held.update role fun b => (b.getD (.ofRole role)).add member }

/-- Grants each of the roles to a member. -/
def add (p : Policy) (roles : List RoleName) (member : Member) : Policy :=
  roles.foldl (fun p role => p.grant role member) p

/-- Takes over the members of a binding that was found under a role. -/
def join (p : Policy) (role : RoleName) (more : RoleBinding) : Policy :=
  { p with held := p.held.update role fun b => (b.getD (.ofRole more.role)).addAll more.members }

/-- Takes over the grants of another policy, whatever resource that one is for. -/
def merge (p other : Policy) : Policy := other.held.toList.foldl (fun p e => p.join e.1 e.2) p

/-- The binding under a role, if there is one. -/
def binding? (p : Policy) (role : RoleName) : Option RoleBinding := p.held.get? role

/-- The bindings in the order of their roles. -/
def bindings (p : Policy) : List RoleBinding := p.held.values

/-- Whether nobody holds any role. -/
def isEmpty (p : Policy) : Bool := p.held.isEmpty

end Policy

end GrantCompiler
