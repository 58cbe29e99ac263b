import GrantCompiler.Policy.Basic

/-!
# The policies of all resources

`Policies` holds a policy for every resource that has been addressed.  A resource that was addressed
without any role has an empty policy: it is held and counted, and never put out.

As with roles, a policy is found under its resource and names it once more.
-/

set_option autoImplicit false

namespace GrantCompiler

/-- Roles for a member on a resource. -/
structure Grant where
  resource : FullName
  roles : List RoleName
  member : Member
deriving DecidableEq

/-- Who holds which role, for every resource that has been addressed. -/
structure Policies where
  /-- The policies, each to be found under its resource. -/
  resources : OrderedMap FullName Policy
deriving DecidableEq

namespace Policies

/-- No policies at all. -/
def empty : Policies := ⟨.empty⟩

/-- Makes a grant, creating the policy of its resource at the first reference. -/
def add (m : Policies) (g : Grant) : Policies :=
  ⟨m.resources.update g.resource fun p => (p.getD (.ofResource g.resource)).add g.roles g.member⟩

/-- Makes grants from left to right. -/
def addAll (m : Policies) (grants : List Grant) : Policies := grants.foldl add m

/-- The policies that grants come to. -/
def ofGrants (grants : List Grant) : Policies := empty.addAll grants

/-- The policies of both, joined where both address a resource. -/
def merge (m n : Policies) : Policies := ⟨m.resources.unionWith Policy.merge n.resources⟩

/-- The policy under a resource, if it has been addressed. -/
def get? (m : Policies) (resource : FullName) : Option Policy := m.resources.get? resource

/-- Every policy, the empty ones included, in the order of the resources. -/
def all (m : Policies) : List Policy := m.resources.values

/-- The policies that grant something, in the order of the resources. -/
def granting (m : Policies) : List Policy := m.all.filter fun p => !p.isEmpty

/-- The number of policies, the empty ones included. -/
def size (m : Policies) : Nat := m.resources.size

/-- Whether no resource has been addressed. -/
def isEmpty (m : Policies) : Bool := m.resources.isEmpty

end Policies

end GrantCompiler
