/-!
# Names

Every identifier that flows through the compiler is an uninterpreted, case-sensitive text.  A
`Name` carries the sort of thing it names in its type, so an application cannot be passed where a
resource is expected; equality and order are those of the text, by code point.
-/

set_option autoImplicit false

namespace GrantCompiler

open Std (TransOrd LawfulEqOrd OrientedCmp TransCmp LawfulEqCmp ReflCmp)

/-- What a name stands for. -/
inductive NameSort
  /-- A cluster namespace that owns applications. -/
  | space
  /-- An application, as declared. -/
  | app
  /-- A cluster service account, qualified by its namespace. -/
  | clusterAccount
  /-- A cloud service account, or the subject a cluster account acts as: whoever receives roles. -/
  | member
  /-- A role. -/
  | role
  /-- The key that ties a declared resource to the project owning it. -/
  | owner
  /-- A resource, by the short name it is declared under. -/
  | resource
  /-- A resource, by the path the provider addresses it with. -/
  | fullName
  /-- Something an application does to a resource. -/
  | operation

/-- A text that names one sort of thing. -/
structure Name (sort : NameSort) where
  text : String
deriving DecidableEq

/-- The name of a namespace. -/
abbrev NamespaceName := Name .space

/-- The name of an application. -/
abbrev AppName := Name .app

/-- A cluster account, spelled `<namespace>/<username>`. -/
abbrev ClusterAccount := Name .clusterAccount

/-- A cloud account by its mail address, or a subject. -/
abbrev Member := Name .member

/-- The name of a role, as the provider spells it. -/
abbrev RoleName := Name .role

/-- The key of an owner. -/
abbrev OwnerKey := Name .owner

/-- The short name of a resource. -/
abbrev ResourceName := Name .resource

/-- The path of a resource. -/
abbrev FullName := Name .fullName

/-- The name of an operation. -/
abbrev OperationName := Name .operation

namespace Name

variable {sort : NameSort}

instance : ToString (Name sort) := ⟨Name.text⟩

instance : Ord (Name sort) := ⟨fun a b => compare a.text b.text⟩

theorem compare_eq (a b : Name sort) : compare a b = compare a.text b.text := rfl

instance : TransOrd (Name sort) where
  eq_swap {a b} := by
    rw [compare_eq, compare_eq]
    exact OrientedCmp.eq_swap
  isLE_trans {a b c} hab hbc := by
    rw [compare_eq] at hab hbc ⊢
    exact TransCmp.isLE_trans hab hbc

instance : LawfulEqOrd (Name sort) where
  compare_self {a} := by
    rw [compare_eq]
    exact ReflCmp.compare_self
  eq_of_compare {a b} h := by
    rw [compare_eq] at h
    have htext : a.text = b.text := LawfulEqCmp.eq_of_compare h
    cases a; cases b; cases htext; rfl

end Name

/-- An application's service account is declared under the application's own name. -/
def AppName.asResource (app : AppName) : ResourceName := ⟨app.text⟩

end GrantCompiler
