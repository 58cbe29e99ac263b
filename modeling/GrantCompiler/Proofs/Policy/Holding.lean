import GrantCompiler.Policy.Map
import GrantCompiler.Proofs.OrderedMap

/-!
# Who holds what

A collection of policies is three maps deep, and it is written to in several places at several
depths.  What it *says* is flat: which member holds which role on which resource
(`Policies.Holds`), and which resources have been addressed at all (`Policies.Addresses`).

## What is here

* `Policy.binding?_grant`, `Policy.binding?_merge`, `Policies.get?_add`, `Policies.get?_merge` — the
  four places where an entry is created or changed, each as one law of look-ups.
* `Policies.holds_add`, `Policies.holds_addAll`, `Policies.holds_merge` and their companions for
  `Addresses` — every way of writing, by what it adds to the two relations.  Nothing is ever taken
  away, and nothing is added beyond what was asked for.
* `Policies.Reachable` — what adding and merging can build.  Such policies are
  `Policies.WellFormed`: whatever is found under a key names that key, and a role that is entered
  has a member.  Policies made up by hand need not be.
* `Policies.granting_eq_iff` — the payoff: well-formed policies put out the same records exactly
  when the same members hold the same roles on the same resources.
-/

set_option autoImplicit false

namespace GrantCompiler

/-! ## One resource -/

namespace RoleBinding

/-- A new binding of a role takes over all that another of the role has. -/
theorem addAll_ofRole (b : RoleBinding) : (ofRole b.role).addAll b.members = b := by
  have hmembers : OrderedSet.empty.union b.members = b.members := OrderedSet.ext_mem (by simp)
  obtain ⟨role, members⟩ := b
  exact congrArg (mk role) hmembers

end RoleBinding

namespace Policy

variable {p q : Policy} {role r : RoleName} {member x : Member}

/-- The members of a role; none while nobody holds it. -/
def membersOf (p : Policy) (role : RoleName) : OrderedSet Member :=
  ((p.binding? role).map RoleBinding.members).getD .empty

theorem mem_membersOf :
    member ∈ p.membersOf role ↔ ∃ b, p.binding? role = some b ∧ member ∈ b.members := by
  rw [membersOf]
  cases p.binding? role <;> simp

/-! ### Writing -/

@[simp] theorem binding?_ofResource (resource : FullName) (role : RoleName) :
    (ofResource resource).binding? role = none := rfl

@[simp] theorem membersOf_ofResource (resource : FullName) (role : RoleName) :
    (ofResource resource).membersOf role = .empty := rfl

theorem binding?_grant (p : Policy) (role : RoleName) (member : Member) (r : RoleName) :
    (p.grant role member).binding? r =
      if r = role then some (((p.binding? role).getD (.ofRole role)).add member)
      else p.binding? r :=
  OrderedMap.get?_update p.held role r _

@[simp] theorem resource_add (p : Policy) (roles : List RoleName) (member : Member) :
    (p.add roles member).resource = p.resource := by
  induction roles generalizing p with
  | nil => rfl
  | cons role rest ih => exact ih (p.grant role member)

/-- Merging is joining the two maps of bindings. -/
theorem merge_eq (p other : Policy) :
    p.merge other =
      { p with held := p.held.unionWith (fun b more => b.addAll more.members) other.held } := by
  have hjoin : ∀ (p : Policy) (e : RoleName × RoleBinding), p.join e.1 e.2 =
      { p with held := p.held.update e.1 fun b => (b.map (·.addAll e.2.members)).getD e.2 } := by
    intro p e
    have hcreate : (fun b : Option RoleBinding =>
        (b.getD (.ofRole e.2.role)).addAll e.2.members) =
          fun b => (b.map (·.addAll e.2.members)).getD e.2 := by
      funext b
      cases b with
      | none => exact e.2.addAll_ofRole
      | some own => rfl
    rw [join, hcreate]
  rw [merge, OrderedMap.unionWith]
  induction other.held.toList generalizing p with
  | nil => rfl
  | cons e rest ih => rw [List.foldl_cons, ih, hjoin, List.foldl_cons]

@[simp] theorem resource_merge (p other : Policy) : (p.merge other).resource = p.resource := by
  rw [merge_eq]

theorem binding?_merge (p other : Policy) (role : RoleName) :
    (p.merge other).binding? role =
      Option.merge (fun b more => b.addAll more.members) (p.binding? role)
        (other.binding? role) := by
  rw [merge_eq]
  exact OrderedMap.get?_unionWith _ p.held other.held role

@[simp] theorem mem_membersOf_grant :
    x ∈ (p.grant role member).membersOf r ↔ x ∈ p.membersOf r ∨ (r = role ∧ x = member) := by
  rw [membersOf, binding?_grant]
  by_cases hr : r = role
  · subst hr
    cases hb : p.binding? r <;> simp [membersOf, hb, RoleBinding.add, RoleBinding.ofRole, or_comm]
  · simp [membersOf, hr]

@[simp] theorem mem_membersOf_add {roles : List RoleName} :
    x ∈ (p.add roles member).membersOf r ↔ x ∈ p.membersOf r ∨ (r ∈ roles ∧ x = member) := by
  induction roles generalizing p with
  | nil => simp [add]
  | cons role rest ih =>
    have hstep : p.add (role :: rest) member = (p.grant role member).add rest member := rfl
    rw [hstep, ih, mem_membersOf_grant, List.mem_cons, or_and_right, or_assoc]

@[simp] theorem mem_membersOf_merge :
    x ∈ (p.merge q).membersOf r ↔ x ∈ p.membersOf r ∨ x ∈ q.membersOf r := by
  rw [membersOf, membersOf, membersOf, binding?_merge]
  cases p.binding? r <;> cases q.binding? r <;> simp [RoleBinding.addAll]

/-! ### Every binding under its role, and none without a member -/

/-- What is found under a role is a binding of that role, and it has a member. -/
structure WellFormed (p : Policy) : Prop where
  role_eq : ∀ role b, p.binding? role = some b → b.role = role
  exists_member : ∀ role b, p.binding? role = some b → ∃ member, member ∈ b.members

theorem wellFormed_ofResource (resource : FullName) : (ofResource resource).WellFormed where
  role_eq := by simp
  exists_member := by simp

theorem WellFormed.grant (h : p.WellFormed) (role : RoleName) (member : Member) :
    (p.grant role member).WellFormed where
  role_eq := by
    intro r b hb
    rw [binding?_grant] at hb
    split at hb
    next hr =>
      cases hb
      subst hr
      cases hown : p.binding? r with
      | none => rfl
      | some own => exact h.role_eq r own hown
    next => exact h.role_eq r b hb
  exists_member := by
    intro r b hb
    rw [binding?_grant] at hb
    split at hb
    next => cases hb; exact ⟨member, by simp [RoleBinding.add]⟩
    next => exact h.exists_member r b hb

theorem WellFormed.add (h : p.WellFormed) (roles : List RoleName) (member : Member) :
    (p.add roles member).WellFormed := by
  induction roles generalizing p with
  | nil => exact h
  | cons role rest ih => exact ih (h.grant role member)

theorem WellFormed.merge (hp : p.WellFormed) (hq : q.WellFormed) : (p.merge q).WellFormed := by
  -- a binding of the two is one of either, or one of the first with more members
  have hcases : ∀ role b, (p.merge q).binding? role = some b → q.binding? role = some b ∨
      ∃ own, p.binding? role = some own ∧ b.role = own.role ∧
        ∀ member, member ∈ own.members → member ∈ b.members := by
    intro role b hb
    rw [binding?_merge] at hb
    cases hown : p.binding? role with
    | none =>
      rw [hown, Option.merge_none_left] at hb
      exact .inl hb
    | some own =>
      refine .inr ⟨own, rfl, ?_⟩
      cases hmore : q.binding? role with
      | none =>
        rw [hown, hmore, Option.merge_none_right] at hb
        cases hb
        exact ⟨rfl, fun _ hmember => hmember⟩
      | some more =>
        rw [hown, hmore, Option.merge_some_some] at hb
        cases hb
        exact ⟨rfl, fun member hmember => OrderedSet.mem_union.2 (.inl hmember)⟩
  constructor
  · intro role b hb
    rcases hcases role b hb with hmore | ⟨own, hown, hrole, -⟩
    · exact hq.role_eq role b hmore
    · exact hrole.trans (hp.role_eq role own hown)
  · intro role b hb
    rcases hcases role b hb with hmore | ⟨own, hown, -, hsub⟩
    · exact hq.exists_member role b hmore
    · obtain ⟨member, hmember⟩ := hp.exists_member role own hown
      exact ⟨member, hsub member hmember⟩

/-- A role is entered if someone holds it. -/
theorem WellFormed.binding?_eq_none_iff (h : p.WellFormed) :
    p.binding? role = none ↔ ∀ member, ¬ member ∈ p.membersOf role := by
  simp only [mem_membersOf]
  refine ⟨fun hnone => by simp [hnone], fun hall => ?_⟩
  refine Option.eq_none_iff_forall_ne_some.2 fun b hb => ?_
  obtain ⟨member, hmember⟩ := h.exists_member role b hb
  exact hall member ⟨b, hb, hmember⟩

/-- A policy is determined by its resource and by who holds which role. -/
theorem WellFormed.eq_of_mem_iff (hp : p.WellFormed) (hq : q.WellFormed)
    (hresource : p.resource = q.resource)
    (hiff : ∀ role member, member ∈ p.membersOf role ↔ member ∈ q.membersOf role) : p = q := by
  have hbinding : ∀ role, p.binding? role = q.binding? role := by
    intro role
    cases hown : p.binding? role with
    | none =>
      have hnone := hp.binding?_eq_none_iff.1 hown
      exact (hq.binding?_eq_none_iff.2 fun member hmember =>
        hnone member ((hiff role member).2 hmember)).symm
    | some own =>
      cases hother : q.binding? role with
      | none =>
        obtain ⟨member, hmember⟩ := hp.exists_member role own hown
        have hnone := hq.binding?_eq_none_iff.1 hother
        exact absurd ((hiff role member).1 (mem_membersOf.2 ⟨own, hown, hmember⟩)) (hnone member)
      | some other =>
        have hrole : own.role = other.role :=
          (hp.role_eq role own hown).trans (hq.role_eq role other hother).symm
        have hmembers : own.members = other.members := OrderedSet.ext_mem fun member => by
          simpa [membersOf, hown, hother] using hiff role member
        cases own
        cases other
        cases hrole
        cases hmembers
        rfl
  have hheld : p.held = q.held := OrderedMap.ext_get? hbinding
  cases p
  cases q
  cases hresource
  cases hheld
  rfl

theorem WellFormed.isEmpty_iff (h : p.WellFormed) :
    p.isEmpty = true ↔ ∀ role member, ¬ member ∈ p.membersOf role := by
  rw [isEmpty, OrderedMap.isEmpty_iff]
  exact forall_congr' fun role => h.binding?_eq_none_iff

end Policy

/-! ## All resources -/

/-- A grant gives a role on a resource to a member. -/
def Grant.Gives (g : Grant) (resource : FullName) (role : RoleName) (member : Member) : Prop :=
  resource = g.resource ∧ role ∈ g.roles ∧ member = g.member

namespace Policies

/-- A member holds a role on a resource. -/
def Holds (m : Policies) (resource : FullName) (role : RoleName) (member : Member) : Prop :=
  ∃ policy binding, m.get? resource = some policy ∧ policy.binding? role = some binding ∧
    member ∈ binding.members

/-- A resource has a policy, if only an empty one. -/
def Addresses (m : Policies) (resource : FullName) : Prop :=
  ∃ policy, m.get? resource = some policy

/-- The policy of a resource; an empty one while it has not been addressed. -/
def policyOn (m : Policies) (resource : FullName) : Policy :=
  (m.get? resource).getD (.ofResource resource)

variable {m n : Policies} {resource : FullName} {role : RoleName} {member : Member}

theorem holds_iff_mem_of_get? {p : Policy} (h : m.get? resource = some p) :
    m.Holds resource role member ↔ member ∈ p.membersOf role := by
  rw [Policy.mem_membersOf, Holds]
  refine ⟨?_, fun ⟨b, hb, hmember⟩ => ⟨p, b, h, hb, hmember⟩⟩
  rintro ⟨q, b, hq, hb, hmember⟩
  rw [h] at hq
  cases hq
  exact ⟨b, hb, hmember⟩

theorem holds_iff :
    m.Holds resource role member ↔ member ∈ (m.policyOn resource).membersOf role := by
  rw [policyOn]
  cases hget : m.get? resource with
  | none => simp [Holds, hget]
  | some p => exact holds_iff_mem_of_get? hget

/-! ### Writing -/

theorem get?_add (m : Policies) (g : Grant) (resource : FullName) :
    (m.add g).get? resource =
      if resource = g.resource then some ((m.policyOn g.resource).add g.roles g.member)
      else m.get? resource :=
  OrderedMap.get?_update m.resources g.resource resource _

theorem get?_merge (m n : Policies) (resource : FullName) :
    (m.merge n).get? resource = Option.merge Policy.merge (m.get? resource) (n.get? resource) :=
  OrderedMap.get?_unionWith Policy.merge m.resources n.resources resource

@[simp] theorem get?_empty (resource : FullName) : Policies.empty.get? resource = none := rfl

@[simp] theorem not_holds_empty : ¬ Policies.empty.Holds resource role member := by
  simp [Holds]

@[simp] theorem not_addresses_empty : ¬ Policies.empty.Addresses resource := by
  simp [Addresses]

theorem holds_add {g : Grant} :
    (m.add g).Holds resource role member ↔
      m.Holds resource role member ∨ g.Gives resource role member := by
  rw [holds_iff, holds_iff, Grant.Gives, policyOn, get?_add]
  by_cases h : resource = g.resource
  · subst h; simp
  · simp [h, policyOn]

theorem addresses_add {g : Grant} :
    (m.add g).Addresses resource ↔ m.Addresses resource ∨ resource = g.resource := by
  rw [Addresses, Addresses, get?_add]
  by_cases h : resource = g.resource <;> simp [h]

theorem holds_addAll {grants : List Grant} :
    (m.addAll grants).Holds resource role member ↔
      m.Holds resource role member ∨ ∃ g ∈ grants, g.Gives resource role member := by
  induction grants generalizing m with
  | nil => simp [addAll]
  | cons g rest ih =>
    have hstep : m.addAll (g :: rest) = (m.add g).addAll rest := rfl
    rw [hstep, ih, holds_add, or_assoc]
    simp

theorem addresses_addAll {grants : List Grant} :
    (m.addAll grants).Addresses resource ↔
      m.Addresses resource ∨ ∃ g ∈ grants, resource = g.resource := by
  induction grants generalizing m with
  | nil => simp [addAll]
  | cons g rest ih =>
    have hstep : m.addAll (g :: rest) = (m.add g).addAll rest := rfl
    rw [hstep, ih, addresses_add, or_assoc]
    simp

/-- Grants leave all policies but those of their resources. -/
theorem get?_addAll_of_ne {grants : List Grant}
    (h : ∀ g ∈ grants, resource ≠ g.resource) :
    (m.addAll grants).get? resource = m.get? resource := by
  induction grants generalizing m with
  | nil => rfl
  | cons g rest ih =>
    obtain ⟨hhead, hrest⟩ := List.forall_mem_cons.1 h
    show ((m.add g).addAll rest).get? resource = m.get? resource
    rw [ih hrest, get?_add, if_neg hhead]

theorem holds_ofGrants {grants : List Grant} :
    (ofGrants grants).Holds resource role member ↔ ∃ g ∈ grants, g.Gives resource role member := by
  rw [ofGrants, holds_addAll]
  simp

theorem addresses_ofGrants {grants : List Grant} :
    (ofGrants grants).Addresses resource ↔ ∃ g ∈ grants, resource = g.resource := by
  rw [ofGrants, addresses_addAll]
  simp

theorem holds_merge :
    (m.merge n).Holds resource role member ↔
      m.Holds resource role member ∨ n.Holds resource role member := by
  rw [holds_iff, holds_iff, holds_iff, policyOn, policyOn, policyOn, get?_merge]
  cases m.get? resource <;> cases n.get? resource <;> simp

/-! ### What adding and merging can build -/

/-- Policies that some sequence of additions and merges builds. -/
inductive Reachable : Policies → Prop
  | empty : Reachable .empty
  | add {m : Policies} (h : Reachable m) (g : Grant) : Reachable (m.add g)
  | merge {m n : Policies} (hm : Reachable m) (hn : Reachable n) : Reachable (m.merge n)

/-- What is found under a resource is a policy on that resource, and well-formed. -/
structure WellFormed (m : Policies) : Prop where
  resource_eq : ∀ resource p, m.get? resource = some p → p.resource = resource
  policy : ∀ resource p, m.get? resource = some p → p.WellFormed

theorem wellFormed_empty : Policies.empty.WellFormed where
  resource_eq := by simp
  policy := by simp

theorem WellFormed.resource_policyOn (h : m.WellFormed) (resource : FullName) :
    (m.policyOn resource).resource = resource := by
  rw [policyOn]
  cases hget : m.get? resource with
  | none => rfl
  | some p => exact h.resource_eq resource p hget

theorem WellFormed.policyOn (h : m.WellFormed) (resource : FullName) :
    (m.policyOn resource).WellFormed := by
  rw [Policies.policyOn]
  cases hget : m.get? resource with
  | none => exact Policy.wellFormed_ofResource resource
  | some p => exact h.policy resource p hget

theorem WellFormed.add (h : m.WellFormed) (g : Grant) : (m.add g).WellFormed where
  resource_eq := by
    intro resource p hget
    rw [get?_add] at hget
    split at hget
    next hresource =>
      cases hget
      rw [Policy.resource_add, h.resource_policyOn, hresource]
    next => exact h.resource_eq resource p hget
  policy := by
    intro resource p hget
    rw [get?_add] at hget
    split at hget
    next => cases hget; exact (h.policyOn g.resource).add g.roles g.member
    next => exact h.policy resource p hget

theorem WellFormed.merge (hm : m.WellFormed) (hn : n.WellFormed) : (m.merge n).WellFormed := by
  -- a policy of the two is one of either, or one of the first that took over one of the second
  have hcases : ∀ resource p, (m.merge n).get? resource = some p →
      m.get? resource = some p ∨ n.get? resource = some p ∨
        ∃ own more, m.get? resource = some own ∧ n.get? resource = some more ∧
          p = own.merge more := by
    intro resource p hget
    rw [get?_merge] at hget
    cases hown : m.get? resource with
    | none =>
      rw [hown, Option.merge_none_left] at hget
      exact .inr (.inl hget)
    | some own =>
      cases hmore : n.get? resource with
      | none =>
        rw [hown, hmore, Option.merge_none_right] at hget
        exact .inl hget
      | some more =>
        rw [hown, hmore, Option.merge_some_some] at hget
        exact .inr (.inr ⟨own, more, rfl, rfl, (Option.some_inj.1 hget).symm⟩)
  constructor
  · intro resource p hget
    rcases hcases resource p hget with hown | hmore | ⟨own, more, hown, -, rfl⟩
    · exact hm.resource_eq resource p hown
    · exact hn.resource_eq resource p hmore
    · rw [Policy.resource_merge, hm.resource_eq resource own hown]
  · intro resource p hget
    rcases hcases resource p hget with hown | hmore | ⟨own, more, hown, hmore, rfl⟩
    · exact hm.policy resource p hown
    · exact hn.policy resource p hmore
    · exact (hm.policy resource own hown).merge (hn.policy resource more hmore)

theorem Reachable.wellFormed (h : m.Reachable) : m.WellFormed := by
  induction h with
  | empty => exact wellFormed_empty
  | add _ g ih => exact ih.add g
  | merge _ _ ihm ihn => exact ihm.merge ihn

theorem Reachable.addAll (h : m.Reachable) (grants : List Grant) : (m.addAll grants).Reachable := by
  induction grants generalizing m with
  | nil => exact h
  | cons g rest ih => exact ih (h.add g)

theorem reachable_ofGrants (grants : List Grant) : (ofGrants grants).Reachable :=
  Reachable.empty.addAll grants

/-- The policy of a resource is determined by who holds which role on it. -/
theorem WellFormed.get?_eq_of_holds_iff (hm : m.WellFormed) {p : Policy} (hp : p.WellFormed)
    (haddresses : m.Addresses p.resource)
    (hiff : ∀ role member, m.Holds p.resource role member ↔ member ∈ p.membersOf role) :
    m.get? p.resource = some p := by
  obtain ⟨own, hown⟩ := haddresses
  have hresource : own.resource = p.resource := hm.resource_eq p.resource own hown
  have heq : own = p := by
    refine (hm.policy p.resource own hown).eq_of_mem_iff hp hresource fun role member => ?_
    rw [← hiff role member, holds_iff_mem_of_get? hown]
  rw [hown, heq]

/-- Two collections that say the same about a resource have the same policy on it. -/
theorem WellFormed.get?_congr (hm : m.WellFormed) (hn : n.WellFormed)
    (haddresses : m.Addresses resource ↔ n.Addresses resource)
    (hholds : ∀ role member, m.Holds resource role member ↔ n.Holds resource role member) :
    m.get? resource = n.get? resource := by
  cases hget : n.get? resource with
  | none =>
    refine Option.eq_none_iff_forall_ne_some.2 fun p hp => ?_
    obtain ⟨p', hp'⟩ := haddresses.1 ⟨p, hp⟩
    rw [hget] at hp'
    cases hp'
  | some p =>
    obtain rfl : p.resource = resource := hn.resource_eq resource p hget
    exact hm.get?_eq_of_holds_iff (hn.policy _ p hget) (haddresses.2 ⟨p, hget⟩)
      fun role member => (hholds role member).trans (holds_iff_mem_of_get? hget)

/-! ### What is put out -/

/-- The policies that are put out, as a map. -/
def grantingMap (m : Policies) : OrderedMap FullName Policy :=
  m.resources.filter fun _ p => !p.isEmpty

theorem granting_eq_values (m : Policies) : m.granting = m.grantingMap.values := by
  rw [granting, all, OrderedMap.values, List.filter_map]
  rfl

theorem get?_grantingMap (m : Policies) (resource : FullName) :
    m.grantingMap.get? resource = (m.get? resource).filter fun p => !p.isEmpty :=
  OrderedMap.get?_filter m.resources _ resource

theorem get?_grantingMap_eq_some_iff {p : Policy} :
    m.grantingMap.get? resource = some p ↔ m.get? resource = some p ∧ p.isEmpty = false := by
  rw [get?_grantingMap, Option.filter_eq_some_iff, Bool.not_eq_true']

theorem WellFormed.grantingMap_resource_eq (h : m.WellFormed) (resource : FullName) (p : Policy)
    (hget : m.grantingMap.get? resource = some p) : p.resource = resource :=
  h.resource_eq resource p (get?_grantingMap_eq_some_iff.1 hget).1

theorem WellFormed.mem_granting (h : m.WellFormed) {p : Policy} :
    p ∈ m.granting ↔ m.get? p.resource = some p ∧ p.isEmpty = false := by
  rw [granting_eq_values, OrderedMap.mem_values]
  refine ⟨?_, fun hp => ⟨p.resource, get?_grantingMap_eq_some_iff.2 hp⟩⟩
  rintro ⟨resource, hget⟩
  cases h.grantingMap_resource_eq resource p hget
  exact get?_grantingMap_eq_some_iff.1 hget

theorem WellFormed.holds_iff_granting (h : m.WellFormed) :
    m.Holds resource role member ↔
      ∃ p ∈ m.granting, p.resource = resource ∧ member ∈ p.membersOf role := by
  refine ⟨?_, ?_⟩
  · rintro ⟨p, b, hp, hb, hmember⟩
    have hmem : member ∈ p.membersOf role := Policy.mem_membersOf.2 ⟨b, hb, hmember⟩
    obtain rfl : p.resource = resource := h.resource_eq resource p hp
    refine ⟨p, h.mem_granting.2 ⟨hp, ?_⟩, rfl, hmem⟩
    -- a policy with a member is not among the empty ones
    cases hempty : p.isEmpty with
    | false => rfl
    | true => exact absurd hmem ((h.policy _ p hp).isEmpty_iff.1 hempty role member)
  · rintro ⟨p, hp, rfl, hmem⟩
    exact (holds_iff_mem_of_get? (h.mem_granting.1 hp).1).2 hmem

/-- **What is put out says who holds what, and nothing else.** -/
theorem granting_eq_iff (hm : m.WellFormed) (hn : n.WellFormed) :
    m.granting = n.granting ↔
      ∀ resource role member, m.Holds resource role member ↔ n.Holds resource role member := by
  refine ⟨fun h resource role member => ?_, fun h => ?_⟩
  · rw [hm.holds_iff_granting, hn.holds_iff_granting, h]
  · have hmap : m.grantingMap = n.grantingMap := by
      refine OrderedMap.ext_get? fun resource => ?_
      have hpolicy : m.policyOn resource = n.policyOn resource := by
        refine (hm.policyOn resource).eq_of_mem_iff (hn.policyOn resource) ?_ fun role member => ?_
        · rw [hm.resource_policyOn, hn.resource_policyOn]
        · rw [← holds_iff, ← holds_iff, h resource role member]
      -- an empty policy is not told from none
      have hfilter : ∀ o : Policies, o.grantingMap.get? resource =
          (some (o.policyOn resource)).filter fun p => !p.isEmpty := by
        intro o
        rw [get?_grantingMap, policyOn]
        cases o.get? resource <;> rfl
      rw [hfilter m, hfilter n, hpolicy]
    rw [granting_eq_values, granting_eq_values, hmap]

end Policies

end GrantCompiler
