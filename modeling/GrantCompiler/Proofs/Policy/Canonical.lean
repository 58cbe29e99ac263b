import GrantCompiler.Proofs.Policy.Holding

/-!
# Policies do not remember how they were built

`Policies` is a map of maps of sets, and it is written to one grant at a time.  Still it is no more
than the two relations of `Proofs.Policy.Holding`: what can be reached by additions and merges is
determined by who holds what and by which resources are addressed (`WellFormed.eq_of_iff`).

So two lists of grants that hold the same grants build the same policies, whatever their order and
however often each grant stands in them (`addAll_congr`), and building from two lists is merging
what each of them builds (`merge_ofGrants`).

## What is here

* `ofGrants_eq_iff` — two lists of grants build the same policies exactly if they address the same
  resources and give the same roles to the same members.
* `WellFormed.merge_assoc`, `WellFormed.merge_comm`, `WellFormed.merge_self`, `merge_empty`,
  `empty_merge` — merging is a union.  Each law is the law of `∨` on the two relations.
* `Reachable.merge_is_union` — all of it in one place, with what merging does to single policies.
-/

set_option autoImplicit false

namespace GrantCompiler
namespace Policies

variable {m n : Policies} {grants more : List Grant}

theorem eq_of_get?_eq (h : ∀ resource, m.get? resource = n.get? resource) : m = n := by
  cases m
  cases n
  exact congrArg mk (OrderedMap.ext_get? h)

/-- **Policies are what they say.**  Neither the order of the grants nor the depth at which
something was written is left in them. -/
theorem WellFormed.eq_of_iff (hm : m.WellFormed) (hn : n.WellFormed)
    (haddresses : ∀ resource, m.Addresses resource ↔ n.Addresses resource)
    (hholds : ∀ resource role member, m.Holds resource role member ↔
      n.Holds resource role member) : m = n := by
  exact eq_of_get?_eq fun resource => hm.get?_congr hn (haddresses resource) (hholds resource)

/-! ## The order of grants -/

theorem WellFormed.addAll (h : m.WellFormed) (grants : List Grant) :
    (m.addAll grants).WellFormed := by
  induction grants generalizing m with
  | nil => exact h
  | cons g rest ih => exact ih (h.add g)

theorem wellFormed_ofGrants (grants : List Grant) : (ofGrants grants).WellFormed :=
  (reachable_ofGrants grants).wellFormed

theorem addAll_append (m : Policies) (grants more : List Grant) :
    m.addAll (grants ++ more) = (m.addAll grants).addAll more :=
  List.foldl_append

/-- Only which grants are made counts, and not when or how often. -/
theorem WellFormed.addAll_congr (hm : m.WellFormed) (h : ∀ g, g ∈ grants ↔ g ∈ more) :
    m.addAll grants = m.addAll more := by
  refine (hm.addAll grants).eq_of_iff (hm.addAll more) (fun resource => ?_)
    (fun resource role member => ?_)
  · rw [addresses_addAll, addresses_addAll]
    simp only [h]
  · rw [holds_addAll, holds_addAll]
    simp only [h]

theorem ofGrants_congr (h : ∀ g, g ∈ grants ↔ g ∈ more) : ofGrants grants = ofGrants more :=
  wellFormed_empty.addAll_congr h

/-! ## Merging -/

theorem addresses_merge {resource : FullName} :
    (m.merge n).Addresses resource ↔ m.Addresses resource ∨ n.Addresses resource := by
  rw [Addresses, Addresses, Addresses, get?_merge]
  cases m.get? resource <;> cases n.get? resource <;> simp

/-- **Merging is making the grants of both.** -/
theorem merge_ofGrants (grants more : List Grant) :
    (ofGrants grants).merge (ofGrants more) = ofGrants (grants ++ more) := by
  have hmerged : ((ofGrants grants).merge (ofGrants more)).WellFormed :=
    (wellFormed_ofGrants grants).merge (wellFormed_ofGrants more)
  refine hmerged.eq_of_iff (wellFormed_ofGrants (grants ++ more)) (fun resource => ?_)
    (fun resource role member => ?_)
  · rw [addresses_merge, addresses_ofGrants, addresses_ofGrants, addresses_ofGrants]
    simp only [List.mem_append, or_and_right, exists_or]
  · rw [holds_merge, holds_ofGrants, holds_ofGrants, holds_ofGrants]
    simp only [List.mem_append, or_and_right, exists_or]

@[simp] theorem merge_empty (m : Policies) : m.merge .empty = m :=
  eq_of_get?_eq fun resource => by rw [get?_merge, get?_empty, Option.merge_none_right]

@[simp] theorem empty_merge (m : Policies) : Policies.empty.merge m = m :=
  eq_of_get?_eq fun resource => by rw [get?_merge, get?_empty, Option.merge_none_left]

theorem WellFormed.merge_comm (hm : m.WellFormed) (hn : n.WellFormed) :
    m.merge n = n.merge m := by
  refine (hm.merge hn).eq_of_iff (hn.merge hm) (fun resource => ?_) (fun resource role member => ?_)
  · rw [addresses_merge, addresses_merge, or_comm]
  · rw [holds_merge, holds_merge, or_comm]

theorem WellFormed.merge_assoc {o : Policies} (hm : m.WellFormed) (hn : n.WellFormed)
    (ho : o.WellFormed) : (m.merge n).merge o = m.merge (n.merge o) := by
  refine ((hm.merge hn).merge ho).eq_of_iff (hm.merge (hn.merge ho)) (fun resource => ?_)
    (fun resource role member => ?_)
  · simp only [addresses_merge, or_assoc]
  · simp only [holds_merge, or_assoc]

theorem WellFormed.merge_self (hm : m.WellFormed) : m.merge m = m := by
  refine (hm.merge hm).eq_of_iff hm (fun resource => ?_) (fun resource role member => ?_)
  · rw [addresses_merge, or_self_iff]
  · rw [holds_merge, or_self_iff]

/-! ## What is left of a list of grants -/

/-- What policies say is what the grants said. -/
theorem ofGrants_eq_iff :
    ofGrants grants = ofGrants more ↔
      (∀ resource, (∃ g ∈ grants, resource = g.resource) ↔ ∃ g ∈ more, resource = g.resource) ∧
      ∀ resource role member, (∃ g ∈ grants, g.Gives resource role member) ↔
        ∃ g ∈ more, g.Gives resource role member := by
  simp only [← addresses_ofGrants, ← holds_ofGrants]
  refine ⟨fun h => ?_, fun ⟨haddresses, hholds⟩ => ?_⟩
  · rw [h]
    exact ⟨fun _ => Iff.rfl, fun _ _ _ => Iff.rfl⟩
  · exact (wellFormed_ofGrants grants).eq_of_iff (wellFormed_ofGrants more) haddresses hholds

/-- **Merging is a union.**  What grants build is determined by the resources they address and by
the roles they give, and nothing else about them.  Merging makes the grants of both sides, so on all
that additions and merges can build it is associative, commutative and idempotent, with nothing to
be gained from the empty collection.  A policy that takes over another stays the policy of its own
resource, whatever the other is for, and then the pairs of both are in it and no others; a role
that neither has is not entered. -/
theorem Reachable.merge_is_union {o : Policies} (hm : m.Reachable) (hn : n.Reachable)
    (ho : o.Reachable) (grants more : List Grant) (p q : Policy) :
    (ofGrants grants = ofGrants more ↔
      (∀ resource, (∃ g ∈ grants, resource = g.resource) ↔ ∃ g ∈ more, resource = g.resource) ∧
      ∀ resource role member, (∃ g ∈ grants, g.Gives resource role member) ↔
        ∃ g ∈ more, g.Gives resource role member) ∧
    (ofGrants grants).merge (ofGrants more) = ofGrants (grants ++ more) ∧
    (m.merge n).merge o = m.merge (n.merge o) ∧
    m.merge n = n.merge m ∧
    m.merge m = m ∧
    m.merge .empty = m ∧ Policies.empty.merge m = m ∧
    (p.merge q).resource = p.resource ∧
    (∀ role member, member ∈ (p.merge q).membersOf role ↔
      member ∈ p.membersOf role ∨ member ∈ q.membersOf role) ∧
    ∀ role, (p.merge q).binding? role = none ↔ p.binding? role = none ∧ q.binding? role = none := by
  have hm : m.WellFormed := hm.wellFormed
  have hn : n.WellFormed := hn.wellFormed
  refine ⟨ofGrants_eq_iff, merge_ofGrants grants more, hm.merge_assoc hn ho.wellFormed,
    hm.merge_comm hn, hm.merge_self, merge_empty m, empty_merge m, Policy.resource_merge p q,
    fun role member => Policy.mem_membersOf_merge, fun role => ?_⟩
  rw [Policy.binding?_merge, Option.merge_eq_none_iff]

/-! ### A resource that is addressed only

Nothing is granted on the second resource of `pair`, and still the policies are not those that its
first grant builds alone. -/

namespace AddressedOnly

/-- A grant, and a resource that is addressed without a role. -/
def pair : List Grant := [⟨⟨"a"⟩, [⟨"r"⟩], ⟨"x"⟩⟩, ⟨⟨"b"⟩, [], ⟨"x"⟩⟩]

/-- A grant that names a role twice. -/
def repeated : List Grant := [⟨⟨"a"⟩, [⟨"r"⟩, ⟨"q"⟩, ⟨"r"⟩], ⟨"y"⟩⟩]

/-- The policy of one resource. -/
def first : Policy := (Policy.ofResource ⟨"a"⟩).add [⟨"r"⟩] ⟨"x"⟩

/-- The policy of another, with a role in common. -/
def second : Policy := (Policy.ofResource ⟨"b"⟩).add [⟨"q"⟩, ⟨"r"⟩] ⟨"y"⟩

theorem merged_either_way : (ofGrants pair).Reachable ∧ (ofGrants repeated).Reachable ∧
    ofGrants pair ≠ ofGrants (pair.take 1) ∧
    (ofGrants pair).merge (ofGrants repeated) = (ofGrants repeated).merge (ofGrants pair) ∧
    (first.merge second).resource = ⟨"a"⟩ ∧ ⟨"y"⟩ ∈ (first.merge second).membersOf ⟨"q"⟩ := by
  have hm : (ofGrants pair).Reachable := reachable_ofGrants pair
  have hn : (ofGrants repeated).Reachable := reachable_ofGrants repeated
  obtain ⟨heq, -, -, hcomm, -, -, -, hresource, hmembers, -⟩ :=
    hm.merge_is_union hn hm pair (pair.take 1) first second
  refine ⟨hm, hn, fun h => ?_, hcomm, hresource, (hmembers _ _).2 (.inr (by decide))⟩
  have haddressed : ∃ g ∈ pair.take 1, ⟨"b"⟩ = g.resource :=
    ((heq.1 h).1 ⟨"b"⟩).1 ⟨⟨⟨"b"⟩, [], ⟨"x"⟩⟩, by decide, rfl⟩
  exact absurd haddressed (by decide)

end AddressedOnly

end Policies
end GrantCompiler
