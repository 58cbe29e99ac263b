import GrantCompiler.Policy.Record
import GrantCompiler.Proofs.Policy.Holding

/-!
# What is held and what is printed

A policy names the resource it is found under, and a binding its role, so either could be printed
under a name that it was not filed under.  Neither is: policies that adding and merging build are
well-formed, which is where `Proofs.Policy.Holding` leaves off, and this carries over to the records.

A record is taken here as the texts that are printed in it (`PrintedRecord`), the mark before a
member included.  Records are `Canonical`: no list in them is empty, and every list of them strictly
ascends by code point.  The mark does not disturb the order of the members, for all of them have it.
-/

set_option autoImplicit false

namespace GrantCompiler

/-! ## Printed texts -/

/-- The texts of a printed binding. -/
structure PrintedBinding where
  role : String
  members : List String

/-- The texts of a printed record. -/
structure PrintedRecord where
  resource : String
  bindings : List PrintedBinding

/-- A binding as it is put out. -/
def PrintedBinding.json (b : PrintedBinding) : Json :=
  .fields [("role", .text b.role), ("members", .list (b.members.map .text))]

/-- A record as it is put out. -/
def PrintedRecord.json (r : PrintedRecord) : Json :=
  .fields [("resource", .text r.resource), ("bindings", .list (r.bindings.map (·.json)))]

/-- The members of a printed binding ascend, and there is one. -/
structure PrintedBinding.Canonical (b : PrintedBinding) : Prop where
  members_ne_nil : b.members ≠ []
  members_ascending : b.members.Pairwise (· < ·)

/-- The roles of a printed record ascend, there is one, and so it is for the members of each. -/
structure PrintedRecord.Canonical (r : PrintedRecord) : Prop where
  bindings_ne_nil : r.bindings ≠ []
  roles_ascending : r.bindings.Pairwise fun b b' => b.role < b'.role
  binding : ∀ b ∈ r.bindings, b.Canonical

/-- What is printed of a binding. -/
def RoleBinding.printed (b : RoleBinding) : PrintedBinding where
  role := b.role.text
  members := b.members.toList.map fun member => memberMark ++ member.text

/-- What is printed of a policy. -/
def Policy.printed (p : Policy) : PrintedRecord where
  resource := p.resource.text
  bindings := p.bindings.map (·.printed)

/-- The records of all policies, as they are printed. -/
def Policies.printed (m : Policies) : List PrintedRecord := m.granting.map (·.printed)

theorem RoleBinding.json_printed (b : RoleBinding) : b.printed.json = b.json := by
  rw [PrintedBinding.json, printed, json, List.map_map]
  rfl

theorem Policy.json_printed (p : Policy) : p.printed.json = p.json := by
  rw [PrintedRecord.json, printed, json, List.map_map]
  have hbindings : p.bindings.map ((·.json) ∘ (·.printed)) = p.bindings.map (·.json) :=
    List.map_congr_left fun b _ => b.json_printed
  rw [hbindings]

/-- Nothing else is printed. -/
theorem Policies.text_eq_printed (m : Policies) (layout : Layout) :
    m.text layout = String.join (m.printed.map fun r => r.json.render layout ++ "\n") := by
  rw [text, printed, List.map_map]
  refine congrArg String.join (List.map_congr_left fun p _ => ?_)
  show p.record layout ++ "\n" = p.printed.json.render layout ++ "\n"
  rw [p.json_printed, Policy.record]

/-! ## Order -/

/-- The order of names is that of their texts, by code point. -/
theorem Name.text_lt_of_compare {sort : NameSort} {a b : Name sort} (h : compare a b = .lt) :
    a.text < b.text := by
  rw [compare_eq] at h
  exact compareOfLessAndEq_eq_lt.1 h

/-- A text before both does not change which is less. -/
theorem append_lt_append {s t : String} (mark : String) (h : s < t) : mark ++ s < mark ++ t := by
  rw [String.lt_iff] at h ⊢
  rw [String.toList_append, String.toList_append]
  exact List.append_left_lt h

theorem RoleBinding.printed_members_ascending (b : RoleBinding) :
    b.printed.members.Pairwise (· < ·) := by
  refine List.pairwise_map.2 (b.members.members.keys_ascending.imp fun hlt => ?_)
  exact append_lt_append memberMark (Name.text_lt_of_compare hlt)

/-- Where the entries of a map name their keys, the named texts ascend. -/
theorem OrderedMap.texts_ascending {sort : NameSort} {V : Type} {m : OrderedMap (Name sort) V}
    {name : V → Name sort} (h : ∀ k x, m.get? k = some x → name x = k) :
    m.values.Pairwise fun x y => (name x).text < (name y).text := by
  have hkeys : (m.values.map name).Pairwise fun a b => compare a b = .lt := by
    rw [map_values_eq_keys h]
    exact m.keys_ascending
  exact (List.pairwise_map.1 hkeys).imp Name.text_lt_of_compare

/-! ## Records -/

theorem RoleBinding.printed_canonical {b : RoleBinding} (h : ∃ member, member ∈ b.members) :
    b.printed.Canonical where
  members_ne_nil := by
    obtain ⟨member, hmember⟩ := h
    exact List.ne_nil_of_mem (List.mem_map_of_mem (OrderedSet.mem_toList.2 hmember))
  members_ascending := b.printed_members_ascending

theorem Policy.mem_bindings {p : Policy} {b : RoleBinding} :
    b ∈ p.bindings ↔ ∃ role, p.binding? role = some b :=
  OrderedMap.mem_values

theorem Policy.WellFormed.printed_canonical {p : Policy} (h : p.WellFormed)
    (hne : p.isEmpty = false) : p.printed.Canonical where
  bindings_ne_nil := by
    intro hnil
    have hheld : p.held.toList = [] := List.map_eq_nil_iff.1 (List.map_eq_nil_iff.1 hnil)
    rw [isEmpty, OrderedMap.isEmpty, hheld] at hne
    cases hne
  roles_ascending := List.pairwise_map.2 (OrderedMap.texts_ascending h.role_eq)
  binding := by
    intro _ hprinted
    obtain ⟨b, hb, rfl⟩ := List.mem_map.1 hprinted
    obtain ⟨role, hrole⟩ := Policy.mem_bindings.1 hb
    exact RoleBinding.printed_canonical (h.exists_member role b hrole)

namespace Policies

variable {m : Policies}

theorem WellFormed.printed_ascending (h : m.WellFormed) :
    m.printed.Pairwise fun r r' => r.resource < r'.resource := by
  rw [printed, granting_eq_values]
  exact List.pairwise_map.2 (OrderedMap.texts_ascending h.grantingMap_resource_eq)

theorem WellFormed.printed_canonical (h : m.WellFormed) : ∀ r ∈ m.printed, r.Canonical := by
  intro _ hr
  obtain ⟨p, hp, rfl⟩ := List.mem_map.1 hr
  obtain ⟨hget, hne⟩ := h.mem_granting.1 hp
  exact (h.policy p.resource p hget).printed_canonical hne

theorem WellFormed.isEmpty_iff (h : m.WellFormed) {resource : FullName} {p : Policy}
    (hget : m.get? resource = some p) :
    p.isEmpty = true ↔ ∀ role member, ¬ m.Holds resource role member := by
  rw [(h.policy resource p hget).isEmpty_iff]
  simp only [holds_iff_mem_of_get? hget]

/-- The policies that are put out are those of the resources on which something is granted. -/
theorem WellFormed.exists_mem_granting_iff (h : m.WellFormed) (resource : FullName) :
    (∃ p ∈ m.granting, p.resource = resource) ↔ ∃ role member, m.Holds resource role member := by
  refine ⟨?_, ?_⟩
  · rintro ⟨p, hp, rfl⟩
    obtain ⟨hget, hne⟩ := h.mem_granting.1 hp
    refine Classical.byContradiction fun hnone => ?_
    have hempty : p.isEmpty = true := (h.isEmpty_iff hget).2 fun role member hholds =>
      hnone ⟨role, member, hholds⟩
    rw [hne] at hempty
    cases hempty
  · rintro ⟨role, member, hholds⟩
    obtain ⟨p, hp, hresource, -⟩ := h.holds_iff_granting.1 hholds
    exact ⟨p, hp, hresource⟩

/-- **What adding and merging can build.**  Policies and bindings name what they are found under,
nothing is entered for which there is no member, and only what grants nothing counts as empty.  What
is printed are exactly the resources with a grant, and all that is printed is in order. -/
theorem Reachable.keys_and_records (hm : m.Reachable) :
    (∀ resource p, m.get? resource = some p → p.resource = resource ∧
      (∀ role b, p.binding? role = some b → b.role = role ∧ ∃ member, member ∈ b.members) ∧
      (p.isEmpty = true ↔ ∀ role member, ¬ m.Holds resource role member)) ∧
    (∀ p, p ∈ m.granting ↔ m.get? p.resource = some p ∧ p.isEmpty = false) ∧
    (∀ resource, (∃ p ∈ m.granting, p.resource = resource) ↔
      ∃ role member, m.Holds resource role member) ∧
    (∀ layout, m.text layout =
      String.join (m.printed.map fun r => r.json.render layout ++ "\n")) ∧
    m.printed.Pairwise (fun r r' => r.resource < r'.resource) ∧ ∀ r ∈ m.printed, r.Canonical := by
  have h : m.WellFormed := hm.wellFormed
  refine ⟨fun resource p hget => ?_, fun _ => h.mem_granting, h.exists_mem_granting_iff,
    m.text_eq_printed, h.printed_ascending, h.printed_canonical⟩
  have hp : p.WellFormed := h.policy resource p hget
  exact ⟨h.resource_eq resource p hget,
    fun role b hb => ⟨hp.role_eq role b hb, hp.exists_member role b hb⟩, h.isEmpty_iff hget⟩

/-! ### A resource without a grant, and a grant made twice -/

namespace GrantedTwice

/-- One resource is addressed only, and on the other a role is granted twice to one member and, by
what is merged, to another. -/
def policies : Policies :=
  (ofGrants [⟨⟨"a"⟩, [], ⟨"x"⟩⟩, ⟨⟨"b"⟩, [⟨"r"⟩, ⟨"r"⟩], ⟨"y"⟩⟩]).merge
    (ofGrants [⟨⟨"b"⟩, [⟨"r"⟩, ⟨"q"⟩], ⟨"x"⟩⟩])

theorem reachable : policies.Reachable := (reachable_ofGrants _).merge (reachable_ofGrants _)

/-- Two policies are held, one of them is printed, and nothing in it is printed twice. -/
theorem printed_once : policies.Reachable ∧ policies.size = 2 ∧
    policies.printed = [⟨"b", [⟨"q", ["serviceAccount:x"]⟩,
      ⟨"r", ["serviceAccount:x", "serviceAccount:y"]⟩]⟩] ∧
    (∀ r ∈ policies.printed, r.Canonical) ∧ ¬ ∃ role member, policies.Holds ⟨"a"⟩ role member := by
  obtain ⟨-, -, hresources, -, -, hcanonical⟩ := reachable.keys_and_records
  refine ⟨reachable, rfl, rfl, hcanonical, fun hholds => ?_⟩
  obtain ⟨p, hp, hresource⟩ := (hresources _).2 hholds
  have hnone : ∀ p ∈ policies.granting, p.resource ≠ ⟨"a"⟩ := by decide
  exact hnone p hp hresource

end GrantedTwice

end Policies

end GrantCompiler
