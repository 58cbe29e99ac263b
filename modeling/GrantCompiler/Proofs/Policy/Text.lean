import GrantCompiler.Proofs.Json.Readability
import GrantCompiler.Proofs.Policy.Holding
import GrantCompiler.Proofs.Policy.Writing

/-!
# The text of policies

The text that is put out and the grants it came from determine each other.  From the grants to the
text there is nothing to it but `Policies.granting_eq_iff`: what is put out depends on who holds
what alone.  The way back goes up the layers of the text, and each of them can be undone: a text
from its bytes, the records from the text (`recordChars_inj`), a policy from its record
(`Policy.WellFormed.json_inj`), and its roles and members from the lists they stand in.
-/

set_option autoImplicit false

namespace GrantCompiler

/-- A set is determined by the sequence of its members. -/
theorem OrderedSet.toList_inj {α : Type} [Ord α] [Std.TransOrd α] [Std.LawfulEqOrd α]
    {s t : OrderedSet α} (h : s.toList = t.toList) : s = t :=
  OrderedSet.ext_mem fun a => by rw [← OrderedSet.mem_toList, h, OrderedSet.mem_toList]

/-! ## One record -/

theorem memberText_inj {x y : Member}
    (h : Json.text (memberMark ++ x.text) = Json.text (memberMark ++ y.text)) : x = y := by
  obtain ⟨s⟩ := x
  obtain ⟨t⟩ := y
  have htext : memberMark ++ s = memberMark ++ t := Json.text.inj h
  rw [String.append_right_inj] at htext
  rw [htext]

theorem RoleBinding.json_inj {b c : RoleBinding} (h : b.json = c.json) : b = c := by
  obtain ⟨⟨role⟩, members⟩ := b
  obtain ⟨⟨role'⟩, members'⟩ := c
  simp only [json, Json.fields.injEq, List.cons.injEq, Prod.mk.injEq, true_and, and_true,
    Json.text.injEq, Json.list.injEq] at h
  obtain ⟨rfl, hmembers⟩ := h
  have hlist : members.toList = members'.toList :=
    (List.map_inj_right fun _ _ h => memberText_inj h).1 hmembers
  rw [OrderedSet.toList_inj hlist]

theorem Policy.WellFormed.json_inj {p q : Policy} (hp : p.WellFormed) (hq : q.WellFormed)
    (h : p.json = q.json) : p = q := by
  obtain ⟨⟨resource⟩, held⟩ := p
  obtain ⟨⟨resource'⟩, held'⟩ := q
  simp only [json, Json.fields.injEq, List.cons.injEq, Prod.mk.injEq, true_and, and_true,
    Json.text.injEq, Json.list.injEq] at h
  obtain ⟨rfl, hbindings⟩ := h
  have hlist := (List.map_inj_right fun _ _ h => RoleBinding.json_inj h).1 hbindings
  have hheld : held = held' := OrderedMap.ext_values hp.role_eq hq.role_eq hlist
  rw [hheld]

/-! ## All records -/

/-- Records that stand one after another, each ended by a line feed. -/
def recordChars (layout : Layout) (ps : List Policy) : List Char :=
  ps.flatMap fun p => p.json.chars layout 0 ++ ['\n']

theorem toList_text (layout : Layout) (m : Policies) :
    (m.text layout).toList = recordChars layout m.granting := by
  rw [Policies.text, String.toList_join, List.flatMap_map, recordChars]
  simp [Policy.record, Json.render]

theorem recordChars_inj (layout : Layout) : ∀ {ps qs : List Policy}, (∀ p ∈ ps, p.WellFormed) →
    (∀ q ∈ qs, q.WellFormed) → recordChars layout ps = recordChars layout qs → ps = qs
  | [], [], _, _, _ => rfl
  | [], q :: _, _, _, h => by simp [recordChars] at h
  | p :: _, [], _, _, h => by simp [recordChars] at h
  | p :: ps, q :: qs, hp, hq, h => by
    obtain ⟨hphead, hprest⟩ := List.forall_mem_cons.1 hp
    obtain ⟨hqhead, hqrest⟩ := List.forall_mem_cons.1 hq
    simp only [recordChars, List.flatMap_cons, List.append_assoc] at h
    obtain ⟨hjson, hrest⟩ := Json.chars_append_inj layout 0 p.json q.json h
    simp only [List.singleton_append, List.cons.injEq, true_and] at hrest
    rw [hphead.json_inj hqhead hjson, recordChars_inj layout hprest hqrest hrest]

namespace Policies

variable {m n : Policies} {layout : Layout}

theorem text_ne_empty (h : m.granting ≠ []) : m.text layout ≠ "" := by
  intro htext
  have hchars : recordChars layout m.granting = [] := by
    rw [← toList_text, htext]
    rfl
  obtain ⟨p, rest, hgranting⟩ := List.exists_cons_of_ne_nil h
  simp [hgranting, recordChars] at hchars

theorem WellFormed.of_mem_granting (hm : m.WellFormed) (p : Policy) (hp : p ∈ m.granting) :
    p.WellFormed :=
  hm.policy p.resource p (hm.mem_granting.1 hp).1

theorem granting_eq_of_text_eq (hm : m.WellFormed) (hn : n.WellFormed)
    (h : m.text layout = n.text layout) : m.granting = n.granting :=
  recordChars_inj layout hm.of_mem_granting hn.of_mem_granting
    (by rw [← toList_text, ← toList_text, h])

theorem text_eq_iff (hm : m.WellFormed) (hn : n.WellFormed) :
    m.text layout = n.text layout ↔
      ∀ resource role member, m.Holds resource role member ↔ n.Holds resource role member := by
  rw [← granting_eq_iff hm hn]
  exact ⟨granting_eq_of_text_eq hm hn, fun h => by rw [text, text, h]⟩

/-- **The text determines the grants, and is determined by them.**  Whatever sequence of additions
and merges two collections come from, a device that takes both receives the same bytes exactly if
the same members hold the same roles on the same resources. -/
theorem received_eq_iff_holds_iff (hm : m.Reachable) (hn : n.Reachable) {d : Device}
    (hdm : d.Takes layout m) (hdn : d.Takes layout n) :
    (d.writePolicies layout m).2 = .ok m.granting.length ∧
      (d.writePolicies layout n).2 = .ok n.granting.length ∧
        ((d.writePolicies layout m).1.received = (d.writePolicies layout n).1.received ↔
          ∀ resource role member, m.Holds resource role member ↔ n.Holds resource role member) := by
  obtain ⟨hokm, hreceivedm⟩ := hdm.writePolicies
  obtain ⟨hokn, hreceivedn⟩ := hdn.writePolicies
  refine ⟨hokm, hokn, ?_⟩
  rw [hreceivedm, hreceivedn, List.append_cancel_left_eq, ← text_eq_iff hm.wellFormed hn.wellFormed]
  exact ⟨utf8_inj, fun h => by rw [h]⟩

/-! ### A member that spells out two

The one member of `crafted` is written with the quotes and the comma that stand between the two
members of `honest`. -/

namespace CraftedMember

/-- One member, whose name has the end of a member and the beginning of another in it. -/
def crafted : Policies := ofGrants [⟨⟨"a"⟩, [⟨"r"⟩], ⟨"x\",\"serviceAccount:y"⟩⟩]

/-- Two members. -/
def honest : Policies := ofGrants [⟨⟨"a"⟩, [⟨"r"⟩], ⟨"x"⟩⟩, ⟨⟨"a"⟩, [⟨"r"⟩], ⟨"y"⟩⟩]

/-- A device with room for either text. -/
def device : Device := ⟨200, "no space left", none, []⟩

theorem not_holds_crafted : ¬ crafted.Holds ⟨"a"⟩ ⟨"r"⟩ ⟨"y"⟩ := by
  rw [crafted, holds_ofGrants]
  rintro ⟨g, hg, -, -, hmember⟩
  rw [List.mem_singleton.1 hg] at hmember
  exact absurd hmember (by decide)

theorem holds_honest : honest.Holds ⟨"a"⟩ ⟨"r"⟩ ⟨"y"⟩ :=
  holds_ofGrants.2 ⟨_, List.mem_cons_of_mem _ (List.mem_singleton_self _), rfl,
    List.mem_singleton_self _, rfl⟩

theorem received_ne : crafted.Reachable ∧ honest.Reachable ∧
    device.Takes .compact crafted ∧ device.Takes .compact honest ∧
    (device.writePolicies .compact crafted).1.received ≠
      (device.writePolicies .compact honest).1.received := by
  have hm : crafted.Reachable := reachable_ofGrants _
  have hn : honest.Reachable := reachable_ofGrants _
  have hdm : device.Takes .compact crafted := ⟨by decide +kernel, rfl⟩
  have hdn : device.Takes .compact honest := ⟨by decide +kernel, rfl⟩
  refine ⟨hm, hn, hdm, hdn, fun hreceived => not_holds_crafted ?_⟩
  obtain ⟨-, -, hiff⟩ := received_eq_iff_holds_iff hm hn hdm hdn
  exact (hiff.1 hreceived _ _ _).2 holds_honest

end CraftedMember

end Policies

end GrantCompiler
