import GrantCompiler.Proofs.Naming.Derivation
import Mathlib.Data.Finset.Card

/-!
# The register as one map

The register of full names is a map of maps: by kind, and then by short name.  Seen from outside it
is one map from pairs of a kind and a short name, and this file says so: `FullNames.mem_toList` ties
what is listed to what is looked up, `FullNames.keys_nodup` says that no pair is listed twice, and
`FullNames.size_eq_card` counts the register by any finite set that tells which pairs are held.

The look-ups even determine the register (`FullNames.Populated.eq_of_get?_eq`).  That would fail of
a register with a kind that holds nothing, and no sequence of entries leaves one.
-/

set_option autoImplicit false

namespace GrantCompiler
namespace FullNames

variable {names : FullNames} {kind : Kind} {name : ResourceName}

theorem get?_eq_some_iff {path : FullName} :
    names.get? kind name = some path ↔
      ∃ held, names.kinds.get? kind = some held ∧ held.get? name = some path := by
  rw [get?]
  cases names.kinds.get? kind <;> simp

theorem mem_toList {e : FullNameEntry} :
    e ∈ names.toList ↔ names.get? e.kind e.name = some e.fullName := by
  rw [get?_eq_some_iff]
  simp only [toList, List.mem_flatMap, List.mem_map, Prod.exists, OrderedMap.mem_toList]
  refine ⟨?_, ?_⟩
  · rintro ⟨kind, held, hheld, name, path, hpath, rfl⟩
    exact ⟨held, hheld, hpath⟩
  · rintro ⟨held, hheld, hpath⟩
    exact ⟨e.kind, held, hheld, e.name, e.fullName, hpath, rfl⟩

/-! ## Counting -/

theorem size_eq_length (names : FullNames) : names.size = names.toList.length := by
  rw [size, toList, List.length_flatMap, List.sum_eq_foldl, List.foldl_map, OrderedMap.values,
    List.foldl_map]
  simp only [List.length_map, OrderedMap.size]

/-- The pairs of a kind and a short name that the register holds a full name for. -/
def keys (names : FullNames) : List (Kind × ResourceName) :=
  names.toList.map fun e => (e.kind, e.name)

theorem mem_keys : (kind, name) ∈ names.keys ↔ ∃ path, names.get? kind name = some path := by
  simp only [keys, List.mem_map, mem_toList, Prod.mk.injEq]
  refine ⟨?_, ?_⟩
  · rintro ⟨e, he, rfl, rfl⟩
    exact ⟨e.fullName, he⟩
  · rintro ⟨path, hpath⟩
    exact ⟨⟨kind, name, path⟩, hpath, rfl, rfl⟩

/-- The entries ascend by kind, and under one kind by short name. -/
theorem toList_ascending (names : FullNames) :
    names.toList.Pairwise fun e e' =>
      compare e.kind e'.kind = .lt ∨ e.kind = e'.kind ∧ compare e.name e'.name = .lt := by
  rw [toList, List.pairwise_flatMap]
  refine ⟨fun e _ => ?_, names.kinds.ascending.imp fun {e e'} hlt x hx y hy => ?_⟩
  · exact List.pairwise_map.2 (e.2.ascending.imp fun hlt => .inr ⟨rfl, hlt⟩)
  · obtain ⟨a, -, rfl⟩ := List.mem_map.1 hx
    obtain ⟨b, -, rfl⟩ := List.mem_map.1 hy
    exact .inl hlt

theorem keys_nodup (names : FullNames) : names.keys.Nodup := by
  rw [keys, List.nodup_iff_pairwise_ne, List.pairwise_map]
  refine names.toList_ascending.imp fun {e e'} hlt heq => ?_
  obtain ⟨hkind, hname⟩ := Prod.mk.inj heq
  rcases hlt with hlt | ⟨-, hlt⟩
  · simp [hkind] at hlt
  · simp [hname] at hlt

/-- The register is as large as any set that tells which pairs it holds. -/
theorem size_eq_card {held : Finset (Kind × ResourceName)}
    (h : ∀ kind name, (kind, name) ∈ held ↔ ∃ path, names.get? kind name = some path) :
    names.size = held.card := by
  have hkeys : names.keys.toFinset = held := by
    ext ⟨kind, name⟩
    rw [List.mem_toFinset, mem_keys, h]
  rw [← hkeys, List.toFinset_card_of_nodup names.keys_nodup, keys, List.length_map, size_eq_length]

/-! ## What the look-ups determine -/

/-- Every kind that is entered holds a full name. -/
def Populated (names : FullNames) : Prop :=
  ∀ kind held, names.kinds.get? kind = some held → ∃ name path, held.get? name = some path

theorem populated_empty : empty.Populated := by
  intro kind held h
  cases h

theorem Populated.insert (h : names.Populated) (entry : FullNameEntry) :
    (names.insert entry).Populated := by
  intro kind held hheld
  rw [FullNames.insert, OrderedMap.get?_update] at hheld
  split at hheld
  · cases hheld
    exact ⟨entry.name, entry.fullName, by rw [OrderedMap.get?_insert, if_pos rfl]⟩
  · exact h kind held hheld

theorem Populated.insertAll (h : names.Populated) (entries : List FullNameEntry) :
    (names.insertAll entries).Populated := by
  induction entries generalizing names with
  | nil => exact h
  | cons entry rest ih => exact ih (h.insert entry)

/-- A populated register has a kind only for what is found under it. -/
theorem Populated.get?_kinds_eq_none (h : names.Populated)
    (hnone : ∀ name, names.get? kind name = none) : names.kinds.get? kind = none := by
  refine Option.eq_none_iff_forall_ne_some.2 fun held hheld => ?_
  obtain ⟨name, path, hpath⟩ := h kind held hheld
  have hget : names.get? kind name = some path := get?_eq_some_iff.2 ⟨held, hheld, hpath⟩
  rw [hnone name] at hget
  cases hget

/-- **A register is what is found in it.** -/
theorem Populated.eq_of_get?_eq {names' : FullNames} (h : names.Populated) (h' : names'.Populated)
    (hget : ∀ kind name, names.get? kind name = names'.get? kind name) : names = names' := by
  have hkinds : ∀ kind, names.kinds.get? kind = names'.kinds.get? kind := by
    intro kind
    cases hkind : names.kinds.get? kind with
    | none =>
      refine (h'.get?_kinds_eq_none fun name => ?_).symm
      rw [← hget, get?, hkind]
      rfl
    | some held =>
      cases hkind' : names'.kinds.get? kind with
      | none =>
        have hnone : names.kinds.get? kind = none := by
          refine h.get?_kinds_eq_none fun name => ?_
          rw [hget, get?, hkind']
          rfl
        rw [hkind] at hnone
        cases hnone
      | some held' =>
        refine congrArg some (OrderedMap.ext_get? fun name => ?_)
        have hname := hget kind name
        rw [get?, get?, hkind, hkind'] at hname
        exact hname
  cases names
  cases names'
  exact congrArg mk (OrderedMap.ext_get? hkinds)

end FullNames
end GrantCompiler
