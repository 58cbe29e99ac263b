import GrantCompiler.Proofs.Naming.Register

/-!
# What a sequence of insertions leaves

Starting from nothing, entries are inserted one after the other.  The register that results is the
finite map of the last word on each pair of a kind and a short name: that is what is looked up
(`FullNames.get?_inserted_eq_some_iff`), what is listed, and what is counted.

The order of the list is given here without comparisons.  `Kind.listed` are the kinds with a meaning
of their own in the order in which they come, and all other kinds come after them by their texts
(`Kind.compare_eq_lt_iff`).
-/

set_option autoImplicit false

namespace GrantCompiler

/-! ## Which entry comes first -/

namespace Kind

/-- The kinds with a meaning of their own, in order. -/
def listed : List Kind := [buckets, queues, queueTopics, queueSubscriptions, serviceAccounts]

/-- Listed kinds come first, in the order of the list; other kinds follow by text, code point by code
point. -/
def Precedes (j k : Kind) : Prop :=
  listed.idxOf j < listed.idxOf k ∨ j ∉ listed ∧ k ∉ listed ∧ j.text < k.text

theorem rank_eq_idxOf (k : Kind) : k.rank = listed.idxOf k := by
  cases k with
  | other text free => simp [listed, rank]
  | _ => rfl

theorem compare_eq_lt_iff {j k : Kind} : compare j k = .lt ↔ j.Precedes k := by
  have hlex : compare j k = (compare j.rank k.rank).then (compare j.text k.text) := rfl
  have htext : compare j.text k.text = .lt ↔ j.text < k.text := compareOfLessAndEq_eq_lt
  rw [hlex, Ordering.then_eq_lt, Nat.compare_eq_lt, Nat.compare_eq_eq, htext, rank_eq_idxOf,
    rank_eq_idxOf, Precedes]
  refine or_congr_right ⟨?_, ?_⟩
  · rintro ⟨hplace, hlt⟩
    -- two kinds in one place of the list would be the same kind
    have hj : j ∉ listed := fun hj => by
      rw [List.idxOf_inj hj] at hplace
      exact String.lt_irrefl _ (hplace ▸ hlt)
    have hk : k ∉ listed := by
      rwa [← List.idxOf_lt_length_iff, ← hplace, List.idxOf_lt_length_iff]
    exact ⟨hj, hk, hlt⟩
  · rintro ⟨hj, hk, hlt⟩
    exact ⟨by rw [List.idxOf_eq_length hj, List.idxOf_eq_length hk], hlt⟩

end Kind

/-- By kind, and under one kind by short name, code point by code point. -/
def FullNameEntry.Precedes (e e' : FullNameEntry) : Prop :=
  e.kind.Precedes e'.kind ∨ e.kind = e'.kind ∧ e.name.text < e'.name.text

namespace FullNames

/-! ## Sequences of insertions -/

/-- The register after inserting entries one after the other, starting from nothing. -/
def inserted (entries : List FullNameEntry) : FullNames := empty.insertAll entries

variable {entries : List FullNameEntry} {kind : Kind} {name : ResourceName}

theorem get?_inserted (entries : List FullNameEntry) (kind : Kind) (name : ResourceName) :
    (inserted entries).get? kind name =
      OrderedMap.lastValue (kind, name) (entries.map pairOf) := by
  rw [inserted, get?_insertAll, get?_empty, Option.or_none]

theorem get?_inserted_eq_none_iff :
    (inserted entries).get? kind name = none ↔
      ∀ e ∈ entries, ¬ (e.kind = kind ∧ e.name = name) := by
  rw [get?_inserted, OrderedMap.lastValue_eq_none_iff, List.forall_mem_map]
  simp [pairOf]

/-- A full name is found if it was inserted and nothing was inserted over it. -/
theorem get?_inserted_eq_some_iff {path : FullName} :
    (inserted entries).get? kind name = some path ↔
      ∃ before after, entries = before ++ ⟨kind, name, path⟩ :: after ∧
        ∀ e ∈ after, ¬ (e.kind = kind ∧ e.name = name) := by
  rw [get?_inserted, OrderedMap.lastValue_eq_some_iff]
  refine ⟨?_, ?_⟩
  · rintro ⟨before, after, hentries, hafter⟩
    rw [List.map_eq_append_iff] at hentries
    obtain ⟨before, rest, rfl, rfl, hrest⟩ := hentries
    obtain ⟨e, after, rfl, he, rfl⟩ := List.map_eq_cons_iff.1 hrest
    cases he
    exact ⟨before, after, rfl, by simpa [pairOf] using hafter⟩
  · rintro ⟨before, after, rfl, hafter⟩
    refine ⟨before.map pairOf, after.map pairOf, by simp [pairOf], ?_⟩
    simpa [pairOf] using hafter

theorem exists_get?_inserted_iff :
    (∃ path, (inserted entries).get? kind name = some path) ↔
      (kind, name) ∈ entries.map fun e => (e.kind, e.name) := by
  rw [← Option.ne_none_iff_exists', Ne, get?_inserted_eq_none_iff]
  simp

theorem toList_precedes (names : FullNames) : names.toList.Pairwise FullNameEntry.Precedes := by
  refine names.toList_ascending.imp fun hlt => hlt.imp ?_ ?_
  · exact Kind.compare_eq_lt_iff.1
  · exact And.imp_right compareOfLessAndEq_eq_lt.1

theorem size_inserted (entries : List FullNameEntry) :
    (inserted entries).size = (entries.map fun e => (e.kind, e.name)).toFinset.card :=
  size_eq_card fun kind name => by rw [List.mem_toFinset, exists_get?_inserted_iff]

theorem isEmpty_inserted_iff : (inserted entries).isEmpty = true ↔ entries = [] := by
  rw [isEmpty, beq_iff_eq, size_inserted, Finset.card_eq_zero, List.toFinset_eq_empty_iff,
    List.map_eq_nil_iff]

/-- **The last word on each pair.**  After any sequence of insertions a look-up finds the full name
inserted last for its kind and short name, and nothing if there is none.  The list has each pair
that is found once, with what is found, in strictly ascending order.  Its length is the number of
different pairs inserted, and it is empty only if nothing was inserted. -/
theorem inserted_last_word (entries : List FullNameEntry) :
    (∀ kind name path, (inserted entries).get? kind name = some path ↔
      ∃ before after, entries = before ++ ⟨kind, name, path⟩ :: after ∧
        ∀ e ∈ after, ¬ (e.kind = kind ∧ e.name = name)) ∧
    (∀ kind name, (inserted entries).get? kind name = none ↔
      ∀ e ∈ entries, ¬ (e.kind = kind ∧ e.name = name)) ∧
    (∀ e, e ∈ (inserted entries).toList ↔
      (inserted entries).get? e.kind e.name = some e.fullName) ∧
    ((inserted entries).toList.map fun e => (e.kind, e.name)).Nodup ∧
    (inserted entries).toList.Pairwise FullNameEntry.Precedes ∧
    (inserted entries).size = (inserted entries).toList.length ∧
    (inserted entries).size = (entries.map fun e => (e.kind, e.name)).toFinset.card ∧
    ((inserted entries).isEmpty = true ↔ entries = []) :=
  ⟨fun _ _ _ => get?_inserted_eq_some_iff, fun _ _ => get?_inserted_eq_none_iff,
    fun _ => mem_toList, keys_nodup _, toList_precedes _, size_eq_length _, size_inserted entries,
    isEmpty_inserted_iff⟩

/-- A topic comes before a kind without a meaning, and what is inserted again is replaced. -/
example : (empty.insertAll [⟨.ofText "actors", ⟨"a"⟩, ⟨"1"⟩⟩, ⟨.queueTopics, ⟨"events"⟩, ⟨"2"⟩⟩,
    ⟨.ofText "actors", ⟨"a"⟩, ⟨"3"⟩⟩]).toList =
    [⟨.queueTopics, ⟨"events"⟩, ⟨"2"⟩⟩, ⟨.ofText "actors", ⟨"a"⟩, ⟨"3"⟩⟩] := by
  decide +kernel

end FullNames
end GrantCompiler
