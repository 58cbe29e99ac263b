import GrantCompiler.Proofs.Compilation.Outcome
import GrantCompiler.Proofs.Naming.Separation

/-!
# Which declaration a full name belongs to

Full names are held by kind and short name, and a queue's full names depend on its owner besides.
So when several owners declare a queue of one short name, all but one of them lose theirs, and
nothing is reported.  The owner that keeps it is the greatest: owners are read in ascending order,
and a later entry replaces an earlier one.
-/

set_option autoImplicit false

namespace GrantCompiler

open Std (OrientedCmp LawfulEqCmp)

section Compiled

variable {apps : Apps} {document : UsageDocument} {locators : Locators} {c : Compilation}
  {kind : Kind} {owner : OwnerKey} {name : ResourceName}

theorem entries_of_compile (h : compile apps document locators = .ok c)
    (hdeclares : document.resources.Declares kind owner name) :
    kind.entries owner name locators = .ok (locators.entries kind owner name) :=
  (exists_compile_iff.1 ⟨c, h⟩).entries_eq hdeclares

/-- The full name that is held for an entry of a declaration is that of the greatest owner. -/
theorem exists_greatest_owner (h : compile apps document locators = .ok c)
    (hdeclares : document.resources.Declares kind owner name) {e : FullNameEntry}
    (he : e ∈ locators.entries kind owner name) :
    ∃ best, document.resources.Declares kind best name ∧
      (∀ other, document.resources.Declares kind other name → (compare other best).isLE) ∧
        ∃ e' ∈ locators.entries kind best name, e'.kind = e.kind ∧
          c.names.fullNames.get? e.kind e.name = some e'.fullName := by
  rw [names_of_compile h, Locators.name_of_mem_entries he]
  exact Names.exists_greatest_declaration hdeclares he

/-- A declaration keeps a full name exactly if its owner does not matter or is the greatest. -/
theorem get?_fullNames_eq_some_iff (h : compile apps document locators = .ok c)
    (hdeclares : document.resources.Declares kind owner name) {e : FullNameEntry}
    (he : e ∈ locators.entries kind owner name) :
    c.names.fullNames.get? e.kind e.name = some e.fullName ↔
      kind = .buckets ∨
        ∀ other, document.resources.Declares kind other name → (compare other owner).isLE := by
  obtain ⟨best, hbest, hgreatest, e', he', hkind, hget⟩ := exists_greatest_owner h hdeclares he
  rw [hget, Option.some_inj, Locators.fullName_eq_iff_of_mem_entries he he' hkind]
  refine or_congr_right ⟨?_, fun hle => ?_⟩
  · rintro rfl
    exact hgreatest
  · have heq : compare best owner = .eq :=
      OrientedCmp.isLE_antisymm (hle best hbest) (hgreatest owner hdeclares)
    exact LawfulEqCmp.eq_of_compare heq

/-- **Whose full names a run keeps.**  After a compilation that succeeds, every declaration has its
full names rendered, and for each the names hold what the greatest owner of that kind and short name
renders.  A declaration finds its own full names exactly if it is a bucket, or if no greater owner
declares the short name as well. -/
theorem compile_holds_greatest_owner (h : compile apps document locators = .ok c)
    (hdeclares : document.resources.Declares kind owner name) :
    ∃ entries, kind.entries owner name locators = .ok entries ∧ ∀ e ∈ entries,
      (∃ best found, document.resources.Declares kind best name ∧
        (∀ other, document.resources.Declares kind other name → (compare other best).isLE) ∧
          kind.entries best name locators = .ok found ∧
            ∃ e' ∈ found, e'.kind = e.kind ∧
              c.names.fullNames.get? e.kind e.name = some e'.fullName) ∧
      (c.names.fullNames.get? e.kind e.name = some e.fullName ↔
        kind = .buckets ∨
          ∀ other, document.resources.Declares kind other name → (compare other owner).isLE) := by
  refine ⟨_, entries_of_compile h hdeclares, fun e he => ?_⟩
  refine ⟨?_, get?_fullNames_eq_some_iff h hdeclares he⟩
  obtain ⟨best, hbest, hgreatest, hheld⟩ := exists_greatest_owner h hdeclares he
  exact ⟨best, _, hbest, hgreatest, entries_of_compile h hbest, hheld⟩

end Compiled

/-! ### A queue that two owners declare -/

namespace TwoOwners

/-- The queue, under both owners. -/
def resources : Resources :=
  .ofList [(.queues, .ofList [(⟨"own1"⟩, [⟨"events"⟩]), (⟨"own2"⟩, [⟨"events"⟩])])]

/-- Nothing else is declared, and nothing used. -/
def document : UsageDocument := ⟨resources, .empty, .empty⟩

theorem declares_own1 : resources.Declares .queues ⟨"own1"⟩ ⟨"events"⟩ :=
  ⟨_, _, rfl, rfl, List.mem_singleton_self _⟩

theorem declares_own2 : resources.Declares .queues ⟨"own2"⟩ ⟨"events"⟩ :=
  ⟨_, _, rfl, rfl, List.mem_singleton_self _⟩

theorem topic_mem_entries (owner : OwnerKey) (locators : Locators) :
    ⟨.queueTopics, ⟨"events"⟩, locators.queuePath owner .topics ⟨"events"⟩⟩ ∈
      locators.entries .queues owner ⟨"events"⟩ :=
  Locators.mem_entries.2 (.inr ⟨rfl, .topics, rfl⟩)

theorem not_greatest_own1 : ¬ ∀ other, resources.Declares .queues other ⟨"events"⟩ →
    (compare other (⟨"own1"⟩ : OwnerKey)).isLE := by
  intro hgreatest
  exact absurd (hgreatest _ declares_own2) (by decide)

/-- The first owner finds neither of its full names. -/
theorem own1_not_held : ∃ c entries, compile .empty document (.withUnit "x") = .ok c ∧
    Kind.entries .queues ⟨"own1"⟩ ⟨"events"⟩ (.withUnit "x") = .ok entries ∧
      ∀ e ∈ entries, c.names.fullNames.get? e.kind e.name ≠ some e.fullName := by
  have h : compile .empty document (.withUnit "x") = .ok _ := rfl
  obtain ⟨entries, hentries, hheld⟩ := compile_holds_greatest_owner h declares_own1
  refine ⟨_, entries, h, hentries, fun e he hget => ?_⟩
  rcases (hheld e he).2.1 hget with hbuckets | hgreatest
  · cases hbuckets
  · exact not_greatest_own1 hgreatest

/-- So a declaration may lose its full names without a word. -/
theorem not_every_declaration_held : ¬ ∀ (apps : Apps) (document : UsageDocument)
    (locators : Locators) (c : Compilation) (kind : Kind) (owner : OwnerKey) (name : ResourceName)
    (entries : List FullNameEntry), compile apps document locators = .ok c → c.diagnostics = [] →
      document.resources.Declares kind owner name →
        kind.entries owner name locators = .ok entries →
          ∀ e ∈ entries, c.names.fullNames.get? e.kind e.name = some e.fullName := by
  intro hall
  have h : compile .empty document (.withUnit "x") = .ok _ := rfl
  have hentries := entries_of_compile h declares_own1
  have he := topic_mem_entries ⟨"own1"⟩ (.withUnit "x")
  have hget := hall _ _ _ _ _ _ _ _ h rfl declares_own1 hentries _ he
  rcases (get?_fullNames_eq_some_iff h declares_own1 he).1 hget with hbuckets | hgreatest
  · cases hbuckets
  · exact not_greatest_own1 hgreatest

end TwoOwners

end GrantCompiler
