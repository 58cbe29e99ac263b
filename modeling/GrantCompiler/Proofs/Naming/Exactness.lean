import GrantCompiler.Proofs.Aggregation.Grants
import GrantCompiler.Proofs.Naming.Outcome
import GrantCompiler.Proofs.Naming.Register
import Mathlib.Data.Finset.Card

/-!
# What the names of a run are, exactly

`Names.Exact` spells out the names of a run from its documents and nothing else: which keys each of
the three maps has, what is found under each, and how many full names there are.  That a run which
succeeds has exact names (`deriveNames_exact`) rests on two observations.

* A pair of a kind and a short name is held exactly if the documents declare it
  (`Names.exists_get?_fullNames_of_iff`, with `Declared` as the right-hand side).  Counting the
  register is then counting declared pairs, each once.
* What is held for a declared resource is what its greatest owner renders
  (`Names.get?_fullNames_of_eq_some_iff`), and a bucket renders the same for every owner.
-/

set_option autoImplicit false

namespace GrantCompiler

open Std (OrientedCmp LawfulEqCmp)

/-! ## The greatest -/

/-- The greatest of the namespaces that list an application. -/
def Apps.GreatestHome (apps : Apps) (app : AppName) (space : NamespaceName) : Prop :=
  apps.Lists space app ∧ ∀ other, apps.Lists other app → (compare other space).isLE

/-- The greatest of the owners that declare a short name under a kind. -/
def Resources.GreatestOwner (resources : Resources) (kind : Kind) (name : ResourceName)
    (owner : OwnerKey) : Prop :=
  resources.Declares kind owner name ∧
    ∀ other, resources.Declares kind other name → (compare other owner).isLE

theorem Resources.GreatestOwner.unique {resources : Resources} {kind : Kind} {name : ResourceName}
    {owner owner' : OwnerKey} (h : resources.GreatestOwner kind name owner)
    (h' : resources.GreatestOwner kind name owner') : owner = owner' := by
  have heq : compare owner owner' = .eq :=
    OrientedCmp.isLE_antisymm (h'.2 owner h.1) (h.2 owner' h'.1)
  exact LawfulEqCmp.eq_of_compare heq

theorem Resources.exists_greatestOwner {resources : Resources} {kind : Kind} {name : ResourceName}
    {owner : OwnerKey} (h : resources.Declares kind owner name) :
    ∃ best, resources.GreatestOwner kind name best := by
  have hascending : resources.declarations.Pairwise fun d d' =>
      (d.1, d.2.2) = (d'.1, d'.2.2) → (compare d.2.1 d'.2.1).isLE := by
    refine List.Pairwise.imp ?_ resources.declarations_ascending
    intro d d' hle hkey
    exact hle (Prod.mk.inj hkey).1
  obtain ⟨⟨kind', best, name'⟩, hbest, hkey, -, hle⟩ :=
    OrderedMap.lastValue_greatest (fun d => (d.1, d.2.2)) (fun d => d.2.1)
      (fun d d' => (compare d.2.1 d'.2.1).isLE) (fun d => by simp) hascending
      ⟨(kind, owner, name), Resources.mem_declarations.2 h, rfl⟩
  cases hkey
  refine ⟨best, Resources.mem_declarations.1 hbest, fun other hother => ?_⟩
  exact hle (kind, other, name) (Resources.mem_declarations.2 hother) rfl

/-! ## What is held, and what is found there -/

/-- The documents declare a short name under an addressable kind: as a bucket, as one half of a
queue, or as the account of an application. -/
def Declared (apps : Apps) (resources : Resources) (name : ResourceName) : Kind → Prop
  | .buckets => ∃ owner, resources.Declares .buckets owner name
  | .queueTopics | .queueSubscriptions => ∃ owner, resources.Declares .queues owner name
  | .serviceAccounts => ∃ app, apps.Declares app ∧ name = app.asResource
  | .queues | .other .. => False

namespace Names

variable {apps : Apps} {resources : Resources} {locators : Locators} {kind : Kind}
  {name : ResourceName} {path : FullName}

/-- The full name held outside the accounts is the one that the greatest owner renders. -/
theorem get?_fullNames_of_eq_some_iff (h : kind ≠ .serviceAccounts) :
    (of apps resources locators).fullNames.get? kind name = some path ↔
      ∃ declared owner, resources.GreatestOwner declared name owner ∧
        ⟨kind, name, path⟩ ∈ locators.entries declared owner name := by
  refine ⟨fun hget => ?_, ?_⟩
  · have hlast := hget
    rw [get?_fullNames_of h] at hlast
    obtain ⟨e, he, hpair⟩ := List.mem_map.1 (OrderedMap.mem_of_lastValue_eq_some hlast)
    obtain ⟨⟨declared, owner, name'⟩, hdeclared, he⟩ := List.mem_flatMap.1 he
    cases hpair
    have hname : name' = e.name := (Locators.name_of_mem_entries he).symm
    subst hname
    obtain ⟨best, hbest, hle, e', he', hkind, hheld⟩ :=
      @exists_greatest_declaration apps _ _ _ _ _ _ (Resources.mem_declarations.1 hdeclared) he
    have hpath : e'.fullName = e.fullName := Option.some_inj.1 (hheld.symm.trans hget)
    have hentry : e' = ⟨e.kind, e.name, e.fullName⟩ := by
      rw [← hkind, ← hpath, ← Locators.name_of_mem_entries he']
    exact ⟨declared, best, ⟨hbest, hle⟩, hentry ▸ he'⟩
  · rintro ⟨declared, owner, howner, he⟩
    obtain ⟨best, hbest, hle, e', he', hkind, hheld⟩ :=
      @exists_greatest_declaration apps _ _ _ _ _ _ howner.1 he
    cases Resources.GreatestOwner.unique ⟨hbest, hle⟩ howner
    rw [hheld, Locators.eq_of_mem_entries he' he hkind]

/-- The full name held for an account is that of an application's own. -/
theorem get?_fullNames_of_serviceAccounts_eq_some_iff :
    (of apps resources locators).fullNames.get? .serviceAccounts name = some path ↔
      ∃ app, apps.Declares app ∧ name = app.asResource ∧
        path = locators.accountPath (locators.memberOf app.username) := by
  have hname : name = AppName.asResource ⟨name.text⟩ := rfl
  rw [hname, get?_fullNames_of_serviceAccounts, Option.map_eq_some_iff, ← hname]
  refine ⟨?_, ?_⟩
  · rintro ⟨space, hhome, rfl⟩
    exact ⟨_, Apps.declares_iff.2 ⟨space, hhome⟩, hname, rfl⟩
  · rintro ⟨⟨text⟩, happ, rfl, rfl⟩
    obtain ⟨space, hhome⟩ := Apps.declares_iff.1 happ
    exact ⟨space, hhome, rfl⟩

/-- A bucket has the full name that its short name renders, whoever declares it. -/
theorem get?_fullNames_of_buckets_eq_some_iff :
    (of apps resources locators).fullNames.get? .buckets name = some path ↔
      (∃ owner, resources.Declares .buckets owner name) ∧ path = locators.bucketPath name := by
  rw [get?_fullNames_of_eq_some_iff (by simp)]
  refine ⟨?_, ?_⟩
  · rintro ⟨declared, owner, howner, he⟩
    rcases Locators.mem_entries.1 he with ⟨rfl, heq⟩ | ⟨-, half, heq⟩
    · cases heq
      exact ⟨⟨owner, howner.1⟩, rfl⟩
    · cases half <;> cases heq
  · rintro ⟨⟨owner, hdeclares⟩, rfl⟩
    obtain ⟨best, hbest⟩ := Resources.exists_greatestOwner hdeclares
    exact ⟨.buckets, best, hbest, Locators.mem_entries.2 (.inl ⟨rfl, rfl⟩)⟩

/-- Both halves of a queue have the full name that its greatest owner renders. -/
theorem get?_fullNames_of_queue_eq_some_iff {half : Template.Collection} :
    (of apps resources locators).fullNames.get? half.kind name = some path ↔
      ∃ owner, resources.GreatestOwner .queues name owner ∧
        path = locators.queuePath owner half name := by
  have hkind : half.kind ≠ .serviceAccounts := by cases half <;> simp [Template.Collection.kind]
  rw [get?_fullNames_of_eq_some_iff hkind]
  refine ⟨?_, ?_⟩
  · rintro ⟨declared, owner, howner, he⟩
    rcases Locators.mem_entries.1 he with ⟨-, heq⟩ | ⟨rfl, half', heq⟩
    · cases half <;> cases heq
    · obtain ⟨hhalf, -, rfl⟩ := FullNameEntry.mk.inj heq
      cases Template.Collection.kind_inj hhalf
      exact ⟨owner, howner, rfl⟩
  · rintro ⟨owner, howner, rfl⟩
    exact ⟨.queues, owner, howner, Locators.queue_mem_entries half⟩

theorem exists_get?_fullNames_of_queue_iff (half : Template.Collection) :
    (∃ path, (of apps resources locators).fullNames.get? half.kind name = some path) ↔
      ∃ owner, resources.Declares .queues owner name := by
  simp only [get?_fullNames_of_queue_eq_some_iff]
  refine ⟨?_, ?_⟩
  · rintro ⟨_, owner, howner, -⟩
    exact ⟨owner, howner.1⟩
  · rintro ⟨owner, hdeclares⟩
    obtain ⟨best, hbest⟩ := Resources.exists_greatestOwner hdeclares
    exact ⟨_, best, hbest, rfl⟩

theorem get?_fullNames_of_eq_none (hbuckets : kind ≠ .buckets)
    (hqueue : ∀ half : Template.Collection, kind ≠ half.kind)
    (haccounts : kind ≠ .serviceAccounts) :
    (of apps resources locators).fullNames.get? kind name = none := by
  refine Option.eq_none_iff_forall_ne_some.2 fun path hpath => ?_
  obtain ⟨declared, owner, -, he⟩ := (get?_fullNames_of_eq_some_iff haccounts).1 hpath
  rcases Locators.mem_entries.1 he with ⟨-, heq⟩ | ⟨-, half, heq⟩
  · exact hbuckets (congrArg FullNameEntry.kind heq)
  · exact hqueue half (congrArg FullNameEntry.kind heq)

/-- The declared applications are the ones with an account. -/
theorem exists_get?_cloudAccounts_of_iff {app : AppName} :
    (∃ member, (of apps resources locators).cloudAccounts.get? app = some member) ↔
      apps.Declares app := by
  simp [get?_cloudAccounts_of, Apps.declares_iff]

/-- **The register holds what the documents declare.** -/
theorem exists_get?_fullNames_of_iff (kind : Kind) :
    (∃ path, (of apps resources locators).fullNames.get? kind name = some path) ↔
      Declared apps resources name kind := by
  cases kind with
  | buckets => simp [get?_fullNames_of_buckets_eq_some_iff, Declared]
  | queueTopics => exact exists_get?_fullNames_of_queue_iff .topics
  | queueSubscriptions => exact exists_get?_fullNames_of_queue_iff .subscriptions
  | serviceAccounts => simp [get?_fullNames_of_serviceAccounts_eq_some_iff, Declared]
  | queues =>
    rw [get?_fullNames_of_eq_none (by simp) (by rintro (_ | _) <;> simp [Template.Collection.kind])
      (by simp)]
    simp [Declared]
  | other =>
    rw [get?_fullNames_of_eq_none (by simp) (by rintro (_ | _) <;> simp [Template.Collection.kind])
      (by simp)]
    simp [Declared]

end Names

/-! ## Counting -/

/-- The short names that are declared under a kind, each once. -/
def Resources.shortNames (resources : Resources) (kind : Kind) : Finset ResourceName :=
  ((resources.declarations.filter fun d => d.1 = kind).map fun d => d.2.2).toFinset

/-- The declared applications, each once. -/
def Apps.declared (apps : Apps) : Finset AppName := (apps.listings.map Prod.snd).toFinset

theorem Resources.mem_shortNames {resources : Resources} {kind : Kind} {name : ResourceName} :
    name ∈ resources.shortNames kind ↔ ∃ owner, resources.Declares kind owner name := by
  simp [shortNames, ← mem_declarations]

theorem Apps.mem_declared {apps : Apps} {app : AppName} :
    app ∈ apps.declared ↔ apps.Declares app := by
  simp [declared, Declares, ← mem_listings]

theorem AppName.asResource_inj {app other : AppName} (h : app.asResource = other.asResource) :
    app = other := by
  cases app; cases other; cases h; rfl

/-- Short names under one kind, as pairs of the register. -/
def Kind.places {α : Type} (kind : Kind) (f : α → ResourceName) (s : Finset α) :
    Finset (Kind × ResourceName) :=
  s.image fun a => (kind, f a)

/-- The pairs that the documents declare. -/
def places (apps : Apps) (resources : Resources) : Finset (Kind × ResourceName) :=
  Kind.buckets.places id (resources.shortNames .buckets) ∪
    (Kind.queueTopics.places id (resources.shortNames .queues) ∪
      (Kind.queueSubscriptions.places id (resources.shortNames .queues) ∪
        Kind.serviceAccounts.places AppName.asResource apps.declared))

section Places

variable {α β : Type} {kind kind' : Kind} {name : ResourceName} {f : α → ResourceName}
  {g : β → ResourceName} {s : Finset α} {t : Finset β} {apps : Apps} {resources : Resources}

theorem Kind.mem_places : (kind, name) ∈ kind'.places f s ↔ kind = kind' ∧ ∃ a ∈ s, f a = name := by
  simp only [places, Finset.mem_image, Prod.mk.injEq]
  refine ⟨?_, ?_⟩
  · rintro ⟨a, ha, rfl, rfl⟩
    exact ⟨rfl, a, ha, rfl⟩
  · rintro ⟨rfl, a, ha, rfl⟩
    exact ⟨a, ha, rfl, rfl⟩

theorem Kind.card_places (hf : ∀ a b, f a = f b → a = b) : (kind.places f s).card = s.card :=
  Finset.card_image_of_injective s fun a b h => hf a b (Prod.mk.inj h).2

theorem Kind.disjoint_places (h : kind ≠ kind') :
    Disjoint (kind.places f s) (kind'.places g t) := by
  refine Finset.disjoint_left.2 fun ⟨k, name⟩ hk hk' => h ?_
  rw [← (mem_places.1 hk).1, (mem_places.1 hk').1]

theorem mem_places {kind : Kind} :
    (kind, name) ∈ places apps resources ↔ Declared apps resources name kind := by
  simp only [places, Finset.mem_union, Kind.mem_places, Resources.mem_shortNames,
    Apps.mem_declared]
  cases kind <;> simp [Declared, eq_comm]

/-- Every queue counts twice, for its two halves. -/
theorem card_places (apps : Apps) (resources : Resources) :
    (places apps resources).card = (resources.shortNames .buckets).card +
      2 * (resources.shortNames .queues).card + apps.declared.card := by
  have hid : ∀ a b : ResourceName, id a = id b → a = b := fun _ _ h => h
  have happ : ∀ a b : AppName, a.asResource = b.asResource → a = b := fun _ _ =>
    AppName.asResource_inj
  -- pairs of different kinds are different, one kind after the other
  rw [places, Finset.card_union_of_disjoint, Kind.card_places hid, Finset.card_union_of_disjoint,
    Kind.card_places hid, Finset.card_union_of_disjoint, Kind.card_places hid,
    Kind.card_places happ]
  · omega
  · exact Kind.disjoint_places (by simp)
  · refine Finset.disjoint_union_right.2 ⟨?_, ?_⟩ <;> exact Kind.disjoint_places (by simp)
  · refine Finset.disjoint_union_right.2 ⟨?_, Finset.disjoint_union_right.2 ⟨?_, ?_⟩⟩ <;>
      exact Kind.disjoint_places (by simp)

end Places

theorem Names.size_fullNames_of (apps : Apps) (resources : Resources) (locators : Locators) :
    (of apps resources locators).fullNames.size = (resources.shortNames .buckets).card +
      2 * (resources.shortNames .queues).card + apps.declared.card := by
  rw [← card_places]
  exact FullNames.size_eq_card fun kind name =>
    mem_places.trans (exists_get?_fullNames_of_iff kind).symm

/-! ## The names of a run -/

/-- The names of a run, spelled out from its documents. -/
structure Names.Exact (names : Names) (apps : Apps) (resources : Resources)
    (locators : Locators) : Prop where
  /-- A declared application has an account in the cluster, in the greatest namespace that lists it,
  and an account in the cloud that is a resource as well.  All three are had under its username. -/
  account_of_declares : ∀ app, apps.Declares app → ∃ space project, apps.GreatestHome app space ∧
    (∀ template, Template.SharedProject.resolve locators template = .ok project) ∧
      names.Identifies app ⟨Template.member app.username project⟩
        ⟨space.text ++ "/" ++ app.username⟩
        ⟨Template.accountFullName (Template.member app.username project) project⟩
  mem_clusterAccounts_iff : ∀ app, app ∈ names.clusterAccounts.keys ↔ apps.Declares app
  mem_cloudAccounts_iff : ∀ app, app ∈ names.cloudAccounts.keys ↔ apps.Declares app
  exists_account_iff : ∀ name, (∃ path, names.fullNames.get? .serviceAccounts name = some path) ↔
    ∃ app, apps.Declares app ∧ name = app.asResource
  /-- A bucket is held exactly if some owner declares it, and the owner does not matter. -/
  bucket_iff : ∃ site, Template.BucketSite.resolve locators = .ok site ∧ ∀ name path,
    names.fullNames.get? .buckets name = some path ↔
      (∃ owner, resources.Declares .buckets owner name) ∧
        path = ⟨Template.bucketFullName (Template.bucket name.text site)⟩
  /-- Each half of a queue is held exactly if some owner declares the queue. -/
  exists_queue_iff : ∀ (half : Template.Collection) name,
    (∃ path, names.fullNames.get? half.kind name = some path) ↔
      ∃ owner, resources.Declares .queues owner name
  /-- Both halves live in the project that the greatest owner names. -/
  queue_eq : ∀ (half : Template.Collection) name path,
    names.fullNames.get? half.kind name = some path → ∃ owner project site,
      resources.GreatestOwner .queues name owner ∧
        Template.ProjectSite.resolve locators = .ok project ∧
        Template.QueueSite.resolve locators = .ok site ∧
          path = ⟨Template.queueFullName (Template.project owner.text project) half
            (Template.queue name.text site)⟩
  other_eq_none : ∀ kind name, kind ≠ .buckets → (∀ half : Template.Collection, kind ≠ half.kind) →
    kind ≠ .serviceAccounts → names.fullNames.get? kind name = none
  size_eq : names.fullNames.size = (resources.shortNames .buckets).card +
    2 * (resources.shortNames .queues).card + apps.declared.card

section Runs

variable {apps : Apps} {resources : Resources} {locators : Locators} {names : Names}

/-- **Exact name derivation.**  The names of a run that succeeds are the ones its documents spell
out, and no others. -/
theorem deriveNames_exact (h : (deriveNames apps resources locators).outcome = .ok names) :
    names.Exact apps resources locators := by
  cases deriveNames_eq_ok h
  exact {
    account_of_declares := fun app happ => by
      obtain ⟨space, hhome⟩ := Apps.declares_iff.1 happ
      refine ⟨space, locators.sharedProject, Apps.get?_homes_eq_some_iff.1 hhome,
        fun template => ?_, ?_, ?_, ?_⟩
      · rw [Template.SharedProject.resolve_eq, if_pos (hasUnit_of_declares_app h happ)]
      · rw [Names.get?_cloudAccounts_of, hhome]
        rfl
      · rw [Names.get?_clusterAccounts_of, hhome]
        rfl
      · rw [Names.get?_fullNames_of_serviceAccounts, hhome]
        rfl
    mem_clusterAccounts_iff := fun app => by
      simp [OrderedMap.mem_keys, Names.get?_clusterAccounts_of, Apps.declares_iff]
    mem_cloudAccounts_iff := fun app =>
      OrderedMap.mem_keys.trans Names.exists_get?_cloudAccounts_of_iff
    exists_account_iff := fun name => Names.exists_get?_fullNames_of_iff .serviceAccounts
    bucket_iff := ⟨locators.bucketSite, Template.BucketSite.resolve_eq, fun name path =>
      Names.get?_fullNames_of_buckets_eq_some_iff⟩
    exists_queue_iff := fun half name => Names.exists_get?_fullNames_of_queue_iff half
    queue_eq := fun half name path hpath => by
      obtain ⟨owner, howner, rfl⟩ := Names.get?_fullNames_of_queue_eq_some_iff.1 hpath
      refine ⟨owner, locators.projectSite, locators.queueSite, howner, ?_,
        Template.QueueSite.resolve_eq, rfl⟩
      rw [Template.ProjectSite.resolve_eq, if_pos (hasUnit_of_declares_queue h howner.1)]
    other_eq_none := fun kind name => Names.get?_fullNames_of_eq_none
    size_eq := Names.size_fullNames_of apps resources locators }

end Runs

/-! ### Everything declared more than once -/

namespace Repeated

/-- An application that is listed three times. -/
def apps : Apps := .ofList [(⟨"ns1"⟩, [⟨"a"⟩, ⟨"a"⟩]), (⟨"ns2"⟩, [⟨"a"⟩])]

/-- A short name that two owners declare, one of them twice. -/
def owned (name : String) : OrderedMap OwnerKey (List ResourceName) :=
  .ofList [(⟨"own1"⟩, [⟨name⟩, ⟨name⟩]), (⟨"own2"⟩, [⟨name⟩])]

/-- Two kinds that can be declared, and one that cannot. -/
def resources : Resources :=
  .ofList [(.buckets, owned "b"), (.queues, owned "e"), (.ofText "tables", owned "t")]

/-- One bucket, the two halves of one queue and one account, each in its greatest place. -/
theorem four_full_names : ∃ names,
    (deriveNames apps resources (.withUnit "x")).outcome = .ok names ∧
      names.fullNames.size = 4 ∧ names.clusterAccounts.get? ⟨"a"⟩ = some ⟨"ns2/a-sa"⟩ ∧
        names.fullNames.get? .queueTopics ⟨"e"⟩ =
          some ⟨"projects/own2-dev-x/topics/e.dev.usce1gcp"⟩ := by
  have h : (deriveNames apps resources (.withUnit "x")).outcome = .ok _ := rfl
  have hexact := deriveNames_exact h
  exact ⟨_, h, hexact.size_eq.trans (by decide), by decide, by decide⟩

end Repeated

end GrantCompiler
