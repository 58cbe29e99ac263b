import GrantCompiler.Naming.Derivation
import GrantCompiler.Proofs.Naming.Substitution
import GrantCompiler.Proofs.OrderedMap

/-!
# The names of a run

Deriving names is three passes over two documents, each of which may stop for want of a unit.  Where
none stops, the result is a plain function of the documents and the locators, `Names.of`, and what
it holds is said here by look-ups.

* `Apps.get?_homes_eq_some_iff` — an application belongs to the greatest namespace that lists it.
* `Names.get?_clusterAccounts_of` and its companions — an application has its accounts, and its
  account a full name, exactly if it is declared.
* `Names.exists_greatest_declaration` — a declared short name has the full name that its greatest
  owner gives it.
-/

set_option autoImplicit false

namespace GrantCompiler

open Std (TransOrd LawfulEqOrd OrientedCmp TransCmp LawfulEqCmp)

/-! ## Applications and their namespaces -/

namespace Apps

/-- A namespace lists an application. -/
def Lists (apps : Apps) (space : NamespaceName) (app : AppName) : Prop :=
  ∃ names, apps.get? space = some names ∧ app ∈ names

/-- Some namespace lists an application. -/
def Declares (apps : Apps) (app : AppName) : Prop := ∃ space, Lists apps space app

variable {apps : Apps} {space : NamespaceName} {app : AppName}

theorem mem_listings : (space, app) ∈ listings apps ↔ Lists apps space app := by
  simp only [listings, List.mem_flatMap, List.mem_map, Prod.exists, Prod.mk.injEq, Lists,
    OrderedMap.mem_toList]
  refine ⟨?_, ?_⟩
  · rintro ⟨_, names, hnames, _, happ, rfl, rfl⟩
    exact ⟨names, hnames, happ⟩
  · rintro ⟨names, hnames, happ⟩
    exact ⟨space, names, hnames, app, happ, rfl, rfl⟩

theorem listings_ascending (apps : Apps) :
    (listings apps).Pairwise fun l l' => (compare l.1 l'.1).isLE := by
  rw [listings, List.pairwise_flatMap]
  refine ⟨fun e _ => ?_, apps.ascending.imp fun {e e'} hlt l hl l' hl' => ?_⟩
  · refine List.pairwise_map.2 (List.pairwise_of_forall fun _ _ => ?_)
    simp
  · obtain ⟨_, -, rfl⟩ := List.mem_map.1 hl
    obtain ⟨_, -, rfl⟩ := List.mem_map.1 hl'
    simp [hlt]

theorem homes_eq_ofList (apps : Apps) :
    homes apps = .ofList ((listings apps).map fun l => (l.2, l.1)) := by
  rw [homes, homesAfter, OrderedMap.ofList, OrderedMap.insertAll, List.foldl_map]

theorem exists_greatest_home (h : Lists apps space app) :
    ∃ best, (homes apps).get? app = some best ∧ Lists apps best app ∧
      ∀ other, Lists apps other app → (compare other best).isLE := by
  have hascending : (listings apps).Pairwise fun l l' => l.2 = l'.2 → (compare l.1 l'.1).isLE := by
    refine List.Pairwise.imp ?_ (listings_ascending apps)
    intro l l' hle _
    exact hle
  obtain ⟨⟨best, _⟩, hmem, rfl, hlast, hle⟩ :=
    OrderedMap.lastValue_greatest Prod.snd Prod.fst (fun l l' => (compare l.1 l'.1).isLE)
      (fun l => by simp) hascending ⟨(space, app), mem_listings.2 h, rfl⟩
  refine ⟨best, ?_, mem_listings.1 hmem, fun other hother => ?_⟩
  · rw [homes_eq_ofList, OrderedMap.get?_ofList, hlast]
  · exact hle (other, _) (mem_listings.2 hother) rfl

theorem lists_of_get?_homes (h : (homes apps).get? app = some space) : Lists apps space app := by
  rw [homes_eq_ofList, OrderedMap.get?_ofList] at h
  obtain ⟨⟨_, _⟩, hmem, heq⟩ := List.mem_map.1 (OrderedMap.mem_of_lastValue_eq_some h)
  cases heq
  exact mem_listings.1 hmem

/-- An application belongs to the greatest namespace that lists it. -/
theorem get?_homes_eq_some_iff :
    (homes apps).get? app = some space ↔
      Lists apps space app ∧ ∀ other, Lists apps other app → (compare other space).isLE := by
  refine ⟨fun h => ?_, ?_⟩
  · have hlisted := lists_of_get?_homes h
    obtain ⟨best, hbest, -, hle⟩ := exists_greatest_home hlisted
    rw [h] at hbest
    cases hbest
    exact ⟨hlisted, hle⟩
  · rintro ⟨hlisted, hle⟩
    obtain ⟨best, hbest, hbestListed, hbestLe⟩ := exists_greatest_home hlisted
    have heq : compare best space = .eq :=
      OrientedCmp.isLE_antisymm (hle best hbestListed) (hbestLe space hlisted)
    rw [hbest, LawfulEqCmp.eq_of_compare heq]

theorem declares_iff : Declares apps app ↔ ∃ space, (homes apps).get? app = some space := by
  refine ⟨?_, ?_⟩
  · rintro ⟨_, h⟩
    obtain ⟨best, hbest, -⟩ := exists_greatest_home h
    exact ⟨best, hbest⟩
  · rintro ⟨space, h⟩
    exact ⟨space, lists_of_get?_homes h⟩

end Apps

/-! ## Declared resources -/

namespace Resources

/-- An owner declares a short name under a kind. -/
def Declares (resources : Resources) (kind : Kind) (owner : OwnerKey) (name : ResourceName) :
    Prop :=
  ∃ owned names, resources.get? kind = some owned ∧ owned.get? owner = some names ∧ name ∈ names

variable {resources : Resources} {kind : Kind} {owner : OwnerKey} {name : ResourceName}

theorem mem_declarations :
    (kind, owner, name) ∈ declarations resources ↔ Declares resources kind owner name := by
  simp only [declarations, List.mem_flatMap, List.mem_map, Prod.exists, Prod.mk.injEq, Declares,
    OrderedMap.mem_toList]
  refine ⟨?_, ?_⟩
  · rintro ⟨_, owned, howned, _, names, hnames, _, hname, rfl, rfl, rfl⟩
    exact ⟨owned, names, howned, hnames, hname⟩
  · rintro ⟨owned, names, howned, hnames, hname⟩
    exact ⟨kind, owned, howned, owner, names, hnames, name, hname, rfl, rfl, rfl⟩

/-- Under one kind, the declarations come by ascending owner. -/
theorem declarations_ascending (resources : Resources) :
    (declarations resources).Pairwise fun d d' => d.1 = d'.1 → (compare d.2.1 d'.2.1).isLE := by
  rw [declarations, List.pairwise_flatMap]
  refine ⟨fun ⟨kind, owned⟩ _ => ?_, resources.ascending.imp fun {e e'} hlt d hd d' hd' hkind => ?_⟩
  · rw [List.pairwise_flatMap]
    refine ⟨fun e _ => ?_, owned.ascending.imp fun {e e'} hlt d hd d' hd' _ => ?_⟩
    · refine List.pairwise_map.2 (List.pairwise_of_forall fun _ _ => ?_)
      simp
    · obtain ⟨_, -, rfl⟩ := List.mem_map.1 hd
      obtain ⟨_, -, rfl⟩ := List.mem_map.1 hd'
      simp [hlt]
  · -- two entries of the document have different kinds
    simp only [List.mem_flatMap, List.mem_map] at hd hd'
    obtain ⟨_, -, _, -, rfl⟩ := hd
    obtain ⟨_, -, _, -, rfl⟩ := hd'
    simp only at hkind
    rw [hkind] at hlt
    simp at hlt

end Resources

/-! ## The register -/

namespace FullNames

variable {names : FullNames} {kind : Kind} {name : ResourceName}

@[simp] theorem get?_empty : (empty).get? kind name = none := rfl

theorem get?_insert (entry : FullNameEntry) :
    (names.insert entry).get? kind name =
      if kind = entry.kind ∧ name = entry.name then some entry.fullName
      else names.get? kind name := by
  rw [get?, get?, insert, OrderedMap.get?_update]
  by_cases hkind : kind = entry.kind
  · subst hkind
    cases hheld : names.kinds.get? entry.kind <;> simp [OrderedMap.get?_insert]
  · simp [hkind]

/-- An entry as a pair of what it is found under and what is found there. -/
def pairOf (entry : FullNameEntry) : (Kind × ResourceName) × FullName :=
  ((entry.kind, entry.name), entry.fullName)

theorem get?_insertAll (entries : List FullNameEntry) :
    (names.insertAll entries).get? kind name =
      (OrderedMap.lastValue (kind, name) (entries.map pairOf)).or (names.get? kind name) := by
  induction entries generalizing names with
  | nil => simp [insertAll, OrderedMap.lastValue]
  | cons entry rest ih =>
    have hstep : names.insertAll (entry :: rest) = (names.insert entry).insertAll rest := rfl
    rw [hstep, ih, get?_insert, List.map_cons, OrderedMap.lastValue, Option.or_assoc]
    by_cases h : kind = entry.kind ∧ name = entry.name
    · simp [pairOf, h]
    · have h' : ¬ (entry.kind = kind ∧ entry.name = name) := fun h' => h ⟨h'.1.symm, h'.2.symm⟩
      simp [pairOf, h, h']

end FullNames

/-! ## All names -/

/-- The full names of all declared resources, in the order of the document. -/
def Resources.entries (resources : Resources) (locators : Locators) : List FullNameEntry :=
  resources.declarations.flatMap fun d => locators.entries d.1 d.2.1 d.2.2

/-- Every full name of a declared resource together with the declaration it comes from. -/
def Resources.origins (resources : Resources) (locators : Locators) :
    List ((Kind × OwnerKey × ResourceName) × FullNameEntry) :=
  resources.declarations.flatMap fun d =>
    (locators.entries d.1 d.2.1 d.2.2).map fun e => (d, e)

/-- The cloud account of each application, for locators that have a unit. -/
def Apps.cloudAccounts (apps : Apps) (locators : Locators) : OrderedMap AppName Member :=
  .ofList (apps.homes.keys.map fun app => (app, locators.memberOf app.username))

theorem Apps.get?_cloudAccounts (apps : Apps) (locators : Locators) (app : AppName) :
    (apps.cloudAccounts locators).get? app =
      (apps.homes.get? app).map fun _ => locators.memberOf app.username := by
  rw [cloudAccounts, OrderedMap.get?_ofList,
    OrderedMap.lastValue_map_self fun app : AppName => locators.memberOf app.username]
  cases hhome : apps.homes.get? app with
  | none => simp [OrderedMap.mem_keys, hhome]
  | some space => simp [OrderedMap.mem_keys, hhome]

/-- The cloud accounts as resources, each under its application's name. -/
def Locators.accountEntries (locators : Locators) (accounts : OrderedMap AppName Member) :
    List FullNameEntry :=
  accounts.toList.map fun a => ⟨.serviceAccounts, a.1.asResource, locators.accountPath a.2⟩

/-- The names of a run none of whose passes stops. -/
def Names.of (apps : Apps) (resources : Resources) (locators : Locators) : Names where
  clusterAccounts := GrantCompiler.clusterAccounts apps.homes
  cloudAccounts := apps.cloudAccounts locators
  fullNames := (FullNames.empty.insertAll (resources.entries locators)).insertAll
    (locators.accountEntries (apps.cloudAccounts locators))

namespace Resources

variable {resources : Resources} {locators : Locators} {kind : Kind} {owner : OwnerKey}
  {name : ResourceName}

theorem origins_map_snd (resources : Resources) (locators : Locators) :
    (resources.origins locators).map Prod.snd = resources.entries locators := by
  simp only [origins, entries, List.map_flatMap, List.map_map, Function.comp_def, List.map_id']

theorem mem_origins {e : FullNameEntry} :
    ((kind, owner, name), e) ∈ resources.origins locators ↔
      resources.Declares kind owner name ∧ e ∈ locators.entries kind owner name := by
  simp only [origins, List.mem_flatMap, List.mem_map, Prod.mk.injEq, ← mem_declarations]
  refine ⟨?_, ?_⟩
  · rintro ⟨_, hd, _, he, rfl, rfl⟩
    exact ⟨hd, he⟩
  · rintro ⟨hd, he⟩
    exact ⟨_, hd, e, he, rfl, rfl⟩

/-- The entries of one kind and short name come by ascending owner. -/
theorem origins_ascending (resources : Resources) (locators : Locators) :
    (resources.origins locators).Pairwise fun t t' =>
      (t.2.kind, t.2.name) = (t'.2.kind, t'.2.name) → (compare t.1.2.1 t'.1.2.1).isLE := by
  refine List.pairwise_flatMap.2 ⟨fun d _ => ?_, ?_⟩
  · refine List.pairwise_map.2 (List.pairwise_of_forall fun _ _ => ?_)
    simp
  · refine List.Pairwise.imp ?_ resources.declarations_ascending
    intro d d' hle t ht t' ht' hkey
    obtain ⟨e, he, rfl⟩ := List.mem_map.1 ht
    obtain ⟨e', he', rfl⟩ := List.mem_map.1 ht'
    exact hle (Locators.kind_eq_of_mem_entries he he' (congrArg Prod.fst hkey))

end Resources

/-! ## Looking names up -/

namespace Names

variable {apps : Apps} {resources : Resources} {locators : Locators} {app : AppName} {kind : Kind}
  {owner : OwnerKey} {name : ResourceName}

theorem get?_clusterAccounts_of :
    (of apps resources locators).clusterAccounts.get? app =
      (apps.homes.get? app).map app.clusterAccount := by
  rw [of, GrantCompiler.clusterAccounts]
  exact OrderedMap.get?_ofList_map apps.homes (fun app space => app.clusterAccount space) app

theorem get?_cloudAccounts_of :
    (of apps resources locators).cloudAccounts.get? app =
      (apps.homes.get? app).map fun _ => locators.memberOf app.username :=
  apps.get?_cloudAccounts locators app

/-- No declaration reaches the full names of accounts. -/
theorem lastValue_entries_serviceAccounts :
    OrderedMap.lastValue (.serviceAccounts, name)
      ((resources.entries locators).map FullNames.pairOf) = none := by
  refine OrderedMap.lastValue_eq_none_iff.2 fun p hp hkey => ?_
  obtain ⟨e, he, rfl⟩ := List.mem_map.1 hp
  obtain ⟨d, -, he⟩ := List.mem_flatMap.1 he
  exact Locators.kind_ne_serviceAccounts_of_mem_entries he (congrArg Prod.fst hkey)

theorem get?_fullNames_of_serviceAccounts :
    (of apps resources locators).fullNames.get? .serviceAccounts app.asResource =
      (apps.homes.get? app).map fun _ => locators.accountPath (locators.memberOf app.username) := by
  have hinj : ∀ a b : AppName,
      (Kind.serviceAccounts, a.asResource) = (.serviceAccounts, b.asResource) → a = b := by
    rintro ⟨a⟩ ⟨b⟩ h
    simpa [AppName.asResource] using h
  rw [of, FullNames.get?_insertAll, FullNames.get?_insertAll, lastValue_entries_serviceAccounts,
    FullNames.get?_empty, Option.or_none, Option.or_none, Locators.accountEntries, List.map_map]
  have hlast := OrderedMap.lastValue_toList_map (apps.cloudAccounts locators) hinj
    (fun _ account => locators.accountPath account) app
  rw [Apps.get?_cloudAccounts, Option.map_map] at hlast
  exact hlast

/-- Outside the accounts, only declarations count. -/
theorem get?_fullNames_of (h : kind ≠ .serviceAccounts) :
    (of apps resources locators).fullNames.get? kind name =
      OrderedMap.lastValue (kind, name) ((resources.entries locators).map FullNames.pairOf) := by
  have hnone : OrderedMap.lastValue (kind, name)
      ((locators.accountEntries (apps.cloudAccounts locators)).map FullNames.pairOf) = none := by
    refine OrderedMap.lastValue_eq_none_iff.2 fun p hp hkey => ?_
    obtain ⟨e, he, rfl⟩ := List.mem_map.1 hp
    obtain ⟨a, -, rfl⟩ := List.mem_map.1 he
    exact h (congrArg Prod.fst hkey).symm
  rw [of, FullNames.get?_insertAll, FullNames.get?_insertAll, hnone, FullNames.get?_empty,
    Option.none_or, Option.or_none]

/-- **The greatest owner names a declared resource.**  Of all owners that declare a short name under
one kind, the greatest gives every entry of it its full name. -/
theorem exists_greatest_declaration {e : FullNameEntry} (h : resources.Declares kind owner name)
    (he : e ∈ locators.entries kind owner name) :
    ∃ best, resources.Declares kind best name ∧
      (∀ other, resources.Declares kind other name → (compare other best).isLE) ∧
        ∃ e' ∈ locators.entries kind best name, e'.kind = e.kind ∧
          (of apps resources locators).fullNames.get? e.kind name = some e'.fullName := by
  have hname : e.name = name := Locators.name_of_mem_entries he
  obtain ⟨⟨⟨kind', best, name'⟩, e'⟩, hbest, hkey, hlast, hle⟩ :=
    OrderedMap.lastValue_greatest (fun t => (t.2.kind, t.2.name)) (fun t => t.2.fullName)
      (fun t t' => (compare t.1.2.1 t'.1.2.1).isLE) (fun t => by simp)
      (resources.origins_ascending locators)
      ⟨((kind, owner, name), e), Resources.mem_origins.2 ⟨h, he⟩, rfl⟩
  obtain ⟨hbestDeclared, he'⟩ := Resources.mem_origins.1 hbest
  obtain ⟨hkind', hname'⟩ := Prod.mk.inj hkey
  have hkind : kind' = kind := Locators.kind_eq_of_mem_entries he' he hkind'
  have hname'' : name' = name := (Locators.name_of_mem_entries he').symm.trans (hname'.trans hname)
  subst hkind hname''
  refine ⟨best, hbestDeclared, fun other hother => ?_, e', he', hkind', ?_⟩
  · obtain ⟨e'', he'', hkind''⟩ := Locators.exists_mem_entries other he
    exact hle ((kind', other, name'), e'') (Resources.mem_origins.2 ⟨hother, he''⟩)
      (Prod.ext hkind'' ((Locators.name_of_mem_entries he'').trans hname.symm))
  · rw [get?_fullNames_of (Locators.kind_ne_serviceAccounts_of_mem_entries he),
      ← resources.origins_map_snd, List.map_map, ← hname]
    exact hlast

end Names

end GrantCompiler
