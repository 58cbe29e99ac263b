import GrantCompiler.Proofs.Naming.Rearrangement

/-!
# The names when an application is added

A new application enters every pass of naming, and in most of them in the middle of a walk: its
listing stands among those of its namespace, and its username is checked among all others.  It
leaves no trace there but its own.  No listing is about it but the one, so its home is entered at
any time (`homesAfter_insert`) and takes no part in what the others report (`conflicts_insert`).

Two names of applications may come to one account, so it matters that accounts and full names are
found by the name of the application, and not by the account: the new one gets its own entries even
where they say the same as another's (`Apps.Gains.agreesBut`).
-/

set_option autoImplicit false

namespace GrantCompiler

/-- The second document lists an application once more, in a namespace that the first need not
have. -/
def Apps.Gains (apps : Apps) (space : NamespaceName) (app : AppName) (apps' : Apps) : Prop :=
  ∃ before after, (apps.get? space).getD [] = before ++ after ∧
    apps' = apps.insert space (before ++ app :: after)

/-- Two runs have the same names, those of one application aside. -/
structure Names.AgreesBut (names names' : Names) (app : AppName) : Prop where
  get?_clusterAccounts : ∀ other, other ≠ app →
    names'.clusterAccounts.get? other = names.clusterAccounts.get? other
  get?_cloudAccounts : ∀ other, other ≠ app →
    names'.cloudAccounts.get? other = names.cloudAccounts.get? other
  get?_fullNames : ∀ kind name, (kind = .serviceAccounts → name ≠ app.asResource) →
    names'.fullNames.get? kind name = names.fullNames.get? kind name

/-! ## Listings of others -/

section Listings

variable {homes : Homes} {space : NamespaceName} {app : AppName}
  {listings : List (NamespaceName × AppName)}

/-- A home is entered before or after the listings of others. -/
theorem homesAfter_insert (h : ∀ l ∈ listings, l.2 ≠ app) :
    homesAfter (homes.insert app space) listings = (homesAfter homes listings).insert app space := by
  induction listings generalizing homes with
  | nil => rfl
  | cons l rest ih =>
    obtain ⟨hhead, hrest⟩ := List.forall_mem_cons.1 h
    show homesAfter ((homes.insert app space).insert l.2 l.1) rest =
      (homesAfter (homes.insert l.2 l.1) rest).insert app space
    rw [homes.insert_comm hhead.symm, ih hrest]

/-- Where an application has its home does not show in the conflicts about others. -/
theorem conflicts_insert (h : ∀ l ∈ listings, l.2 ≠ app) :
    conflicts (homes.insert app space) listings = conflicts homes listings := by
  induction listings generalizing homes with
  | nil => rfl
  | cons l rest ih =>
    obtain ⟨other, name⟩ := l
    obtain ⟨hhead, hrest⟩ := List.forall_mem_cons.1 h
    rw [conflicts_cons, conflicts_cons, takeover_insert hhead, homes.insert_comm (Ne.symm hhead),
      ih hrest]

theorem get?_homesAfter_of_forall_ne (h : ∀ l ∈ listings, l.2 ≠ app) :
    (homesAfter homes listings).get? app = homes.get? app := by
  induction listings generalizing homes with
  | nil => rfl
  | cons l rest ih =>
    obtain ⟨hhead, hrest⟩ := List.forall_mem_cons.1 h
    show (homesAfter (homes.insert l.2 l.1) rest).get? app = homes.get? app
    rw [ih hrest, OrderedMap.get?_insert, if_neg hhead.symm]

theorem homesAfter_append (homes : Homes) (l l' : List (NamespaceName × AppName)) :
    homesAfter homes (l ++ l') = homesAfter (homesAfter homes l) l' :=
  List.foldl_append

end Listings

/-! ## One listing more -/

namespace Apps

variable {apps apps' : Apps} {space : NamespaceName} {app : AppName}

/-- One listing comes in, and the others stay as they are. -/
theorem Gains.exists_listings (h : apps.Gains space app apps') : ∃ earlier later,
    apps.listings = earlier ++ later ∧ apps'.listings = earlier ++ (space, app) :: later := by
  obtain ⟨before, after, hnames, rfl⟩ := h
  obtain ⟨l, r, hentries, hinserted⟩ := apps.exists_toList_insert space (before ++ app :: after)
  let spread := fun e : NamespaceName × List AppName => e.2.map fun a => (e.1, a)
  have hheld : ((apps.get? space).map fun names => (space, names)).toList.flatMap spread =
      (before ++ after).map fun a => (space, a) := by
    rw [← hnames]
    cases apps.get? space with
    | none => rfl
    | some names => exact List.append_nil _
  refine ⟨l.flatMap spread ++ before.map fun a => (space, a),
    (after.map fun a => (space, a)) ++ r.flatMap spread, ?_, ?_⟩
  · show apps.toList.flatMap spread = _
    rw [hentries, List.flatMap_append, List.flatMap_append, hheld]
    simp only [List.map_append, List.append_assoc]
  · show (apps.insert space (before ++ app :: after)).toList.flatMap spread = _
    rw [hinserted, List.flatMap_append, List.flatMap_cons]
    simp only [spread, List.map_append, List.map_cons, List.append_assoc, List.cons_append]

/-- An application that is declared nowhere is listed nowhere. -/
theorem snd_ne_of_mem_listings (hnew : ¬ apps.Declares app) :
    ∀ l ∈ apps.listings, l.2 ≠ app := by
  rintro ⟨other, name⟩ hl rfl
  exact hnew ⟨other, mem_listings.1 hl⟩

/-- The new application has its home where it was added, and the others theirs. -/
theorem Gains.homes_eq (h : apps.Gains space app apps') (hnew : ¬ apps.Declares app) :
    apps'.homes = apps.homes.insert app space := by
  obtain ⟨earlier, later, hlistings, hlistings'⟩ := h.exists_listings
  have hothers := snd_ne_of_mem_listings hnew
  rw [hlistings] at hothers
  rw [homes, homes, hlistings, hlistings', homesAfter_append, homesAfter_append]
  exact homesAfter_insert fun l hl => hothers l (List.mem_append_right _ hl)

/-- Nothing changes hands but what did before. -/
theorem Gains.conflicts_eq (h : apps.Gains space app apps') (hnew : ¬ apps.Declares app) :
    apps'.conflicts = apps.conflicts := by
  obtain ⟨earlier, later, hlistings, hlistings'⟩ := h.exists_listings
  have hothers := snd_ne_of_mem_listings hnew
  rw [hlistings, List.forall_mem_append] at hothers
  have htakeover : takeover (homesAfter .empty earlier) space app = [] := by
    rw [takeover, get?_homesAfter_of_forall_ne hothers.1, OrderedMap.get?_empty]
  rw [conflicts, conflicts, hlistings, hlistings', conflicts_append, conflicts_append,
    conflicts_cons, htakeover, conflicts_insert hothers.2, List.nil_append]

theorem get?_homes_eq_none (hnew : ¬ apps.Declares app) : apps.homes.get? app = none :=
  Option.eq_none_iff_forall_ne_some.2 fun _ hhome => hnew (declares_iff.2 ⟨_, hhome⟩)

theorem Gains.get?_homes_self (h : apps.Gains space app apps') (hnew : ¬ apps.Declares app) :
    apps'.homes.get? app = some space := by
  rw [h.homes_eq hnew, OrderedMap.get?_insert, if_pos rfl]

theorem Gains.get?_homes_of_ne (h : apps.Gains space app apps') (hnew : ¬ apps.Declares app)
    {other : AppName} (hne : other ≠ app) : apps'.homes.get? other = apps.homes.get? other := by
  rw [h.homes_eq hnew, OrderedMap.get?_insert, if_neg hne]

/-! ## Names and findings -/

variable {resources : Resources} {locators : Locators}

/-- **A new application takes no name from others.** -/
theorem Gains.agreesBut (h : apps.Gains space app apps') (hnew : ¬ apps.Declares app) :
    (Names.of apps resources locators).AgreesBut (.of apps' resources locators) app where
  get?_clusterAccounts := by
    intro other hne
    rw [Names.get?_clusterAccounts_of, Names.get?_clusterAccounts_of, h.get?_homes_of_ne hnew hne]
  get?_cloudAccounts := by
    intro other hne
    rw [Names.get?_cloudAccounts_of, Names.get?_cloudAccounts_of, h.get?_homes_of_ne hnew hne]
  get?_fullNames := by
    intro kind name hname
    by_cases hkind : kind = .serviceAccounts
    · subst hkind
      have hne : (⟨name.text⟩ : AppName) ≠ app := by
        rintro rfl
        exact hname rfl rfl
      show (Names.of apps' resources locators).fullNames.get? .serviceAccounts
          (AppName.asResource ⟨name.text⟩) =
        (Names.of apps resources locators).fullNames.get? .serviceAccounts
          (AppName.asResource ⟨name.text⟩)
      rw [Names.get?_fullNames_of_serviceAccounts, Names.get?_fullNames_of_serviceAccounts,
        h.get?_homes_of_ne hnew hne]
    · rw [Names.get?_fullNames_of hkind, Names.get?_fullNames_of hkind]

/-- The username of the new application is checked once, somewhere among the others. -/
theorem Gains.exists_namingFindings (h : apps.Gains space app apps')
    (hnew : ¬ apps.Declares app) (resources : Resources) : ∃ before after,
      namingFindings apps resources = before ++ after ∧
        namingFindings apps' resources = before ++ app.findings ++ after := by
  obtain ⟨l, r, hentries, hinserted⟩ := apps.homes.exists_toList_insert app space
  rw [get?_homes_eq_none hnew] at hentries
  have hkeys : apps.homes.keys = l.map Prod.fst ++ r.map Prod.fst := by
    rw [OrderedMap.keys, hentries]
    simp
  have hkeys' : apps'.homes.keys = l.map Prod.fst ++ app :: r.map Prod.fst := by
    rw [h.homes_eq hnew, OrderedMap.keys, hinserted]
    simp
  refine ⟨apps.conflicts ++ (l.map Prod.fst).flatMap AppName.findings,
    (r.map Prod.fst).flatMap AppName.findings ++
      resources.declarations.flatMap fun d => d.1.findings, ?_, ?_⟩
  · rw [namingFindings, hkeys, List.flatMap_append]
    simp only [List.append_assoc]
  · rw [namingFindings, h.conflicts_eq hnew, hkeys', List.flatMap_append, List.flatMap_cons]
    simp only [List.append_assoc]

end Apps

end GrantCompiler
