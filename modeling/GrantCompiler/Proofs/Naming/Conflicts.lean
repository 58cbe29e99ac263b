import GrantCompiler.Proofs.Naming.Rearrangement
import GrantCompiler.Proofs.Naming.Separation

/-!
# What the reported conflicts tell

An application that several namespaces list is handed from each of them to the next, and every
change of hands is reported when it happens.  The reports about one application are therefore its
moves, in order (`filter_namingFindings`): `handovers` of the namespaces that list it.

The report calls the namespace that takes the application over the one in use.  That is so at the
time, but the reading goes on: of the namespaces that reports keep, the application ends up in the
last one only, and a report that was followed by another names a namespace that is not used.  The
namespaces that reports drop are indeed not used (`Apps.homes_of_mem_handovers`).
-/

set_option autoImplicit false

namespace GrantCompiler

open Std (OrientedCmp)

/-! ## Moves -/

/-- A report that the given application changes hands. -/
def Diagnostic.isConflictOf (app : AppName) : Diagnostic → Bool
  | duplicateApp other _ _ => other = app
  | _ => false

/-- Each namespace takes an application over from the one before it. -/
def handovers (app : AppName) : List NamespaceName → Diagnostics
  | dropped :: kept :: rest => .duplicateApp app kept dropped :: handovers app (kept :: rest)
  | _ => []

/-- A handover is between two neighbours. -/
theorem mem_handovers {app : AppName} {kept dropped : NamespaceName} {spaces : List NamespaceName} :
    .duplicateApp app kept dropped ∈ handovers app spaces ↔
      ∃ before after, spaces = before ++ dropped :: kept :: after := by
  induction spaces using handovers.induct with
  | case1 first second rest ih =>
    rw [handovers, List.mem_cons, ih]
    refine ⟨?_, ?_⟩
    · rintro (hhead | ⟨before, after, hrest⟩)
      · obtain ⟨-, rfl, rfl⟩ := Diagnostic.duplicateApp.inj hhead
        exact ⟨[], rest, rfl⟩
      · exact ⟨first :: before, after, congrArg (first :: ·) hrest⟩
    · rintro ⟨_ | ⟨_, before⟩, after, hspaces⟩
      · cases hspaces
        exact .inl rfl
      · exact .inr ⟨before, after, (List.cons.inj hspaces).2⟩
  | case2 spaces hshort =>
    rw [handovers.eq_2 app spaces hshort]
    refine ⟨fun h => absurd h List.not_mem_nil, ?_⟩
    rintro ⟨before, after, rfl⟩
    cases before with
    | nil => exact absurd rfl (hshort _ _ _)
    | cons space before => cases before <;> exact absurd rfl (hshort _ _ _)

/-! ## The namespaces of an application -/

section Spaces

variable {apps : Apps} {app : AppName} {space : NamespaceName}

/-- The namespaces among the entries of a document that list an application. -/
def listingSpaces (app : AppName) (entries : List (NamespaceName × List AppName)) :
    List NamespaceName :=
  (entries.filter fun e => app ∈ e.2).map Prod.fst

/-- The namespaces that list an application, in ascending order. -/
def Apps.spacesOf (apps : Apps) (app : AppName) : List NamespaceName :=
  listingSpaces app apps.toList

theorem listingSpaces_cons (app : AppName) (space : NamespaceName) (names : List AppName)
    (rest : List (NamespaceName × List AppName)) :
    listingSpaces app ((space, names) :: rest) =
      if app ∈ names then space :: listingSpaces app rest else listingSpaces app rest := by
  rw [listingSpaces, List.filter_cons]
  by_cases h : app ∈ names <;> simp [h, listingSpaces]

theorem Apps.mem_spacesOf : space ∈ apps.spacesOf app ↔ apps.Lists space app := by
  simp only [spacesOf, listingSpaces, List.mem_map, List.mem_filter, decide_eq_true_eq, Prod.exists,
    exists_and_right, exists_eq_right, OrderedMap.mem_toList, Lists]

theorem Apps.spacesOf_ascending (apps : Apps) (app : AppName) :
    (apps.spacesOf app).Pairwise fun a b => compare a b = .lt :=
  List.pairwise_map.2 (apps.ascending.filter _)

/-! ## Reading the listings -/

/-- After the listings of one namespace, what it lists has its home there. -/
theorem get?_homesAfter_space (homes : Homes) (space : NamespaceName) (names : List AppName) :
    (homesAfter homes (names.map fun a => (space, a))).get? app =
      if app ∈ names then some space else homes.get? app := by
  induction names generalizing homes with
  | nil => rfl
  | cons a rest ih =>
    have hstep : homesAfter homes ((a :: rest).map fun a => (space, a)) =
        homesAfter (homes.insert a space) (rest.map fun a => (space, a)) := rfl
    rw [hstep, ih, OrderedMap.get?_insert]
    by_cases hrest : app ∈ rest
    · simp [hrest]
    · simp [hrest]

theorem filter_takeover_self (homes : Homes) (space : NamespaceName) (app : AppName) :
    (takeover homes space app).filter (·.isConflictOf app) = takeover homes space app := by
  rw [takeover]
  cases homes.get? app with
  | none => rfl
  | some previous => by_cases h : previous = space <;> simp [h, Diagnostic.isConflictOf]

theorem filter_takeover_ne {other : AppName} (h : other ≠ app) (homes : Homes)
    (space : NamespaceName) : (takeover homes space other).filter (·.isConflictOf app) = [] := by
  rw [takeover]
  cases homes.get? other with
  | none => rfl
  | some previous => by_cases h : previous = space <;> simp [*, Diagnostic.isConflictOf]

/-- However often a namespace lists an application, it takes it over once. -/
theorem filter_conflicts_space (homes : Homes) (space : NamespaceName) (names : List AppName) :
    (conflicts homes (names.map fun a => (space, a))).filter (·.isConflictOf app) =
      if app ∈ names then takeover homes space app else [] := by
  induction names generalizing homes with
  | nil => rfl
  | cons a rest ih =>
    rw [List.map_cons, conflicts_cons, List.filter_append, ih]
    by_cases ha : a = app
    · subst ha
      have hagain : takeover (homes.insert a space) space a = [] := by
        simp [takeover, OrderedMap.get?_insert]
      simp [filter_takeover_self, hagain]
    · simp [filter_takeover_ne ha, takeover_insert (Ne.symm ha), Ne.symm ha]

/-- **The conflicts about an application are its moves**, from where it was before the listings were
read and then from one namespace to the next. -/
theorem filter_conflicts {entries : List (NamespaceName × List AppName)} {homes : Homes}
    (hascending : entries.Pairwise fun e e' => compare e.1 e'.1 = .lt)
    (hbefore : ∀ held, homes.get? app = some held → ∀ e ∈ entries, held ≠ e.1) :
    (conflicts homes (entries.flatMap fun e => e.2.map fun a => (e.1, a))).filter
        (·.isConflictOf app) =
      handovers app ((homes.get? app).toList ++ listingSpaces app entries) := by
  induction entries generalizing homes with
  | nil => cases homes.get? app <;> rfl
  | cons e rest ih =>
    obtain ⟨space, names⟩ := e
    obtain ⟨hhead, htail⟩ := List.pairwise_cons.1 hascending
    rw [List.flatMap_cons, conflicts_append, List.filter_append, filter_conflicts_space,
      listingSpaces_cons]
    by_cases happ : app ∈ names
    · -- the application is in this namespace now, which no later entry is about
      have hhome : (homesAfter homes (names.map fun a => (space, a))).get? app = some space := by
        rw [get?_homesAfter_space, if_pos happ]
      have hlater : ∀ held, some space = some held → ∀ e ∈ rest, held ≠ e.1 := by
        rintro _ ⟨⟩ e he rfl
        simpa using hhead e he
      rw [if_pos happ, if_pos happ, ih htail (hhome ▸ hlater), hhome, takeover]
      cases hheld : homes.get? app with
      | none => rfl
      | some held =>
        have hmoves : held ≠ space := hbefore held hheld _ List.mem_cons_self
        simp [hmoves, handovers]
    · have hhome : (homesAfter homes (names.map fun a => (space, a))).get? app =
          homes.get? app := by
        rw [get?_homesAfter_space, if_neg happ]
      have hlater : ∀ held, homes.get? app = some held → ∀ e ∈ rest, held ≠ e.1 :=
        fun held hheld e he => hbefore held hheld e (List.mem_cons_of_mem _ he)
      rw [if_neg happ, if_neg happ, ih htail (hhome ▸ hlater), hhome, List.nil_append]

theorem Apps.filter_conflicts (apps : Apps) (app : AppName) :
    apps.conflicts.filter (·.isConflictOf app) = handovers app (apps.spacesOf app) :=
  GrantCompiler.filter_conflicts apps.ascending (by simp)

/-! ## Moves and the home -/

/-- Of two neighbours among the namespaces, the second is greater. -/
theorem Apps.compare_of_spacesOf_eq {before after : List NamespaceName}
    {dropped kept : NamespaceName} (h : apps.spacesOf app = before ++ dropped :: kept :: after) :
    compare dropped kept = .lt := by
  have hascending := apps.spacesOf_ascending app
  rw [h, List.pairwise_append, List.pairwise_cons] at hascending
  exact hascending.2.1.1 kept List.mem_cons_self

/-- A namespace is not an application's home if a greater one lists it. -/
theorem Apps.get?_homes_ne_of_lt {greater : NamespaceName} (hlists : apps.Lists greater app)
    (hlt : compare space greater = .lt) : apps.homes.get? app ≠ some space := by
  intro hhome
  have hle := (get?_homes_eq_some_iff.1 hhome).2 greater hlists
  rw [OrientedCmp.gt_of_lt hlt] at hle
  cases hle

/-- An application has its home in the last namespace that lists it. -/
theorem Apps.get?_homes_eq_getLast? (apps : Apps) (app : AppName) :
    apps.homes.get? app = (apps.spacesOf app).getLast? := by
  refine Option.ext fun space => ?_
  rw [List.getLast?_eq_some_iff]
  refine ⟨fun hhome => ?_, ?_⟩
  · have hmem := mem_spacesOf.2 (lists_of_get?_homes hhome)
    obtain ⟨before, after, hspaces⟩ := List.append_of_mem hmem
    cases after with
    | nil => exact ⟨before, hspaces⟩
    | cons next after =>
      have hlists : apps.Lists next app := mem_spacesOf.1 (by simp [hspaces])
      exact absurd hhome (get?_homes_ne_of_lt hlists (compare_of_spacesOf_eq hspaces))
  · rintro ⟨before, hspaces⟩
    refine get?_homes_eq_some_iff.2 ⟨mem_spacesOf.1 (by simp [hspaces]), fun other hother => ?_⟩
    have hmem := mem_spacesOf.2 hother
    have hascending := apps.spacesOf_ascending app
    rw [hspaces, List.pairwise_append] at hascending
    rw [hspaces, List.mem_append, List.mem_singleton] at hmem
    rcases hmem with hbefore | rfl
    · rw [hascending.2.2 other hbefore space (List.mem_singleton_self _)]
      rfl
    · simp

/-- What a reported move says about the home of an application. -/
theorem Apps.homes_of_mem_handovers {kept dropped : NamespaceName}
    (h : .duplicateApp app kept dropped ∈ handovers app (apps.spacesOf app)) :
    apps.Lists kept app ∧ apps.Lists dropped app ∧ apps.homes.get? app ≠ some dropped ∧
      (apps.homes.get? app = some kept ↔
        ∀ other, apps.Lists other app → (compare other kept).isLE) := by
  obtain ⟨before, after, hspaces⟩ := mem_handovers.1 h
  have hkept : apps.Lists kept app := mem_spacesOf.1 (by simp [hspaces])
  have hdropped : apps.Lists dropped app := mem_spacesOf.1 (by simp [hspaces])
  refine ⟨hkept, hdropped, get?_homes_ne_of_lt hkept (compare_of_spacesOf_eq hspaces), ?_⟩
  rw [get?_homes_eq_some_iff]
  exact and_iff_right hkept

end Spaces

/-! ## The reports of a run -/

section Runs

variable {apps : Apps} {resources : Resources} {locators : Locators} {names : Names}

/-- Nothing else that naming reports is a conflict. -/
theorem filter_namingFindings (apps : Apps) (resources : Resources) (app : AppName) :
    (namingFindings apps resources).filter (·.isConflictOf app) =
      handovers app (apps.spacesOf app) := by
  have hothers : (apps.homes.keys.flatMap AppName.findings ++
      resources.declarations.flatMap fun d => d.1.findings).filter (·.isConflictOf app) = [] := by
    refine List.filter_eq_nil_iff.2 fun d hd => ?_
    rcases List.mem_append.1 hd with hd | hd <;> obtain ⟨_, -, hd⟩ := List.mem_flatMap.1 hd
    · rw [AppName.findings] at hd
      split at hd <;> simp_all [Diagnostic.isConflictOf]
    · rw [Kind.findings] at hd
      split at hd <;> simp_all [Diagnostic.isConflictOf]
  rw [namingFindings, List.filter_append, hothers, List.append_nil, apps.filter_conflicts]

/-- The account in the cluster is the one in the application's home. -/
theorem Names.get?_clusterAccounts_of_eq_some_iff {app : AppName} {space : NamespaceName} :
    (of apps resources locators).clusterAccounts.get? app = some (app.clusterAccount space) ↔
      apps.homes.get? app = some space := by
  rw [get?_clusterAccounts_of, Option.map_eq_some_iff]
  refine ⟨?_, fun hspace => ⟨space, hspace, rfl⟩⟩
  rintro ⟨space', hspace', heq⟩
  rw [hspace', AppName.clusterAccount_inj rfl heq]

/-- **The reported conflicts tell every move.**  A namespace from which an application was taken is
not the one it is used in.  The one that took it over is, unless a greater namespace lists it. -/
theorem deriveNames_handovers (h : (deriveNames apps resources locators).outcome = .ok names)
    (app : AppName) :
    (deriveNames apps resources locators).diagnostics.filter (·.isConflictOf app) =
        handovers app (apps.spacesOf app) ∧
      names.clusterAccounts.get? app = (apps.spacesOf app).getLast?.map app.clusterAccount ∧
      ∀ kept dropped,
        .duplicateApp app kept dropped ∈ (deriveNames apps resources locators).diagnostics →
          apps.Lists kept app ∧ apps.Lists dropped app ∧
          names.clusterAccounts.get? app ≠ some (app.clusterAccount dropped) ∧
          (names.clusterAccounts.get? app = some (app.clusterAccount kept) ↔
            ∀ other, apps.Lists other app → (compare other kept).isLE) := by
  have hmoves : (deriveNames apps resources locators).diagnostics.filter (·.isConflictOf app) =
      handovers app (apps.spacesOf app) := by
    rw [deriveNames_eq (nameable_of_deriveNames h), filter_namingFindings]
  cases deriveNames_eq_ok h
  have hcluster : (Names.of apps resources locators).clusterAccounts.get? app =
      (apps.spacesOf app).getLast?.map app.clusterAccount := by
    rw [Names.get?_clusterAccounts_of, apps.get?_homes_eq_getLast?]
  refine ⟨hmoves, hcluster, fun kept dropped hmem => ?_⟩
  have hmove : .duplicateApp app kept dropped ∈ handovers app (apps.spacesOf app) := by
    rw [← hmoves]
    exact List.mem_filter.2 ⟨hmem, by simp [Diagnostic.isConflictOf]⟩
  rw [Ne, Names.get?_clusterAccounts_of_eq_some_iff, Names.get?_clusterAccounts_of_eq_some_iff]
  exact Apps.homes_of_mem_handovers hmove

end Runs

/-! ### Three namespaces -/

namespace ThreeSpaces

/-- Each of the three lists the same application. -/
def apps : Apps := .ofList [(⟨"a"⟩, [⟨"dup"⟩]), (⟨"b"⟩, [⟨"dup"⟩]), (⟨"c"⟩, [⟨"dup"⟩])]

/-- Two moves are reported, and the first of them is not the last. -/
theorem moved_twice : ∃ names, (deriveNames apps .empty (.withUnit "x")).outcome = .ok names ∧
    (deriveNames apps .empty (.withUnit "x")).diagnostics.filter (·.isConflictOf ⟨"dup"⟩) =
      [.duplicateApp ⟨"dup"⟩ ⟨"b"⟩ ⟨"a"⟩, .duplicateApp ⟨"dup"⟩ ⟨"c"⟩ ⟨"b"⟩] ∧
    names.clusterAccounts.get? ⟨"dup"⟩ = some ⟨"c/dup-sa"⟩ := by
  have h : (deriveNames apps .empty (.withUnit "x")).outcome = .ok _ := rfl
  obtain ⟨hmoves, hhome, -⟩ := deriveNames_handovers h ⟨"dup"⟩
  exact ⟨_, h, hmoves.trans (by decide), hhome.trans (by decide)⟩

/-- Not every reported conflict names the namespace in use. -/
theorem not_every_report_true : ¬ ∀ (apps : Apps) (resources : Resources) (locators : Locators)
    (names : Names), (deriveNames apps resources locators).outcome = .ok names →
      ∀ app kept dropped,
        .duplicateApp app kept dropped ∈ (deriveNames apps resources locators).diagnostics →
          names.clusterAccounts.get? app = some (app.clusterAccount kept) ∧
            names.clusterAccounts.get? app ≠ some (app.clusterAccount dropped) := by
  intro hall
  have h : (deriveNames apps .empty (.withUnit "x")).outcome = .ok _ := rfl
  have hreported : .duplicateApp ⟨"dup"⟩ ⟨"b"⟩ ⟨"a"⟩ ∈
      (deriveNames apps .empty (.withUnit "x")).diagnostics := by decide
  obtain ⟨hused, -⟩ := hall _ _ _ _ h _ _ _ hreported
  exact absurd hused (by decide)

end ThreeSpaces

end GrantCompiler
