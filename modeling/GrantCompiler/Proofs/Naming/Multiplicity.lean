import GrantCompiler.Proofs.Naming.Conflicts
import GrantCompiler.Proofs.Naming.Username

/-!
# Applications that are listed more than once

An application may be listed in several namespaces, and in each of them several times.  Between
namespaces it moves, and every move is reported; within a namespace nothing happens.  So what is
reported depends on which namespaces list which applications, and on nothing else of the lists
(`Apps.conflicts_perm_of_lists_iff`).

However often it is listed, an application has one identity and is reported for its name at most
once.  `deriveNames_accounts_for_moves` puts this together for one application, given the namespaces
that list it in ascending order: all but the last are dropped, one after the other.
-/

set_option autoImplicit false

namespace GrantCompiler

/-! ## Lists told by their members -/

theorem nodup_of_ascending {α : Type} [Ord α] [Std.LawfulEqOrd α] {l : List α}
    (h : l.Pairwise fun a b => compare a b = .lt) : l.Nodup := by
  refine List.nodup_iff_pairwise_ne.2 (h.imp ?_)
  rintro a _ hlt rfl
  simp at hlt

/-- A list without repetitions that has one member is that member. -/
theorem eq_singleton_of_nodup {α : Type} {l : List α} {a : α} (hnodup : l.Nodup)
    (h : ∀ b, b ∈ l ↔ b = a) : l = [a] := by
  refine List.perm_singleton.1 ((List.perm_ext_iff_of_nodup hnodup (List.nodup_singleton a)).2 ?_)
  simpa using h

/-- Of all items of a list, one alone yields something that passes a test. -/
theorem filter_flatMap_of_nodup {α β : Type} {f : α → List β} {p : β → Bool} {l : List α} {a : α}
    (hnodup : l.Nodup) (ha : a ∈ l) (hself : ∀ b ∈ f a, p b = true)
    (hother : ∀ c, c ≠ a → ∀ b ∈ f c, p b = false) : (l.flatMap f).filter p = f a := by
  obtain ⟨before, after, rfl⟩ := List.append_of_mem ha
  obtain ⟨-, hafter, hdisjoint⟩ := List.nodup_append.1 hnodup
  have hnone : ∀ rest : List α, a ∉ rest → (rest.flatMap f).filter p = [] := by
    intro rest hrest
    refine List.filter_eq_nil_iff.2 fun b hb => ?_
    obtain ⟨c, hc, hb⟩ := List.mem_flatMap.1 hb
    have hne : c ≠ a := by
      rintro rfl
      exact hrest hc
    simp [hother c hne b hb]
  rw [List.flatMap_append, List.flatMap_cons, List.filter_append, List.filter_append,
    List.filter_eq_self.2 hself, hnone before fun hmem => hdisjoint a hmem a List.mem_cons_self rfl,
    hnone after (List.nodup_cons.1 hafter).1, List.nil_append, List.append_nil]

theorem OrderedMap.filter_toList {K V : Type} [Ord K] [Std.LawfulEqOrd K] [DecidableEq K]
    {m : OrderedMap K V} {k : K} {x : V} (h : m.get? k = some x) :
    m.toList.filter (fun e => e.1 = k) = [(k, x)] := by
  refine eq_singleton_of_nodup (m.nodup_toList.filter _) fun ⟨k', x'⟩ => ?_
  rw [List.mem_filter, OrderedMap.mem_toList, decide_eq_true_eq, Prod.mk.injEq]
  refine ⟨?_, ?_⟩
  · rintro ⟨hget, rfl⟩
    exact ⟨rfl, Option.some_inj.1 (hget.symm.trans h)⟩
  · rintro ⟨rfl, rfl⟩
    exact ⟨h, rfl⟩

theorem FullNames.filter_toList {names : FullNames} {kind : Kind} {name : ResourceName}
    {path : FullName} (h : names.get? kind name = some path) :
    names.toList.filter (fun e => e.kind = kind ∧ e.name = name) = [⟨kind, name, path⟩] := by
  have hnodup : names.toList.Nodup := List.Nodup.of_map _ names.keys_nodup
  refine eq_singleton_of_nodup (hnodup.filter _) fun ⟨kind', name', path'⟩ => ?_
  rw [List.mem_filter, FullNames.mem_toList, decide_eq_true_eq, FullNameEntry.mk.injEq]
  refine ⟨?_, ?_⟩
  · rintro ⟨hget, rfl, rfl⟩
    exact ⟨rfl, rfl, Option.some_inj.1 (hget.symm.trans h)⟩
  · rintro ⟨rfl, rfl, rfl⟩
    exact ⟨h, rfl, rfl⟩

/-! ## The namespaces that reports drop -/

/-- The namespace from which a report says that the given application was taken. -/
def Diagnostic.dropped? (app : AppName) : Diagnostic → Option NamespaceName
  | duplicateApp other _ dropped => if other = app then some dropped else none
  | _ => none

/-- The namespaces from which an application was taken, by the reports and in their order. -/
def Diagnostics.droppedOf (app : AppName) (ds : Diagnostics) : List NamespaceName :=
  ds.filterMap (·.dropped? app)

theorem Diagnostics.droppedOf_filter (app : AppName) (ds : Diagnostics) :
    droppedOf app (ds.filter (·.isConflictOf app)) = ds.droppedOf app := by
  rw [droppedOf, droppedOf, List.filterMap_filter]
  refine List.filterMap_congr fun d _ => ?_
  cases d with
  | duplicateApp other kept dropped =>
    by_cases h : other = app <;> simp [Diagnostic.isConflictOf, Diagnostic.dropped?, h]
  | _ => rfl

/-- All namespaces but the last are dropped. -/
theorem droppedOf_handovers (app : AppName) (earlier : List NamespaceName) (last : NamespaceName) :
    (handovers app (earlier ++ [last])).droppedOf app = earlier := by
  induction earlier with
  | nil => rfl
  | cons space rest ih =>
    cases rest with
    | nil => simp [handovers, Diagnostics.droppedOf, Diagnostic.dropped?]
    | cons next rest =>
      have hhead : (Diagnostic.duplicateApp app next space).dropped? app = some space := if_pos rfl
      rw [List.cons_append, List.cons_append, handovers, Diagnostics.droppedOf,
        List.filterMap_cons_some hhead]
      exact congrArg (space :: ·) ih

theorem length_handovers (app : AppName) (earlier : List NamespaceName) (last : NamespaceName) :
    (handovers app (earlier ++ [last])).length = earlier.length := by
  induction earlier with
  | nil => rfl
  | cons space rest ih =>
    cases rest with
    | nil => rfl
    | cons next rest =>
      rw [List.cons_append, List.cons_append, handovers, List.length_cons, List.length_cons]
      exact congrArg (· + 1) ih

/-! ## What does not depend on repetitions -/

section Lists

variable {apps apps' : Apps} {app : AppName}

/-- The namespaces that list an application are told by any ascending list of them. -/
theorem Apps.spacesOf_eq {spaces : List NamespaceName}
    (hascending : spaces.Pairwise fun a b => compare a b = .lt)
    (h : ∀ space, space ∈ spaces ↔ apps.Lists space app) : apps.spacesOf app = spaces := by
  have hnodup : (apps.spacesOf app).Nodup := nodup_of_ascending (apps.spacesOf_ascending app)
  have hperm : (apps.spacesOf app).Perm spaces :=
    (List.perm_ext_iff_of_nodup hnodup (nodup_of_ascending hascending)).2
      fun space => Apps.mem_spacesOf.trans (h space).symm
  refine hperm.eq_of_pairwise (fun a b _ _ hab hba => ?_) (apps.spacesOf_ascending app) hascending
  rw [Std.OrientedCmp.gt_of_lt hab] at hba
  cases hba

theorem Apps.spacesOf_congr (h : ∀ space, apps.Lists space app ↔ apps'.Lists space app) :
    apps.spacesOf app = apps'.spacesOf app :=
  spacesOf_eq (apps'.spacesOf_ascending app) fun space => mem_spacesOf.trans (h space).symm

/-- Nothing but conflicts is reported while the listings are read. -/
theorem exists_isConflictOf {homes : Homes} {listings : List (NamespaceName × AppName)}
    {d : Diagnostic} (hd : d ∈ conflicts homes listings) :
    ∃ app, d.isConflictOf app = true := by
  induction listings generalizing homes with
  | nil => cases hd
  | cons listing rest ih =>
    obtain ⟨space, app⟩ := listing
    rw [conflicts_cons, List.mem_append] at hd
    rcases hd with hd | hd
    · refine ⟨app, ?_⟩
      rw [← filter_takeover_self] at hd
      exact (List.mem_filter.1 hd).2
    · exact ih hd

/-- **The conflicts depend on who lists whom,** and not on how often. -/
theorem Apps.conflicts_perm_of_lists_iff
    (h : ∀ space app, apps.Lists space app ↔ apps'.Lists space app) :
    apps.conflicts.Perm apps'.conflicts := by
  refine List.perm_iff_count.2 fun d => ?_
  by_cases hd : ∃ app, d.isConflictOf app = true
  · obtain ⟨app, happ⟩ := hd
    rw [← List.count_filter (l := apps.conflicts) happ,
      ← List.count_filter (l := apps'.conflicts) happ, apps.filter_conflicts,
      apps'.filter_conflicts, spacesOf_congr fun space => h space app]
  · have hnone (apps : Apps) : List.count d apps.conflicts = 0 :=
      List.count_eq_zero_of_not_mem fun hmem => hd (exists_isConflictOf hmem)
    rw [hnone, hnone]

theorem Apps.homes_congr (h : ∀ space app, apps.Lists space app ↔ apps'.Lists space app) :
    apps.homes = apps'.homes := by
  refine OrderedMap.ext_get? fun app => Option.ext fun space => ?_
  simp only [get?_homes_eq_some_iff, h]

theorem namingFindings_perm_of_lists_iff (resources : Resources)
    (h : ∀ space app, apps.Lists space app ↔ apps'.Lists space app) :
    (namingFindings apps resources).Perm (namingFindings apps' resources) := by
  rw [namingFindings, namingFindings, Apps.homes_congr h]
  exact (Apps.conflicts_perm_of_lists_iff h).append_right _

end Lists

/-! ## Reports on names -/

/-- A report that the given application's username is refused. -/
def Diagnostic.isNameReportOf (app : AppName) : Diagnostic → Bool
  | invalidAccountName other _ => other = app
  | _ => false

theorem AppName.mem_findings {app : AppName} {d : Diagnostic} :
    d ∈ app.findings ↔ Username.valid app.username = false ∧
      d = .invalidAccountName app app.username := by
  rw [findings]
  cases Username.valid app.username <;> simp

/-- A declared application is reported for its name as its name alone requires. -/
theorem filter_isNameReportOf_namingFindings {apps : Apps} {app : AppName} (resources : Resources)
    (happ : apps.Declares app) :
    (namingFindings apps resources).filter (·.isNameReportOf app) = app.findings := by
  have hconflicts : apps.conflicts.filter (·.isNameReportOf app) = [] := by
    refine List.filter_eq_nil_iff.2 fun d hd => ?_
    obtain ⟨other, hother⟩ := exists_isConflictOf hd
    cases d <;> simp_all [Diagnostic.isConflictOf, Diagnostic.isNameReportOf]
  have hresources : (resources.declarations.flatMap fun d => d.1.findings).filter
      (·.isNameReportOf app) = [] := by
    refine List.filter_eq_nil_iff.2 fun d hd => ?_
    obtain ⟨_, -, hd⟩ := List.mem_flatMap.1 hd
    rw [Kind.findings] at hd
    split at hd <;> simp_all [Diagnostic.isNameReportOf]
  have hnames : (apps.homes.keys.flatMap AppName.findings).filter (·.isNameReportOf app) =
      app.findings := by
    refine filter_flatMap_of_nodup apps.homes.nodup_keys
      (OrderedMap.mem_keys.2 (Apps.declares_iff.1 happ)) (fun d hd => ?_) fun other hne d hd => ?_
    · rw [(AppName.mem_findings.1 hd).2]
      exact decide_eq_true rfl
    · rw [(AppName.mem_findings.1 hd).2]
      exact decide_eq_false hne
  rw [namingFindings, List.filter_append, List.filter_append, hconflicts, hnames, hresources,
    List.nil_append, List.append_nil]

theorem AppName.length_findings_le (app : AppName) : app.findings.length ≤ 1 := by
  rw [findings]
  split <;> simp

/-! ## One application -/

/-- An application has one account in the cluster, in the given namespace, one account in the cloud,
and one full name for the latter. -/
structure Names.IdentifiesOnce (names : Names) (locators : Locators) (app : AppName)
    (space : NamespaceName) : Prop where
  cluster : names.clusterAccounts.toList.filter (fun e => e.1 = app) =
    [(app, app.clusterAccount space)]
  cloud : ∃ member path, app.HasAccount locators member path ∧
    names.cloudAccounts.toList.filter (fun e => e.1 = app) = [(app, member)] ∧
    names.fullNames.toList.filter (fun e => e.kind = .serviceAccounts ∧ e.name = app.asResource) =
      [⟨.serviceAccounts, app.asResource, path⟩]

section Runs

variable {apps : Apps} {resources : Resources} {locators : Locators} {names : Names} {app : AppName}
  {space : NamespaceName}

theorem Names.identifiesOnce_of (hunit : locators.HasUnit)
    (hhome : apps.homes.get? app = some space) :
    (of apps resources locators).IdentifiesOnce locators app space where
  cluster := OrderedMap.filter_toList (by rw [get?_clusterAccounts_of, hhome]; rfl)
  cloud := by
    refine ⟨_, _, (AppName.hasAccount_iff hunit).2 ⟨rfl, rfl⟩, OrderedMap.filter_toList ?_,
      FullNames.filter_toList ?_⟩
    · rw [get?_cloudAccounts_of, hhome]
      rfl
    · rw [get?_fullNames_of_serviceAccounts, hhome]
      rfl

theorem Nameable.congr {apps' : Apps}
    (h : ∀ space app, apps.Lists space app ↔ apps'.Lists space app) :
    Nameable apps resources locators ↔ Nameable apps' resources locators := by
  simp only [Nameable, Apps.Declares, h]

/-- **Every listing of an application is accounted for.**  Of the namespaces that list it, all but
the last are dropped, each once and in order, and it has its one identity in the last.  It is
reported for its name at most once.  Listing it or any other application again where it is listed
already adds nothing. -/
theorem deriveNames_accounts_for_moves
    (h : (deriveNames apps resources locators).outcome = .ok names)
    {earlier : List NamespaceName} {last : NamespaceName}
    (hascending : (earlier ++ [last]).Pairwise fun a b => compare a b = .lt)
    (hlists : ∀ space, space ∈ earlier ++ [last] ↔ apps.Lists space app) :
    (deriveNames apps resources locators).diagnostics.droppedOf app = earlier ∧
    earlier.Nodup ∧
    ((deriveNames apps resources locators).diagnostics.filter (·.isConflictOf app)).length =
      earlier.length ∧
    names.IdentifiesOnce locators app last ∧
    (deriveNames apps resources locators).diagnostics.filter (·.isNameReportOf app) =
      app.findings ∧
    app.findings.length ≤ 1 ∧
    ∀ apps' : Apps, (∀ space other, apps.Lists space other ↔ apps'.Lists space other) →
      (deriveNames apps resources locators).diagnostics.Perm
        (deriveNames apps' resources locators).diagnostics := by
  have hnameable := nameable_of_deriveNames h
  have hspaces : apps.spacesOf app = earlier ++ [last] := Apps.spacesOf_eq hascending hlists
  have hdeclares : apps.Declares app := ⟨last, (hlists last).1 (by simp)⟩
  have hhome : apps.homes.get? app = some last := by
    rw [apps.get?_homes_eq_getLast?, hspaces, List.getLast?_concat]
  cases deriveNames_eq_ok h
  simp only [deriveNames_eq hnameable]
  refine ⟨?_, nodup_of_ascending (List.pairwise_append.1 hascending).1, ?_,
    Names.identifiesOnce_of (hasUnit_of_declares_app h hdeclares) hhome,
    filter_isNameReportOf_namingFindings resources hdeclares, app.length_findings_le,
    fun apps' hsame => ?_⟩
  · rw [← Diagnostics.droppedOf_filter, filter_namingFindings, hspaces, droppedOf_handovers]
  · rw [filter_namingFindings, hspaces, length_handovers]
  · rw [deriveNames_eq ((Nameable.congr hsame).1 hnameable)]
    exact namingFindings_perm_of_lists_iff resources hsame

end Runs

/-! ### Listed twice in each of three namespaces -/

namespace ListedTwice

/-- Another application is listed in between. -/
def apps : Apps :=
  .ofList [(⟨"a"⟩, [⟨"up"⟩, ⟨"x"⟩, ⟨"up"⟩]), (⟨"b"⟩, [⟨"up"⟩, ⟨"up"⟩]),
    (⟨"c"⟩, [⟨"x"⟩, ⟨"up"⟩, ⟨"up"⟩])]

/-- The same without the repetitions, and in another order. -/
def listedOnce : Apps :=
  .ofList [(⟨"a"⟩, [⟨"x"⟩, ⟨"up"⟩]), (⟨"b"⟩, [⟨"up"⟩]), (⟨"c"⟩, [⟨"x"⟩, ⟨"up"⟩])]

theorem alike : apps.Alike SameNames listedOnce := by
  refine .cons ⟨rfl, fun app => ?_⟩ (.cons ⟨rfl, fun app => ?_⟩ (.cons ⟨rfl, fun app => ?_⟩ .nil))
  · simp only [List.mem_cons, List.not_mem_nil, or_false]
    tauto
  · simp
  · simp

/-- Two moves are counted, and one report on a name that is too short. -/
theorem moved_twice_reported_once : ∃ names,
    (deriveNames apps .empty (.withUnit "x")).outcome = .ok names ∧
    (deriveNames apps .empty (.withUnit "x")).diagnostics.droppedOf ⟨"up"⟩ = [⟨"a"⟩, ⟨"b"⟩] ∧
    ((deriveNames apps .empty (.withUnit "x")).diagnostics.filter
      (·.isConflictOf ⟨"up"⟩)).length = 2 ∧
    names.IdentifiesOnce (.withUnit "x") ⟨"up"⟩ ⟨"c"⟩ ∧
    (deriveNames apps .empty (.withUnit "x")).diagnostics.filter (·.isNameReportOf ⟨"up"⟩) =
      [.invalidAccountName ⟨"up"⟩ "up-sa"] ∧
    (deriveNames apps .empty (.withUnit "x")).diagnostics.Perm
      (deriveNames listedOnce .empty (.withUnit "x")).diagnostics := by
  have h : (deriveNames apps .empty (.withUnit "x")).outcome = .ok _ := rfl
  have hlists : ∀ space, space ∈ [⟨"a"⟩, ⟨"b"⟩] ++ [⟨"c"⟩] ↔ apps.Lists space ⟨"up"⟩ := by
    intro space
    rw [← Apps.mem_spacesOf]
    exact Iff.rfl
  obtain ⟨hdropped, -, hcount, honce, hname, -, hsame⟩ :=
    deriveNames_accounts_for_moves h (by decide) hlists
  exact ⟨_, h, hdropped, hcount, honce, hname, hsame listedOnce fun space app =>
    alike.lists_iff space app⟩

end ListedTwice

end GrantCompiler
