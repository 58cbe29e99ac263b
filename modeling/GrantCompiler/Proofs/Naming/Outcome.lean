import GrantCompiler.Proofs.Naming.Derivation
import Mathlib.Data.List.Pairwise

/-!
# Whether names can be derived, and what is reported

Deriving names stops at the first name that wants the unit where none is bound.  Accounts and queues
want it, and buckets do not, so a run succeeds exactly if its documents and locators are `Nameable`
(`exists_deriveNames_iff`).  Such a run is known entirely: its names are those of `Names.of`, and
`deriveNames_eq` gives its findings beside them.

The findings are of three sorts, each with a condition under which there are none.

* `Apps.conflicts_eq_nil_iff` — no application is listed in two namespaces.
* `AppName.findings_eq_nil_iff` — the username of an application is one that the provider takes.
* `Kind.findings_eq_nil_iff` — resources of a kind can be declared.
-/

set_option autoImplicit false

namespace GrantCompiler

/-! ## Whether names can be derived -/

/-- Nothing is declared whose name wants a unit that is not bound. -/
def Nameable (apps : Apps) (resources : Resources) (locators : Locators) : Prop :=
  locators.HasUnit ∨
    (∀ app, ¬ apps.Declares app) ∧ ∀ owner name, ¬ resources.Declares .queues owner name

section Outcome

variable {apps : Apps} {resources : Resources} {locators : Locators} {names : Names} {app : AppName}
  {owner : OwnerKey} {name : ResourceName}

theorem Nameable.hasUnit_of_app (h : Nameable apps resources locators) (happ : apps.Declares app) :
    locators.HasUnit :=
  h.resolve_right fun hnone => hnone.1 app happ

theorem Nameable.hasUnit_of_queue (h : Nameable apps resources locators)
    (hqueue : resources.Declares .queues owner name) : locators.HasUnit :=
  h.resolve_right fun hnone => hnone.2 owner name hqueue

/-- Everything declared has its full names. -/
theorem Nameable.entries_eq (h : Nameable apps resources locators) {kind : Kind}
    (hdeclares : resources.Declares kind owner name) :
    kind.entries owner name locators = .ok (locators.entries kind owner name) := by
  rw [Kind.entries_eq, if_neg]
  rintro ⟨rfl, hunit⟩
  exact hunit (h.hasUnit_of_queue hdeclares)

/-- The passes of a run that succeeds over what is declared. -/
theorem passes_of_deriveNames (h : (deriveNames apps resources locators).outcome = .ok names) :
    (∃ accounts, (cloudAccounts apps.homes locators).outcome = .ok accounts) ∧
      ∃ declared, resources.declarations.mapM (fun d => (declarationEntries locators d).outcome) =
        .ok declared := by
  rw [deriveNames, Reported.outcome_bind, Reported.forM_report, bind_eq_ok_iff] at h
  obtain ⟨_, -, h⟩ := h
  rw [Reported.outcome_bind, bind_eq_ok_iff] at h
  obtain ⟨accounts, haccounts, h⟩ := h
  rw [Reported.outcome_bind, Reported.outcome_mapM, bind_eq_ok_iff] at h
  obtain ⟨declared, hdeclared, -⟩ := h
  exact ⟨⟨accounts, haccounts⟩, declared, hdeclared⟩

/-- A run that names an application has a unit. -/
theorem hasUnit_of_declares_app (h : (deriveNames apps resources locators).outcome = .ok names)
    (happ : apps.Declares app) : locators.HasUnit := by
  obtain ⟨⟨accounts, haccounts⟩, -⟩ := passes_of_deriveNames h
  rw [cloudAccounts, Reported.outcome_bind, bind_eq_ok_iff] at haccounts
  obtain ⟨pairs, hpairs, -⟩ := haccounts
  rw [Reported.outcome_mapM] at hpairs
  obtain ⟨pair, -, hpair⟩ :=
    exists_of_mapM_eq_ok hpairs (OrderedMap.mem_keys.2 (Apps.declares_iff.1 happ))
  rw [Reported.outcome_bind, AppName.outcome_cloudAccount] at hpair
  refine Decidable.byContradiction fun hunit => ?_
  rw [if_neg hunit] at hpair
  cases hpair

/-- A run that names a queue has a unit. -/
theorem hasUnit_of_declares_queue (h : (deriveNames apps resources locators).outcome = .ok names)
    (hqueue : resources.Declares .queues owner name) : locators.HasUnit := by
  obtain ⟨-, declared, hdeclared⟩ := passes_of_deriveNames h
  obtain ⟨_, -, hfound⟩ := exists_of_mapM_eq_ok hdeclared (Resources.mem_declarations.2 hqueue)
  rw [declarationEntries, Reported.outcome_bind, Reported.outcome_silently,
    bind_eq_ok_iff] at hfound
  obtain ⟨entries, hentries, -⟩ := hfound
  rw [Kind.entries_eq] at hentries
  refine Decidable.byContradiction fun hunit => ?_
  rw [if_pos ⟨rfl, hunit⟩] at hentries
  cases hentries

theorem nameable_of_deriveNames (h : (deriveNames apps resources locators).outcome = .ok names) :
    Nameable apps resources locators := by
  by_cases hunit : locators.HasUnit
  · exact .inl hunit
  · exact .inr ⟨fun _ happ => hunit (hasUnit_of_declares_app h happ),
      fun _ _ hqueue => hunit (hasUnit_of_declares_queue h hqueue)⟩

end Outcome

/-! ## What the steps report -/

/-- A username that the provider refuses is reported. -/
def AppName.findings (app : AppName) : Diagnostics :=
  if Username.valid app.username then [] else [.invalidAccountName app app.username]

theorem AppName.findings_eq_nil_iff {app : AppName} :
    app.findings = [] ↔ Username.valid app.username = true := by
  rw [findings]
  split <;> simp [*]

/-- The finding does not depend on whether the account can be named. -/
theorem AppName.diagnostics_cloudAccount (app : AppName) (locators : Locators) :
    (app.cloudAccount locators).diagnostics = app.findings := by
  rw [cloudAccount, findings, Template.SharedProject.resolve_eq]
  split <;> split <;> rfl

/-- Resources of a kind can be declared. -/
def Kind.Declarable (kind : Kind) : Prop := kind = .buckets ∨ kind = .queues

instance (kind : Kind) : Decidable kind.Declarable :=
  inferInstanceAs (Decidable (kind = .buckets ∨ kind = .queues))

/-- A kind under which nothing can be declared is reported. -/
def Kind.findings (kind : Kind) : Diagnostics :=
  if kind.Declarable then [] else [.unsupportedKind kind.text]

theorem Kind.findings_eq_nil_iff {kind : Kind} : kind.findings = [] ↔ kind.Declarable := by
  rw [findings]
  split <;> simp [*]

section Steps

variable {apps : Apps} {resources : Resources} {locators : Locators}

theorem AppName.cloudAccount_eq (hunit : locators.HasUnit) (app : AppName) :
    app.cloudAccount locators = ⟨app.findings, .ok (locators.memberOf app.username)⟩ := by
  refine Reported.ext (app.diagnostics_cloudAccount locators) ?_
  rw [outcome_cloudAccount, if_pos hunit]

theorem declarationEntries_eq {kind : Kind} {owner : OwnerKey} {name : ResourceName}
    (hentries : kind.entries owner name locators = .ok (locators.entries kind owner name)) :
    declarationEntries locators (kind, owner, name) =
      ⟨kind.findings, .ok (locators.entries kind owner name)⟩ := by
  rw [declarationEntries, hentries]
  cases kind <;> rfl

end Steps

/-! ## What a run reports -/

/-- Everything that deriving names reports. -/
def namingFindings (apps : Apps) (resources : Resources) : Diagnostics :=
  apps.conflicts ++ (apps.homes.keys.flatMap AppName.findings ++
    resources.declarations.flatMap fun d => d.1.findings)

section Runs

variable {apps : Apps} {resources : Resources} {locators : Locators}

theorem cloudAccounts_eq (h : Nameable apps resources locators) :
    cloudAccounts apps.homes locators =
      ⟨apps.homes.keys.flatMap AppName.findings, .ok (apps.cloudAccounts locators)⟩ := by
  have hpairs : (apps.homes.keys.mapM fun app => do return (app, ← app.cloudAccount locators)) =
      ⟨apps.homes.keys.flatMap AppName.findings,
        .ok (apps.homes.keys.map fun app => (app, locators.memberOf app.username))⟩ := by
    refine Reported.mapM_eq fun app happ => ?_
    have hdeclares : apps.Declares app := Apps.declares_iff.2 (OrderedMap.mem_keys.1 happ)
    rw [AppName.cloudAccount_eq (h.hasUnit_of_app hdeclares)]
    exact Reported.ext (List.append_nil _) rfl
  rw [cloudAccounts, hpairs]
  exact Reported.ext (List.append_nil _) rfl

theorem mapM_declarationEntries_eq (h : Nameable apps resources locators) :
    resources.declarations.mapM (declarationEntries locators) =
      ⟨resources.declarations.flatMap fun d => d.1.findings,
        .ok (resources.declarations.map fun d => locators.entries d.1 d.2.1 d.2.2)⟩ := by
  refine Reported.mapM_eq fun ⟨kind, owner, name⟩ hd => declarationEntries_eq ?_
  exact h.entries_eq (Resources.mem_declarations.1 hd)

theorem accountEntries_eq (h : Nameable apps resources locators) :
    accountEntries (apps.cloudAccounts locators) locators =
      .ok (locators.accountEntries (apps.cloudAccounts locators)) := by
  refine mapM_eq_ok fun ⟨app, account⟩ ha => ?_
  have hget := OrderedMap.mem_toList.1 ha
  rw [Apps.get?_cloudAccounts, Option.map_eq_some_iff] at hget
  obtain ⟨space, hhome, -⟩ := hget
  dsimp only
  rw [Member.fullName_eq, if_pos (h.hasUnit_of_app (Apps.declares_iff.2 ⟨space, hhome⟩))]
  rfl

/-- **A run that can name everything**, with what it reports. -/
theorem deriveNames_eq (h : Nameable apps resources locators) :
    deriveNames apps resources locators =
      ⟨namingFindings apps resources, .ok (.of apps resources locators)⟩ := by
  rw [deriveNames, Reported.forM_report, cloudAccounts_eq h, Reported.bind_ok, Reported.bind_ok,
    mapM_declarationEntries_eq h, Reported.bind_ok, accountEntries_eq h]
  exact Reported.ext (congrArg (fun ds => apps.conflicts ++ (_ ++ ds)) (List.append_nil _)) rfl

theorem exists_deriveNames_iff :
    (∃ names, (deriveNames apps resources locators).outcome = .ok names) ↔
      Nameable apps resources locators := by
  refine ⟨?_, fun h => ?_⟩
  · rintro ⟨names, h⟩
    exact nameable_of_deriveNames h
  · rw [deriveNames_eq h]
    exact ⟨_, rfl⟩

/-- **A run that succeeds has one possible result.** -/
theorem deriveNames_eq_ok {names : Names}
    (h : (deriveNames apps resources locators).outcome = .ok names) :
    names = .of apps resources locators := by
  rw [deriveNames_eq (nameable_of_deriveNames h)] at h
  exact (Except.ok.inj h).symm

end Runs

/-! ## When nothing is reported -/

/-- Two listings of one application stand in one namespace. -/
def SameHome (l l' : NamespaceName × AppName) : Prop := l.2 = l'.2 → l.1 = l'.1

instance : Std.Symm SameHome := ⟨fun _ _ h hkey => (h hkey.symm).symm⟩

/-- Nothing changes hands while every listing agrees with the home that its application has already,
and with every other listing of it. -/
theorem conflicts_eq_nil_iff {listings : List (NamespaceName × AppName)} {homes : Homes} :
    conflicts homes listings = [] ↔
      (∀ l ∈ listings, ∀ space, homes.get? l.2 = some space → space = l.1) ∧
        listings.Pairwise SameHome := by
  induction listings generalizing homes with
  | nil => simp [conflicts]
  | cons l rest ih =>
    obtain ⟨space, app⟩ := l
    have hstep : conflicts homes ((space, app) :: rest) = [] ↔
        (∀ previous, homes.get? app = some previous → previous = space) ∧
          conflicts (homes.insert app space) rest = [] := by
      rw [conflicts]
      cases homes.get? app with
      | none => simp
      | some previous => by_cases h : previous = space <;> simp [h]
    rw [hstep, ih, List.forall_mem_cons, List.pairwise_cons]
    refine ⟨?_, ?_⟩
    · rintro ⟨hhead, hrest, hpairwise⟩
      -- a later listing of the application finds the home that this one leaves
      have hsame : ∀ l ∈ rest, SameHome (space, app) l := fun l hl happ =>
        hrest l hl space (by simp [OrderedMap.get?_insert, ← happ])
      refine ⟨⟨hhead, fun l hl previous hprevious => ?_⟩, hsame, hpairwise⟩
      by_cases happ : l.2 = app
      · exact (hhead previous (happ ▸ hprevious)).trans (hsame l hl happ.symm)
      · exact hrest l hl previous (by simpa [OrderedMap.get?_insert, happ] using hprevious)
    · rintro ⟨⟨hhead, hrest⟩, hsame, hpairwise⟩
      refine ⟨hhead, fun l hl previous hprevious => ?_, hpairwise⟩
      rw [OrderedMap.get?_insert] at hprevious
      split at hprevious
      next happ => exact (Option.some_inj.1 hprevious).symm.trans (hsame l hl happ.symm)
      next => exact hrest l hl previous hprevious

/-- Nothing changes hands exactly if no application is listed in two namespaces. -/
theorem Apps.conflicts_eq_nil_iff {apps : Apps} :
    apps.conflicts = [] ↔
      ∀ app space space', apps.Lists space app → apps.Lists space' app → space = space' := by
  rw [conflicts, GrantCompiler.conflicts_eq_nil_iff]
  refine ⟨?_, fun h => ⟨by simp, ?_⟩⟩
  · rintro ⟨-, hpairwise⟩ app space space' hlists hlists'
    have hsame := hpairwise.forall_of_forall (fun _ _ _ => rfl) (mem_listings.2 hlists)
      (mem_listings.2 hlists')
    exact hsame rfl
  · refine List.pairwise_of_forall_mem_list ?_
    rintro ⟨space, app⟩ hl ⟨space', app'⟩ hl' rfl
    exact h app space space' (mem_listings.1 hl) (mem_listings.1 hl')

theorem namingFindings_eq_nil_iff {apps : Apps} {resources : Resources} :
    namingFindings apps resources = [] ↔
      (∀ app space space', apps.Lists space app → apps.Lists space' app → space = space') ∧
      (∀ app, apps.Declares app → Username.valid app.username = true) ∧
      ∀ kind owner name, resources.Declares kind owner name → kind = .buckets ∨ kind = .queues := by
  simp only [namingFindings, List.append_eq_nil_iff, List.flatMap_eq_nil_iff,
    Apps.conflicts_eq_nil_iff, OrderedMap.mem_keys, ← Apps.declares_iff,
    AppName.findings_eq_nil_iff, Kind.findings_eq_nil_iff, Kind.Declarable, Prod.forall,
    Resources.mem_declarations]

end GrantCompiler
