import GrantCompiler.Proofs.Compilation.Outcome
import GrantCompiler.Proofs.Naming.Separation

/-!
# Who may act as an application

The policy on an application's own account has two roles: the account may issue tokens for itself,
and a cluster account may act as it.  Nothing but the applications' identities reaches that policy,
as long as the usage does not ask for roles on accounts: no declared resource has the path of an
account (`Names.get?_fullNames_of_ne_accountPath`).  Which identities reach it is decided by the
username alone (`holds_accountPath_iff`).

So an application shares its account with every application of the same username.  There are such
applications, `s-x` beside `scheduled-x`, and where they live in different namespaces both cluster
accounts may act as the one cloud account.
-/

set_option autoImplicit false

namespace GrantCompiler

/-- No application's usage has an entry for a kind. -/
def Usage.Omits (usage : Usage) (kind : Kind) : Prop :=
  ∀ app u, usage.get? app = some u → u.get? kind = none

/-- The cluster account of some application with this username acts as this subject. -/
def Apps.Acts (apps : Apps) (locators : Locators) (username : String) (subject : Member) : Prop :=
  ∃ app space, apps.homes.get? app = some space ∧ app.username = username ∧
    (app.clusterAccount space).subject locators = .ok subject

section Compiled

variable {apps : Apps} {document : UsageDocument} {locators : Locators} {c : Compilation}

/-! ## What reaches the policy of an account -/

/-- Nothing that is declared has the path of an account. -/
theorem Names.get?_fullNames_of_ne_accountPath {resources : Resources} {kind : Kind}
    (hkind : kind ≠ .serviceAccounts) (name : ResourceName) (username : String) :
    (of apps resources locators).fullNames.get? kind name ≠
      some (locators.accountPath (locators.memberOf username)) := by
  intro h
  rw [get?_fullNames_of hkind] at h
  obtain ⟨e, he, hpair⟩ := List.mem_map.1 (OrderedMap.mem_of_lastValue_eq_some h)
  have hpath : e.fullName = locators.accountPath (locators.memberOf username) :=
    congrArg Prod.snd hpair
  obtain ⟨d, -, he⟩ := List.mem_flatMap.1 he
  rcases Locators.mem_entries.1 he with ⟨-, rfl⟩ | ⟨-, half, rfl⟩
  · exact Locators.accountPath_ne_bucketPath _ _ hpath.symm
  · exact Locators.accountPath_ne_queuePath _ _ _ _ hpath.symm

theorem Occurrence.kind_eq_serviceAccounts {o : Occurrence}
    (h : .serviceAccounts ∈ o.kind.effective) : o.kind = .serviceAccounts := by
  obtain ⟨kind, operation, name⟩ := o
  cases kind <;> simp [Kind.effective] at h
  rfl

/-- Who holds what on the account of a declared application. -/
theorem holds_accountPath_iff (h : compile apps document locators = .ok c)
    (homits : document.usage.Omits .serviceAccounts) {app : AppName} (happ : apps.Declares app)
    {role : RoleName} {member : Member} :
    c.policies.Holds (locators.accountPath (locators.memberOf app.username)) role member ↔
      role = tokenCreator ∧ member = locators.memberOf app.username ∨
        role = workloadIdentityUser ∧ apps.Acts locators app.username member := by
  rw [holds_iff_lists_or_identifies (policies_of_compile h), names_of_compile h]
  refine ⟨?_, ?_⟩
  · rintro (⟨user, o, kind, hlists, -, -, hkind, hresource, -⟩ |
      ⟨other, cloud, cluster, hid, hrole⟩)
    · -- the usage reaches no account
      exfalso
      by_cases hserviceAccounts : kind = .serviceAccounts
      · subst hserviceAccounts
        obtain ⟨u, operations, names, hu, hoperations, -, -⟩ := hlists
        rw [Occurrence.kind_eq_serviceAccounts hkind, homits user u hu] at hoperations
        cases hoperations
      · exact Names.get?_fullNames_of_ne_accountPath hserviceAccounts _ _ hresource
    · obtain ⟨space, hhome, rfl, rfl, hpath⟩ := Names.identifies_of_iff.1 hid
      have husername := Locators.memberOf_inj (Locators.accountPath_inj hpath)
      rw [husername]
      exact hrole.imp_right fun ⟨hrole, hsubject⟩ => ⟨hrole, other, space, hhome, rfl, hsubject⟩
  · rintro (⟨rfl, rfl⟩ | ⟨rfl, other, space, hhome, husername, hsubject⟩)
    · obtain ⟨space, hhome⟩ := Apps.declares_iff.1 happ
      exact .inr ⟨app, _, _, Names.identifies_of_iff.2 ⟨space, hhome, rfl, rfl, rfl⟩,
        .inl ⟨rfl, rfl⟩⟩
    · rw [← husername]
      exact .inr ⟨other, _, _, Names.identifies_of_iff.2 ⟨space, hhome, rfl, rfl, rfl⟩,
        .inr ⟨rfl, hsubject⟩⟩

/-! ## The policy of an account -/

/-- The policy with the two roles on an account. -/
def Policy.ofAccount (resource : FullName) (cloud : Member) (actors : OrderedSet Member) :
    Policy where
  resource := resource
  held := (OrderedMap.empty.insert tokenCreator ⟨tokenCreator, OrderedSet.empty.insert cloud⟩).insert
    workloadIdentityUser ⟨workloadIdentityUser, actors⟩

section OfAccount

variable {resource : FullName} {cloud : Member} {actors : OrderedSet Member}

theorem Policy.binding?_ofAccount (role : RoleName) :
    (ofAccount resource cloud actors).binding? role =
      if role = workloadIdentityUser then some ⟨workloadIdentityUser, actors⟩
      else if role = tokenCreator then some ⟨tokenCreator, OrderedSet.empty.insert cloud⟩
      else none := by
  rw [binding?, ofAccount, OrderedMap.get?_insert, OrderedMap.get?_insert, OrderedMap.get?_empty]

theorem Policy.mem_membersOf_ofAccount {role : RoleName} {member : Member} :
    member ∈ (ofAccount resource cloud actors).membersOf role ↔
      role = tokenCreator ∧ member = cloud ∨ role = workloadIdentityUser ∧ member ∈ actors := by
  have hne : tokenCreator ≠ workloadIdentityUser := by decide
  rw [membersOf, binding?_ofAccount]
  by_cases hactor : role = workloadIdentityUser
  · subst hactor
    simp [hne.symm]
  · by_cases hcreator : role = tokenCreator
    · subst hcreator
      simp [hne]
    · simp [hactor, hcreator]

theorem Policy.wellFormed_ofAccount (h : ∃ actor, actor ∈ actors) :
    (ofAccount resource cloud actors).WellFormed := by
  have hcases : ∀ role b, (ofAccount resource cloud actors).binding? role = some b →
      role = workloadIdentityUser ∧ b = ⟨workloadIdentityUser, actors⟩ ∨
        role = tokenCreator ∧ b = ⟨tokenCreator, OrderedSet.empty.insert cloud⟩ := by
    intro role b hb
    rw [binding?_ofAccount] at hb
    split at hb
    next hrole => exact .inl ⟨hrole, (Option.some.inj hb).symm⟩
    next =>
      split at hb
      next hrole => exact .inr ⟨hrole, (Option.some.inj hb).symm⟩
      next => cases hb
  constructor
  · intro role b hb
    rcases hcases role b hb with ⟨rfl, rfl⟩ | ⟨rfl, rfl⟩ <;> rfl
  · intro role b hb
    rcases hcases role b hb with ⟨-, rfl⟩ | ⟨-, rfl⟩
    · exact h
    · exact ⟨cloud, by simp⟩

theorem Policy.bindings_ofAccount :
    (ofAccount resource cloud actors).bindings =
      [⟨tokenCreator, OrderedSet.empty.insert cloud⟩, ⟨workloadIdentityUser, actors⟩] := rfl

end OfAccount

/-- The policy on an application's own account has two bindings: one for the account itself and one
for the actors.  The subject is that of the application's own cluster account. -/
def Compilation.AccountPolicy (c : Compilation) (locators : Locators) (app : AppName)
    (subject : Member) (actors : OrderedSet Member) : Prop :=
  ∃ cloud cluster resource policy, c.names.Identifies app cloud cluster resource ∧
    cluster.subject locators = .ok subject ∧ c.policies.get? resource = some policy ∧
      policy.bindings =
        [⟨tokenCreator, OrderedSet.empty.insert cloud⟩, ⟨workloadIdentityUser, actors⟩]

theorem Compilation.AccountPolicy.unique {app : AppName} {subject subject' : Member}
    {actors actors' : OrderedSet Member} (h : c.AccountPolicy locators app subject actors)
    (h' : c.AccountPolicy locators app subject' actors') :
    subject = subject' ∧ actors = actors' := by
  obtain ⟨_, cluster, resource, policy, ⟨-, hcluster, hresource⟩, hsubject, hpolicy, hbindings⟩ := h
  obtain ⟨_, cluster', resource', policy', ⟨-, hcluster', hresource'⟩, hsubject', hpolicy',
    hbindings'⟩ := h'
  rw [hcluster] at hcluster'
  cases hcluster'
  rw [hsubject] at hsubject'
  cases hsubject'
  rw [hresource] at hresource'
  cases hresource'
  rw [hpolicy] at hpolicy'
  cases hpolicy'
  rw [hbindings] at hbindings'
  cases hbindings'
  exact ⟨rfl, rfl⟩

theorem exists_actors (h : compile apps document locators = .ok c)
    (homits : document.usage.Omits .serviceAccounts) {app : AppName} (happ : apps.Declares app) :
    ∃ actors : OrderedSet Member,
      ∀ member, member ∈ actors ↔ apps.Acts locators app.username member := by
  have hne : workloadIdentityUser ≠ tokenCreator := by decide
  let policy := c.policies.policyOn (locators.accountPath (locators.memberOf app.username))
  refine ⟨policy.membersOf workloadIdentityUser, fun member => ?_⟩
  rw [← Policies.holds_iff, holds_accountPath_iff h homits happ]
  simp [hne]

theorem exists_accountPolicy (h : compile apps document locators = .ok c)
    (homits : document.usage.Omits .serviceAccounts) {app : AppName} {space : NamespaceName}
    (hhome : apps.homes.get? app = some space) :
    ∃ subject actors, c.AccountPolicy locators app subject actors ∧
      (app.clusterAccount space).subject locators = .ok subject ∧
        ∀ member, member ∈ actors ↔ apps.Acts locators app.username member := by
  have happ : apps.Declares app := Apps.declares_iff.2 ⟨space, hhome⟩
  have hpolicies := policies_of_compile h
  have hid := identifies_of_compile h hhome
  obtain ⟨subject, hsubject⟩ := exists_subject hpolicies hid
  obtain ⟨actors, hactors⟩ := exists_actors h homits happ
  have hacts : subject ∈ actors := (hactors subject).2 ⟨app, space, hhome, rfl, hsubject⟩
  let account := locators.memberOf app.username
  have hwell : (Policy.ofAccount (locators.accountPath account) account actors).WellFormed :=
    Policy.wellFormed_ofAccount ⟨subject, hacts⟩
  have haddresses : c.policies.Addresses (locators.accountPath account) :=
    (addresses_iff_lists_or_identifies hpolicies).2 (.inr ⟨app, _, _, hid⟩)
  have hpolicy := (reachable_of_derivePolicies hpolicies).wellFormed.get?_eq_of_holds_iff hwell
    haddresses fun role member => by
      rw [Policy.mem_membersOf_ofAccount, hactors member]
      exact holds_accountPath_iff h homits happ
  exact ⟨subject, actors, ⟨_, _, _, _, hid, hsubject, hpolicy, Policy.bindings_ofAccount⟩,
    hsubject, hactors⟩

/-- An application has its account to itself exactly if all of its username live in one
namespace. -/
theorem eq_singleton_iff_of_acts {app : AppName} {space : NamespaceName} {subject : Member}
    {actors : OrderedSet Member} (hhome : apps.homes.get? app = some space)
    (hsubject : (app.clusterAccount space).subject locators = .ok subject)
    (hactors : ∀ member, member ∈ actors ↔ apps.Acts locators app.username member) :
    actors = OrderedSet.empty.insert subject ↔
      ∀ other, apps.Declares other → app.Abbreviates other ∨ other.Abbreviates app →
        apps.homes.get? other = apps.homes.get? app := by
  -- the unit that one subject needs is there for all of them
  have hunit : ∀ account : ClusterAccount,
      account.subject locators = .ok (locators.subjectOf account) := by
    intro account
    rw [ClusterAccount.subject_eq] at hsubject ⊢
    split at hsubject
    next hunit => rw [if_pos hunit]
    next => cases hsubject
  rw [hunit] at hsubject
  cases hsubject
  refine ⟨fun hactor other hother habbreviates => ?_, fun hsame => ?_⟩
  · obtain ⟨space', hhome'⟩ := Apps.declares_iff.1 hother
    have husername : other.username = app.username :=
      (AppName.username_eq_iff.2 (.inr habbreviates)).symm
    have hmem : locators.subjectOf (other.clusterAccount space') ∈ actors :=
      (hactors _).2 ⟨other, space', hhome', husername, hunit _⟩
    rw [hactor] at hmem
    have hsubject : locators.subjectOf (other.clusterAccount space') =
        locators.subjectOf (app.clusterAccount space) := by simpa using hmem
    rw [hhome, hhome', AppName.clusterAccount_inj husername (Locators.subjectOf_inj hsubject)]
  · refine OrderedSet.ext_mem fun member => ?_
    rw [hactors member, OrderedSet.mem_insert]
    refine ⟨?_, ?_⟩
    · rintro ⟨other, space', hhome', husername, hmember⟩
      rw [hunit] at hmember
      cases hmember
      left
      have hspace : apps.homes.get? other = apps.homes.get? app := by
        rcases AppName.username_eq_iff.1 husername with rfl | habbreviates
        · rfl
        · exact hsame other (Apps.declares_iff.2 ⟨space', hhome'⟩) habbreviates.symm
      rw [hhome, hhome'] at hspace
      cases hspace
      rw [AppName.clusterAccount, AppName.clusterAccount, husername]
    · rintro (rfl | hmem)
      · exact ⟨app, space, hhome, rfl, hunit _⟩
      · exact absurd hmem (OrderedSet.not_mem_empty member)

/-- **Who may act as an application.**  As long as the usage leaves accounts alone, the policy on
the account of every declared application has two bindings: the account itself may issue tokens, and
the cluster accounts of all applications with its username may act as it.  These are its own cluster
account alone exactly if no application that its username abbreviates, or that abbreviates it, lives
in another namespace. -/
theorem compile_accountPolicy (h : compile apps document locators = .ok c)
    (homits : document.usage.Omits .serviceAccounts) {app : AppName} (happ : apps.Declares app) :
    ∃ subject actors, c.AccountPolicy locators app subject actors ∧
      (∀ member, member ∈ actors ↔ apps.Acts locators app.username member) ∧
        (actors = OrderedSet.empty.insert subject ↔
          ∀ other, apps.Declares other → app.Abbreviates other ∨ other.Abbreviates app →
            apps.homes.get? other = apps.homes.get? app) := by
  obtain ⟨space, hhome⟩ := Apps.declares_iff.1 happ
  obtain ⟨subject, actors, hpolicy, hsubject, hactors⟩ := exists_accountPolicy h homits hhome
  exact ⟨subject, actors, hpolicy, hactors, eq_singleton_iff_of_acts hhome hsubject hactors⟩

end Compiled

/-! ### Two applications of one username -/

namespace SharedUsername

/-- Two namespaces with an application each. -/
def apps : Apps := .ofList [(⟨"ns1"⟩, [⟨"s-x"⟩]), (⟨"ns2"⟩, [⟨"scheduled-x"⟩])]

/-- Nothing is declared and nothing used. -/
def document : UsageDocument := ⟨.empty, .empty, .empty⟩

theorem omits : document.usage.Omits .serviceAccounts := by
  intro app u h
  cases h

theorem declares : apps.Declares ⟨"s-x"⟩ := ⟨⟨"ns1"⟩, _, rfl, List.mem_singleton_self _⟩

/-- The cluster account of the other application may act as this one. -/
theorem other_acts : ∃ c subject actors, compile apps document (.withUnit "x") = .ok c ∧
    c.AccountPolicy (.withUnit "x") ⟨"s-x"⟩ subject actors ∧
      ⟨"gke-shr-dev-x.svc.id.goog[ns2/s-x-sa]"⟩ ∈ actors := by
  have h : compile apps document (.withUnit "x") = .ok _ := rfl
  obtain ⟨subject, actors, hpolicy, hactors, -⟩ := compile_accountPolicy h omits declares
  exact ⟨_, subject, actors, h, hpolicy,
    (hactors _).2 ⟨⟨"scheduled-x"⟩, ⟨"ns2"⟩, rfl, rfl, rfl⟩⟩

/-- So an account is not its application's own. -/
theorem not_own_account : ¬ ∀ (apps : Apps) (document : UsageDocument) (locators : Locators)
    (c : Compilation) (app : AppName), compile apps document locators = .ok c →
      document.usage.Omits .serviceAccounts → apps.Declares app →
        ∃ subject, c.AccountPolicy locators app subject (OrderedSet.empty.insert subject) := by
  intro hall
  have h : compile apps document (.withUnit "x") = .ok _ := rfl
  have hhome : apps.homes.get? ⟨"s-x"⟩ = some ⟨"ns1"⟩ := rfl
  obtain ⟨subject, hown⟩ := hall apps document (.withUnit "x") _ ⟨"s-x"⟩ h omits declares
  obtain ⟨subject', actors, hpolicy, hsubject, hactors⟩ := exists_accountPolicy h omits hhome
  obtain ⟨rfl, rfl⟩ := hown.unique hpolicy
  have habbreviates : AppName.Abbreviates ⟨"s-x"⟩ ⟨"scheduled-x"⟩ := ⟨"x-sa", rfl, rfl⟩
  have hother : apps.homes.get? ⟨"scheduled-x"⟩ = some ⟨"ns2"⟩ := rfl
  have hsame := (eq_singleton_iff_of_acts hhome hsubject hactors).1 rfl _
    (Apps.declares_iff.2 ⟨_, hother⟩) (.inl habbreviates)
  rw [hhome, hother] at hsame
  exact absurd hsame (by decide)

end SharedUsername

end GrantCompiler
