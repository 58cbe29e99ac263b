import GrantCompiler.Proofs.Aggregation.Identity
import GrantCompiler.Proofs.Compilation.Impersonation
import GrantCompiler.Proofs.Compilation.Rearrangement
import GrantCompiler.Proofs.Naming.Newcomer

/-!
# Adding an application

An application that nobody uses and that uses nothing changes one thing: the policy on its own
account, which it gets, or which it joins if it comes to the account of another.  Every other
request finds the names it found before and makes the grants it made before (`made_of_agreesBut`),
so the policies are those of the old documents with two grants more (`eq_addAll_of_made_iff`).  They
have grown by these (`Policies.GrowsBy`): on the account two members get a role, nobody loses one,
and all other policies are left alone.
-/

set_option autoImplicit false

namespace GrantCompiler

/-- An application has no usage, and its account is not in any. -/
structure Usage.Ignores (usage : Usage) (app : AppName) : Prop where
  get?_eq_none : usage.get? app = none
  name_ne : ∀ user o, usage.Lists user o → o.kind = .serviceAccounts → o.name ≠ app.asResource

/-! ## Policies -/

section Policies

variable {usage : Usage} {names names' : Names} {permissions : Permissions} {locators : Locators}
  {app user : AppName} {o : Occurrence} {m m' : Policies}

/-- What others use has the full names it had. -/
theorem Names.AgreesBut.get?_fullNames_of_lists (h : names.AgreesBut names' app)
    (hignores : usage.Ignores app) (hlists : usage.Lists user o) {kind : Kind}
    (hkind : kind ∈ o.kind.effective) :
    names'.fullNames.get? kind o.name = names.fullNames.get? kind o.name := by
  refine h.get?_fullNames kind o.name ?_
  rintro rfl
  exact hignores.name_ne user o hlists (Occurrence.kind_eq_serviceAccounts hkind)

theorem Usage.Ignores.ne_of_lists (h : usage.Ignores app) (hlists : usage.Lists user o) :
    user ≠ app := by
  rintro rfl
  obtain ⟨u, -, -, hu, -⟩ := hlists
  rw [h.get?_eq_none] at hu
  cases hu

/-- The applications with an identity are the old ones and the new one. -/
theorem Names.AgreesBut.identifies_iff (h : names.AgreesBut names' app) {other : AppName}
    (hne : other ≠ app) {cloud : Member} {cluster : ClusterAccount} {path : FullName} :
    names'.Identifies other cloud cluster path ↔ names.Identifies other cloud cluster path := by
  have hname : Kind.serviceAccounts = .serviceAccounts → other.asResource ≠ app.asResource :=
    fun _ heq => hne (AppName.asResource_inj heq)
  rw [Identifies, Identifies, h.get?_cloudAccounts other hne, h.get?_clusterAccounts other hne,
    h.get?_fullNames .serviceAccounts other.asResource hname]

/-- The grants of the two runs differ by those on the new account. -/
theorem made_of_agreesBut (h : names.AgreesBut names' app) (hignores : usage.Ignores app)
    (hnew : names.cloudAccounts.get? app = none) {cloud : Member} {cluster : ClusterAccount}
    {path : FullName} (hid : names'.Identifies app cloud cluster path) {subject : Member}
    (hsubject : cluster.subject locators = .ok subject) {g : Grant} :
    Made usage names' permissions locators g ↔
      Made usage names permissions locators g ∨ g ∈ accountPair path cloud subject := by
  rw [made_iff, made_iff, mem_accountPair, or_assoc]
  refine or_congr ?_ ?_
  · -- usage, application by application
    refine exists_congr fun user => exists_congr fun member => exists_congr fun o =>
      exists_congr fun kind => exists_congr fun resource => and_congr_right fun hlists => ?_
    rw [h.get?_cloudAccounts user (hignores.ne_of_lists hlists)]
    refine and_congr_right fun _ => and_congr_right fun _ => and_congr_right fun hkind => ?_
    rw [h.get?_fullNames_of_lists hignores hlists hkind]
  · refine ⟨?_, ?_⟩
    · rintro ⟨other, cloud', cluster', path', subject', hid', hsubject', hg⟩
      by_cases hne : other = app
      · subst hne
        obtain ⟨hcloud, hcluster, hpath⟩ := hid
        obtain ⟨hcloud', hcluster', hpath'⟩ := hid'
        cases hcloud.symm.trans hcloud'
        cases hcluster.symm.trans hcluster'
        cases hpath.symm.trans hpath'
        cases hsubject.symm.trans hsubject'
        exact .inr hg
      · exact .inl ⟨other, cloud', cluster', path', subject', (h.identifies_iff hne).1 hid',
          hsubject', hg⟩
    · rintro (⟨other, cloud', cluster', path', subject', hid', hsubject', hg⟩ | hg)
      · have hne : other ≠ app := by
          rintro rfl
          rw [Names.Identifies, hnew] at hid'
          cases hid'.1
        exact ⟨other, cloud', cluster', path', subject', (h.identifies_iff hne).2 hid', hsubject',
          hg⟩
      · exact ⟨app, cloud, cluster, path, subject, hid, hsubject, hg⟩

/-- Policies whose grants differ by some more are the old ones with these made as well. -/
theorem eq_addAll_of_made_iff {grants : List Grant}
    (h : (derivePolicies usage names permissions locators).outcome = .ok m)
    (h' : (derivePolicies usage names' permissions locators).outcome = .ok m')
    (hmade : ∀ g, Made usage names' permissions locators g ↔
      Made usage names permissions locators g ∨ g ∈ grants) : m' = m.addAll grants := by
  have hm : m.WellFormed := (reachable_of_derivePolicies h).wellFormed
  have hm' : m'.WellFormed := (reachable_of_derivePolicies h').wellFormed
  refine hm'.eq_of_iff (hm.addAll grants) (fun resource => ?_) (fun resource role member => ?_)
  · rw [Policies.addresses_addAll, addresses_iff_made h, addresses_iff_made h']
    simp only [hmade, or_and_right, exists_or]
  · rw [Policies.holds_addAll, holds_iff_made h, holds_iff_made h']
    simp only [hmade, or_and_right, exists_or]

/-- Of the two grants, each gives one role to one member. -/
theorem Policies.GrowsBy.holds_iff_of_accountPair {path : FullName} {cloud subject : Member}
    (h : m.GrowsBy (accountPair path cloud subject) m') {role : RoleName} {member : Member} :
    m'.Holds path role member ↔ m.Holds path role member ∨
      (role = tokenCreator ∧ member = cloud ∨ role = workloadIdentityUser ∧ member = subject) := by
  rw [h.holds_iff]
  simp [accountPair, Grant.Gives]

/-! ## Findings -/

/-- Usage is reported on as before. -/
theorem Names.AgreesBut.usage_findings_eq (h : names.AgreesBut names' app)
    (hignores : usage.Ignores app) :
    usage.findings names' permissions = usage.findings names permissions := by
  refine Usage.findings_congr (fun user u hu => h.get?_cloudAccounts user ?_)
    fun user member o hmember hlists => ?_
  · rintro rfl
    rw [hignores.get?_eq_none] at hu
    cases hu
  · have hnames : o.kind.effective.all (fun kind => (names'.fullNames.get? kind o.name).isSome) =
        o.kind.effective.all fun kind => (names.fullNames.get? kind o.name).isSome := by
      rw [Bool.eq_iff_iff, List.all_eq_true, List.all_eq_true]
      refine forall_congr' fun kind => forall_congr' fun hkind => ?_
      rw [h.get?_fullNames_of_lists hignores hlists hkind]
    rw [Occurrence.findings, Occurrence.findings, hnames]

end Policies

/-! ## Compiling -/

section Compiled

variable {apps apps' : Apps} {document : UsageDocument} {locators : Locators}
  {space : NamespaceName} {app : AppName}

/-- **A new application touches its own account only.**  Both documents compile.  Nobody else's
names change, the policies grow by two grants on the new account and no other policy changes, and at
most the new username is reported. -/
theorem compile_of_gains (hunit : locators.HasUnit) (hgains : apps.Gains space app apps')
    (hnew : ¬ apps.Declares app) (hignores : document.usage.Ignores app) :
    ∃ c c', compile apps document locators = .ok c ∧ compile apps' document locators = .ok c' ∧
      c.names.AgreesBut c'.names app ∧
      ∃ cloud path subject, c'.names.Identifies app cloud (app.clusterAccount space) path ∧
        (app.clusterAccount space).subject locators = .ok subject ∧
        (∀ resource, resource ≠ path → c'.policies.get? resource = c.policies.get? resource) ∧
        c'.policies = c.policies.addAll
          [⟨path, [tokenCreator], cloud⟩, ⟨path, [workloadIdentityUser], subject⟩] ∧
        c.policies.GrowsBy
          [⟨path, [tokenCreator], cloud⟩, ⟨path, [workloadIdentityUser], subject⟩] c'.policies ∧
        ∃ before after, c.diagnostics = before ++ after ∧
          c'.diagnostics = before ++ app.findings ++ after := by
  obtain ⟨c, h⟩ : ∃ c, compile apps document locators = .ok c := exists_compile_iff.2 (.inl hunit)
  obtain ⟨c', h'⟩ : ∃ c', compile apps' document locators = .ok c' :=
    exists_compile_iff.2 (.inl hunit)
  have hagrees : c.names.AgreesBut c'.names app := by
    rw [names_of_compile h, names_of_compile h']
    exact hgains.agreesBut hnew
  obtain ⟨cloud, path, hid⟩ : ∃ cloud path,
      c'.names.Identifies app cloud (app.clusterAccount space) path :=
    ⟨_, _, identifies_of_compile h' (hgains.get?_homes_self hnew)⟩
  obtain ⟨subject, hsubject⟩ := exists_subject (policies_of_compile h') hid
  have habsent : c.names.cloudAccounts.get? app = none := by
    rw [names_of_compile h, Names.get?_cloudAccounts_of, Apps.get?_homes_eq_none hnew]
    rfl
  have hpolicies : c'.policies = c.policies.addAll (accountPair path cloud subject) :=
    eq_addAll_of_made_iff (policies_of_compile h) (policies_of_compile h') fun g =>
      made_of_agreesBut hagrees hignores habsent hid hsubject
  have hgrows : c.policies.GrowsBy (accountPair path cloud subject) c'.policies := by
    rw [hpolicies]
    exact (reachable_of_derivePolicies (policies_of_compile h)).wellFormed.growsBy_addAll _
  refine ⟨c, c', h, h', hagrees, cloud, path, subject, hid, hsubject, fun resource hne => ?_,
    hpolicies, hgrows, ?_⟩
  · refine hgrows.get?_eq resource fun g hg => ?_
    rcases mem_accountPair.1 hg with rfl | rfl <;> exact hne
  · obtain ⟨before, after, hfindings, hfindings'⟩ :=
      hgains.exists_namingFindings hnew document.resources
    refine ⟨before, after ++ document.usage.findings c.names document.permissions, ?_, ?_⟩
    · rw [findings_of_compile h, hfindings, List.append_assoc]
    · rw [findings_of_compile h', hfindings', hagrees.usage_findings_eq hignores]
      simp only [List.append_assoc]

end Compiled

/-! ### An application that comes to the account of another -/

namespace SharedAccount

/-- One application, of which the username is not valid. -/
def apps : Apps := .ofList [(⟨"ns1"⟩, [⟨"s-X"⟩])]

/-- Another namespace, with an application of the same username. -/
def apps' : Apps := .ofList [(⟨"ns1"⟩, [⟨"s-X"⟩]), (⟨"ns2"⟩, [⟨"scheduled-X"⟩])]

/-- The first application reads a bucket. -/
def document : UsageDocument where
  resources := .ofList [(.buckets, .ofList [(⟨"own"⟩, [⟨"invoices"⟩])])]
  permissions := Permissions.empty.withRoles .buckets ⟨"read"⟩ [⟨"reader"⟩]
  usage := .ofList [(⟨"s-X"⟩, .ofList [(.buckets, .ofList [(⟨"read"⟩, [⟨"invoices"⟩])])])]

theorem gains : apps.Gains ⟨"ns2"⟩ ⟨"scheduled-X"⟩ apps' := ⟨[], [], rfl, rfl⟩

theorem not_declares : ¬ apps.Declares ⟨"scheduled-X"⟩ := by
  rw [Apps.declares_iff]
  rintro ⟨space, hhome⟩
  cases hhome

theorem ignores : document.usage.Ignores ⟨"scheduled-X"⟩ where
  get?_eq_none := rfl
  name_ne := by
    rintro user o ⟨u, operations, names, hu, hoperations, -, -⟩ hkind
    have hmem := OrderedMap.mem_toList.2 hu
    cases List.mem_singleton.1 hmem
    rw [hkind] at hoperations
    cases hoperations

/-- The bucket, as a resource. -/
def bucket : FullName := ⟨"projects/_/buckets/yoyodyne-invoices-dev-usce1gcp"⟩

/-- The account that `s-X` has had to itself, as a resource. -/
def account : FullName :=
  ⟨"projects/iam-shr-dev-x/serviceAccounts/s-X-sa@iam-shr-dev-x.iam.gserviceaccount.com"⟩

/-- Before, the account may create its own tokens, and one subject may act as it. -/
theorem holds_of_compile {c : Compilation} (h : compile apps document (.withUnit "x") = .ok c) :
    c.policies.Holds account tokenCreator ⟨"s-X-sa@iam-shr-dev-x.iam.gserviceaccount.com"⟩ ∧
      c.policies.Holds account workloadIdentityUser ⟨"gke-shr-dev-x.svc.id.goog[ns1/s-X-sa]"⟩ := by
  have hpolicies := policies_of_compile h
  have hhome : apps.homes.get? ⟨"s-X"⟩ = some ⟨"ns1"⟩ := rfl
  have hid := identifies_of_compile h hhome
  refine ⟨?_, ?_⟩
  · exact (holds_iff_lists_or_identifies hpolicies).2 (.inr ⟨_, _, _, hid, .inl ⟨rfl, rfl⟩⟩)
  · exact (holds_iff_lists_or_identifies hpolicies).2 (.inr ⟨_, _, _, hid, .inr ⟨rfl, rfl⟩⟩)

/-- Another subject may act as the account now, and whoever could before still can.  The account
itself gains nothing, for it could create its own tokens already.  The bucket is left alone, and the
username, which has been refused before, is reported for the new application too. -/
theorem scheduled_shares : ∃ c c', compile apps document (.withUnit "x") = .ok c ∧
    compile apps' document (.withUnit "x") = .ok c' ∧
    c'.policies = c.policies.addAll [
      ⟨account, [tokenCreator], ⟨"s-X-sa@iam-shr-dev-x.iam.gserviceaccount.com"⟩⟩,
      ⟨account, [workloadIdentityUser], ⟨"gke-shr-dev-x.svc.id.goog[ns2/s-X-sa]"⟩⟩] ∧
    c.policies.Holds account workloadIdentityUser ⟨"gke-shr-dev-x.svc.id.goog[ns1/s-X-sa]"⟩ ∧
    (∀ member, c'.policies.Holds account workloadIdentityUser member ↔
      c.policies.Holds account workloadIdentityUser member ∨
        member = ⟨"gke-shr-dev-x.svc.id.goog[ns2/s-X-sa]"⟩) ∧
    (∀ member, c'.policies.Holds account tokenCreator member ↔
      c.policies.Holds account tokenCreator member) ∧
    c'.policies.get? bucket = c.policies.get? bucket ∧
    c'.diagnostics.length = c.diagnostics.length + 1 := by
  have hunit : (Locators.withUnit "x").HasUnit := rfl
  obtain ⟨c, c', h, h', -, cloud, path, subject, hid, hsubject, hframe, hpolicies, hgrows, before,
    after, hfindings, hfindings'⟩ := compile_of_gains hunit gains not_declares ignores
  obtain ⟨hcloud, -, hpath⟩ := hid
  rw [names_of_compile h'] at hcloud hpath
  obtain rfl : ⟨"s-X-sa@iam-shr-dev-x.iam.gserviceaccount.com"⟩ = cloud := Option.some.inj hcloud
  obtain rfl : account = path := Option.some.inj hpath
  obtain rfl : ⟨"gke-shr-dev-x.svc.id.goog[ns2/s-X-sa]"⟩ = subject := Except.ok.inj hsubject
  have hreported : (AppName.findings ⟨"scheduled-X"⟩).length = 1 := by decide
  obtain ⟨hcreator, hactor⟩ := holds_of_compile h
  have hroles : tokenCreator ≠ workloadIdentityUser := by decide
  refine ⟨c, c', h, h', hpolicies, hactor, fun member => ?_, fun member => ?_,
    hframe _ (by decide), ?_⟩
  · rw [hgrows.holds_iff_of_accountPair]
    simp [hroles.symm]
  · -- the one who gets the role is the account itself, which has it already
    rw [hgrows.holds_iff_of_accountPair, or_iff_left_iff_imp]
    rintro (⟨-, rfl⟩ | ⟨hrole, -⟩)
    · exact hcreator
    · exact absurd hrole hroles
  · rw [hfindings, hfindings', List.length_append, List.length_append, List.length_append,
      hreported]
    omega

end SharedAccount

end GrantCompiler
