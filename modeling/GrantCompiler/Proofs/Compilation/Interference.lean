import GrantCompiler.Proofs.Compilation.Impersonation
import GrantCompiler.Proofs.Naming.Referent

/-!
# Usage grants to its own application

Applications meet in the policies of the resources they share, and an application may even use
another's account as a resource.  Yet whatever it uses, it receives the roles itself: what a member
is granted depends on the usage of those applications whose cloud account it is, and on no other
usage (`holds_congr_of_usage`).

So changing the usage of one application leaves the grants of every other account as they are.  It
leaves those of every subject as they are too, for a subject is nobody's cloud account: a mail
address and a subject are told apart by how they end.
-/

set_option autoImplicit false

namespace GrantCompiler

/-- Two usages differ in the entry of one application at most, which either of them may lack. -/
def Usage.AgreesBut (usage usage' : Usage) (app : AppName) : Prop :=
  ∀ other, other ≠ app → usage'.get? other = usage.get? other

/-- A member holds the same roles on the same resources. -/
def Policies.AgreesFor (m n : Policies) (member : Member) : Prop :=
  ∀ resource role, n.Holds resource role member ↔ m.Holds resource role member

section Compiled

variable {apps : Apps} {document : UsageDocument} {locators : Locators} {usage : Usage}
  {c c' : Compilation} {member : Member}

/-- What a member is granted depends on the usage of the applications it is the account of. -/
theorem holds_congr_of_usage (h : compile apps document locators = .ok c)
    (h' : compile apps { document with usage } locators = .ok c')
    (husage : ∀ app, c.names.cloudAccounts.get? app = some member →
      usage.get? app = document.usage.get? app) :
    c.policies.AgreesFor c'.policies member := by
  intro resource role
  have hnames : c'.names = c.names := (names_of_compile h').trans (names_of_compile h).symm
  rw [holds_iff_lists_or_identifies (policies_of_compile h'),
    holds_iff_lists_or_identifies (policies_of_compile h), hnames]
  -- the two on an application's own account do not come of usage
  refine or_congr_left (exists_congr fun app => exists_congr fun o => exists_congr fun kind => ?_)
  refine and_congr_left ?_
  rintro ⟨haccount, -⟩
  rw [Usage.lists_iff, Usage.lists_iff, husage app haccount]

/-- No application has a subject for its cloud account. -/
theorem get?_cloudAccounts_ne_subject (h : compile apps document locators = .ok c)
    {account : ClusterAccount} {subject : Member} (hsubject : account.subject locators = .ok subject)
    (app : AppName) : c.names.cloudAccounts.get? app ≠ some subject := by
  intro haccount
  rw [names_of_compile h, Names.get?_cloudAccounts_of, Option.map_eq_some_iff] at haccount
  obtain ⟨space, -, hmember⟩ := haccount
  rw [ClusterAccount.subject_eq] at hsubject
  have heq : locators.memberOf app.username = locators.subjectOf account :=
    hmember.trans (eq_of_ite_eq_ok hsubject)
  exact Locators.memberOf_ne_subjectOf _ _ heq

/-- **One application's usage grants nothing to another.**  Where a run succeeds, so it does with
any other usage of one application, and its names are the same.  Then every declared application
keeps the roles of its cloud account, unless the two have one account, and those of its subject in
any case. -/
theorem compile_of_agreesBut (h : compile apps document locators = .ok c) {app : AppName}
    (hagrees : document.usage.AgreesBut usage app) :
    ∃ c', compile apps { document with usage } locators = .ok c' ∧ c'.names = c.names ∧
      ∀ other, apps.Declares other → ∃ cloud cluster subject,
        c.names.cloudAccounts.get? other = some cloud ∧
        c.names.clusterAccounts.get? other = some cluster ∧
        cluster.subject locators = .ok subject ∧
        (c.names.cloudAccounts.get? app ≠ some cloud → c.policies.AgreesFor c'.policies cloud) ∧
        c.policies.AgreesFor c'.policies subject := by
  have hnameable : Nameable apps document.resources locators := exists_compile_iff.1 ⟨c, h⟩
  obtain ⟨c', h'⟩ : ∃ c', compile apps { document with usage } locators = .ok c' :=
    exists_compile_iff.2 hnameable
  refine ⟨c', h', (names_of_compile h').trans (names_of_compile h).symm, fun other hother => ?_⟩
  obtain ⟨space, hhome⟩ := Apps.declares_iff.1 hother
  have hid := identifies_of_compile h hhome
  obtain ⟨subject, hsubject⟩ := exists_subject (policies_of_compile h) hid
  refine ⟨_, _, subject, hid.1, hid.2.1, hsubject, fun hapart => ?_, ?_⟩
  · refine holds_congr_of_usage h h' fun user huser => hagrees user ?_
    rintro rfl
    exact hapart huser
  · refine holds_congr_of_usage h h' fun user huser => ?_
    exact absurd huser (get?_cloudAccounts_ne_subject h hsubject user)

end Compiled

/-! ### An application that uses another's bucket and account -/

namespace SharedBucket

/-- An application, and one that looks into its resources. -/
def apps : Apps := .ofList [(⟨"ns"⟩, [⟨"audit"⟩, ⟨"billing"⟩])]

/-- Usage by the owner of the bucket alone. -/
def billingAlone : Usage :=
  .ofList [(⟨"billing"⟩, .ofList [(.buckets, .ofList [(⟨"read"⟩, [⟨"invoices"⟩])])])]

/-- The second application reads the bucket as well, and acts as the first. -/
def document : UsageDocument where
  resources := .ofList [(.buckets, .ofList [(⟨"own"⟩, [⟨"invoices"⟩])])]
  permissions := (Permissions.empty.withRoles .buckets ⟨"read"⟩ [⟨"reader"⟩]).withRoles
    .serviceAccounts ⟨"act"⟩ [workloadIdentityUser]
  usage := billingAlone.insert ⟨"audit"⟩ (.ofList [
    (.buckets, .ofList [(⟨"read"⟩, [⟨"invoices"⟩])]),
    (.serviceAccounts, .ofList [(⟨"act"⟩, [⟨"billing"⟩])])])

theorem agreesBut : document.usage.AgreesBut billingAlone ⟨"audit"⟩ := by
  intro other hne
  show _ = (billingAlone.insert _ _).get? other
  rw [OrderedMap.get?_insert, if_neg hne]

theorem declares_billing : apps.Declares ⟨"billing"⟩ :=
  ⟨⟨"ns"⟩, _, rfl, List.mem_cons_of_mem _ (List.mem_singleton_self _)⟩

theorem omits : billingAlone.Omits .serviceAccounts := by
  intro app u h
  rw [billingAlone, OrderedMap.get?_ofList] at h
  cases List.mem_singleton.1 (OrderedMap.mem_of_lastValue_eq_some h)
  rfl

/-- The account of the first application, as a resource. -/
def account : FullName :=
  ⟨"projects/iam-shr-dev-x/serviceAccounts/billing-sa@iam-shr-dev-x.iam.gserviceaccount.com"⟩

/-- The account of the second. -/
def auditMember : Member := ⟨"audit-sa@iam-shr-dev-x.iam.gserviceaccount.com"⟩

theorem holds_audit {c : Compilation} (h : compile apps document (.withUnit "x") = .ok c) :
    c.policies.Holds account workloadIdentityUser auditMember := by
  have hlists : document.usage.Lists ⟨"audit"⟩ ⟨.serviceAccounts, ⟨"act"⟩, ⟨"billing"⟩⟩ :=
    ⟨_, _, _, rfl, rfl, rfl, List.mem_singleton_self _⟩
  rw [holds_iff_lists_or_identifies (policies_of_compile h), names_of_compile h]
  exact .inl ⟨_, _, .serviceAccounts, hlists, rfl, rfl, List.mem_singleton_self _, rfl,
    List.mem_singleton_self _⟩

theorem not_holds_audit {c : Compilation}
    (h : compile apps { document with usage := billingAlone } (.withUnit "x") = .ok c) :
    ¬ c.policies.Holds account workloadIdentityUser auditMember := by
  intro hholds
  rcases (holds_accountPath_iff h omits declares_billing).1 hholds with
    ⟨hrole, -⟩ | ⟨-, app, space, -, -, hsubject⟩
  · exact absurd hrole (by decide)
  · refine get?_cloudAccounts_ne_subject h hsubject ⟨"audit"⟩ ?_
    rw [names_of_compile h]
    rfl

/-- Without its usage, the second application may no longer act as the first, which itself holds
what it held. -/
theorem billing_unaffected : ∃ c c', compile apps document (.withUnit "x") = .ok c ∧
    compile apps { document with usage := billingAlone } (.withUnit "x") = .ok c' ∧
    c.policies.Holds account workloadIdentityUser auditMember ∧
    ¬ c'.policies.Holds account workloadIdentityUser auditMember ∧
    c.policies.AgreesFor c'.policies ⟨"billing-sa@iam-shr-dev-x.iam.gserviceaccount.com"⟩ ∧
    c.policies.AgreesFor c'.policies ⟨"gke-shr-dev-x.svc.id.goog[ns/billing-sa]"⟩ := by
  have hnameable : Nameable apps document.resources (.withUnit "x") := .inl rfl
  obtain ⟨c, h⟩ := exists_compile_iff.2 hnameable
  obtain ⟨c', h', -, hothers⟩ := compile_of_agreesBut h agreesBut
  obtain ⟨cloud, cluster, subject, hcloud, hcluster, hsubject, hown, hacting⟩ :=
    hothers _ declares_billing
  rw [names_of_compile h] at hcloud hcluster hown
  obtain rfl : ⟨"billing-sa@iam-shr-dev-x.iam.gserviceaccount.com"⟩ = cloud :=
    Option.some.inj hcloud
  obtain rfl : ⟨"ns/billing-sa"⟩ = cluster := Option.some.inj hcluster
  obtain rfl : ⟨"gke-shr-dev-x.svc.id.goog[ns/billing-sa]"⟩ = subject := Except.ok.inj hsubject
  exact ⟨c, c', h, h', holds_audit h, not_holds_audit h', hown (by decide), hacting⟩

end SharedBucket

end GrantCompiler
