import GrantCompiler.Proofs.Compilation.Impersonation
import GrantCompiler.Proofs.Naming.Referent

/-!
# Usage stays within its family

A short name that an application uses may be any text, so it might try to read like the path of an
account and collect roles on it.  It cannot: no bucket and no half of a queue has the full name of
an account, and short names reach full names through declarations only.  So an occurrence grants
something on an account only if it stands under `serviceAccounts`
(`Occurrence.resource_ne_accountPath`).

Said of whole runs, the policies on accounts do not depend on any other usage: two documents whose
usage agrees under `serviceAccounts` have the same policy on every account.
-/

set_option autoImplicit false

namespace GrantCompiler

/-- Two usages list the same under a kind. -/
def Usage.AgreesUnder (usage usage' : Usage) (kind : Kind) : Prop :=
  ∀ app o, o.kind = kind → (usage.Lists app o ↔ usage'.Lists app o)

theorem Usage.Omits.agreesUnder {usage usage' : Usage} {kind : Kind} (h : usage.Omits kind)
    (h' : usage'.Omits kind) : usage.AgreesUnder usage' kind := by
  rintro app o rfl
  refine ⟨?_, ?_⟩
  · rintro ⟨u, operations, names, hu, hoperations, -⟩
    rw [h app u hu] at hoperations
    cases hoperations
  · rintro ⟨u, operations, names, hu, hoperations, -⟩
    rw [h' app u hu] at hoperations
    cases hoperations

section Compiled

variable {apps : Apps} {document : UsageDocument} {locators : Locators} {c : Compilation}

/-- Only usage of accounts reaches an account. -/
theorem kind_eq_serviceAccounts_of_get? (h : compile apps document locators = .ok c)
    {o : Occurrence} {kind : Kind} {username : String} (hkind : kind ∈ o.kind.effective)
    (hresource : c.names.fullNames.get? kind o.name =
      some (locators.accountPath (locators.memberOf username))) :
    o.kind = .serviceAccounts := by
  rw [names_of_compile h] at hresource
  by_cases hserviceAccounts : kind = .serviceAccounts
  · exact Occurrence.kind_eq_serviceAccounts (hserviceAccounts ▸ hkind)
  · exact absurd hresource (Names.get?_fullNames_of_ne_accountPath hserviceAccounts _ _)

theorem Occurrence.resource_ne_accountPath (h : compile apps document locators = .ok c)
    {o : Occurrence} (ho : o.kind ≠ .serviceAccounts) {member : Member} {g : Grant}
    (hg : g ∈ o.grants c.names document.permissions member) (username : String) :
    g.resource ≠ locators.accountPath (locators.memberOf username) := by
  intro heq
  obtain ⟨-, kind, hkind, resource, hresource, rfl⟩ := Occurrence.mem_grants.1 hg
  exact ho (kind_eq_serviceAccounts_of_get? h hkind (hresource.trans (congrArg some heq)))

/-! ## Who reaches an account -/

/-- An account has a policy if it is used as an account or is an application's own. -/
theorem addresses_accountPath_iff (h : compile apps document locators = .ok c) (username : String) :
    c.policies.Addresses (locators.accountPath (locators.memberOf username)) ↔
      (∃ app member o, o.kind = .serviceAccounts ∧ document.usage.Lists app o ∧
        c.names.cloudAccounts.get? app = some member ∧
          c.names.fullNames.get? .serviceAccounts o.name =
            some (locators.accountPath (locators.memberOf username))) ∨
      ∃ app cloud cluster, c.names.Identifies app cloud cluster
        (locators.accountPath (locators.memberOf username)) := by
  rw [addresses_iff_lists_or_identifies (policies_of_compile h)]
  refine or_congr_left ⟨?_, ?_⟩
  · rintro ⟨app, member, ⟨_, operation, name⟩, kind, hlists, hmember, -, hkind, hresource⟩
    cases kind_eq_serviceAccounts_of_get? h hkind hresource
    cases List.mem_singleton.1 hkind
    exact ⟨app, member, _, rfl, hlists, hmember, hresource⟩
  · rintro ⟨app, member, ⟨_, operation, name⟩, rfl, hlists, hmember, hresource⟩
    exact ⟨app, member, _, .serviceAccounts, hlists, hmember, rfl, List.mem_singleton_self _,
      hresource⟩

/-- Roles on an account come from its use as an account or are the application's own two. -/
theorem holds_accountPath_iff_lists_or_identifies (h : compile apps document locators = .ok c)
    (username : String) {role : RoleName} {member : Member} :
    c.policies.Holds (locators.accountPath (locators.memberOf username)) role member ↔
      (∃ app o, o.kind = .serviceAccounts ∧ document.usage.Lists app o ∧
        c.names.cloudAccounts.get? app = some member ∧
          c.names.fullNames.get? .serviceAccounts o.name =
            some (locators.accountPath (locators.memberOf username)) ∧
              role ∈ document.permissions.roles .serviceAccounts o.operation) ∨
      ∃ app cloud cluster, c.names.Identifies app cloud cluster
          (locators.accountPath (locators.memberOf username)) ∧
        (role = tokenCreator ∧ member = cloud ∨
          role = workloadIdentityUser ∧ cluster.subject locators = .ok member) := by
  rw [holds_iff_lists_or_identifies (policies_of_compile h)]
  refine or_congr_left ⟨?_, ?_⟩
  · rintro ⟨app, ⟨_, operation, name⟩, kind, hlists, hmember, -, hkind, hresource, hrole⟩
    cases kind_eq_serviceAccounts_of_get? h hkind hresource
    cases List.mem_singleton.1 hkind
    exact ⟨app, _, rfl, hlists, hmember, hresource, hrole⟩
  · rintro ⟨app, ⟨_, operation, name⟩, rfl, hlists, hmember, hresource, hrole⟩
    exact ⟨app, _, .serviceAccounts, hlists, hmember, rfl, List.mem_singleton_self _, hresource,
      hrole⟩

/-! ## Two usages -/

variable {usage : Usage} {c' : Compilation}

/-- The policy on an account is the same for all usages that list the same accounts. -/
theorem get?_accountPath_congr (h : compile apps document locators = .ok c)
    (h' : compile apps { document with usage } locators = .ok c')
    (hagrees : document.usage.AgreesUnder usage .serviceAccounts) (username : String) :
    c'.policies.get? (locators.accountPath (locators.memberOf username)) =
      c.policies.get? (locators.accountPath (locators.memberOf username)) := by
  have hnames : c'.names = c.names := (names_of_compile h').trans (names_of_compile h).symm
  have hreachable := reachable_of_derivePolicies (policies_of_compile h)
  have hreachable' := reachable_of_derivePolicies (policies_of_compile h')
  refine hreachable'.wellFormed.get?_congr hreachable.wellFormed ?_ fun role member => ?_
  · rw [addresses_accountPath_iff h', addresses_accountPath_iff h, hnames]
    refine or_congr_left
      (exists_congr fun app => exists_congr fun member => exists_congr fun o => ?_)
    exact and_congr_right fun hkind => and_congr_left fun _ => (hagrees app o hkind).symm
  · rw [holds_accountPath_iff_lists_or_identifies h', holds_accountPath_iff_lists_or_identifies h,
      hnames]
    refine or_congr_left (exists_congr fun app => exists_congr fun o => ?_)
    exact and_congr_right fun hkind => and_congr_left fun _ => (hagrees app o hkind).symm

/-- **Full names cannot be forged.**  With a unit, everything has a full name, and what referents
with one full name have in common is what `Referent.Agrees` says.  So in a run that succeeds, usage
that is not of accounts makes no grant on the account of any application, and leaves the policy on
every account as it is without that usage. -/
theorem fullNames_separate (locators : Locators) :
    (locators.HasUnit → ∀ r : Referent, ∃ fullName, r.Rendered locators fullName) ∧
    (∀ (r r' : Referent) fullName, r.Rendered locators fullName → r'.Rendered locators fullName →
      r.Agrees r') ∧
    ∀ apps document c, compile apps document locators = .ok c →
      (∀ user o member, document.usage.Lists user o → o.kind ≠ .serviceAccounts →
        ∀ g ∈ o.grants c.names document.permissions member, ∀ app,
          ¬ (Referent.account app).Rendered locators g.resource) ∧
      ∀ usage c', document.usage.AgreesUnder usage .serviceAccounts →
        compile apps { document with usage } locators = .ok c' →
          ∀ app fullName, (Referent.account app).Rendered locators fullName →
            c'.policies.get? fullName = c.policies.get? fullName := by
  refine ⟨fun hunit r => ⟨_, Referent.rendered_path hunit r⟩, fun r r' fullName hr hr' => ?_,
    fun apps document c h => ⟨fun user o member _ ho g hg app hrendered => ?_,
      fun usage c' hagrees h' app fullName hrendered => ?_⟩⟩
  · exact Referent.agrees_of_path_eq (hr.eq_path.symm.trans hr'.eq_path)
  · exact Occurrence.resource_ne_accountPath h ho hg app.username hrendered.eq_path
  · rw [hrendered.eq_path]
    exact get?_accountPath_congr h h' hagrees app.username

end Compiled

/-! ### A bucket that would be an account -/

namespace CraftedBucket

/-- The application whose account the bucket is named after. -/
def apps : Apps := .ofList [(⟨"ns"⟩, [⟨"billing"⟩])]

/-- The path of an account, as far as a short name can have it. -/
def crafted : ResourceName :=
  ⟨"x/serviceAccounts/billing-sa@iam-shr-dev-x.iam.gserviceaccount.com"⟩

/-- The application uses the bucket under the role that lets others act as an account. -/
def document : UsageDocument where
  resources := .ofList [(.buckets, .ofList [(⟨"own"⟩, [crafted])])]
  permissions := Permissions.empty.withRoles .buckets ⟨"read"⟩ [workloadIdentityUser]
  usage := .ofList [(⟨"billing"⟩, .ofList [(.buckets, .ofList [(⟨"read"⟩, [crafted])])])]

theorem omits : document.usage.Omits .serviceAccounts := by
  intro app u h
  rw [document, OrderedMap.get?_ofList] at h
  cases List.mem_singleton.1 (OrderedMap.mem_of_lastValue_eq_some h)
  rfl

theorem omits_empty : Usage.Omits .empty .serviceAccounts := by
  intro app u h
  cases h

/-- The policy on the account is the one that no usage at all leaves there. -/
theorem account_untouched : ∃ c c', compile apps document (.withUnit "x") = .ok c ∧
    compile apps { document with usage := .empty } (.withUnit "x") = .ok c' ∧
      ∀ fullName, (Referent.account ⟨"billing"⟩).Rendered (.withUnit "x") fullName →
        c'.policies.get? fullName = c.policies.get? fullName := by
  have h : compile apps document (.withUnit "x") = .ok _ := rfl
  have h' : compile apps { document with usage := .empty } (.withUnit "x") = .ok _ := rfl
  have hagrees := omits.agreesUnder omits_empty
  exact ⟨_, _, h, h', ((fullNames_separate _).2.2 _ _ _ h).2 _ _ hagrees h' _⟩

end CraftedBucket

end GrantCompiler
