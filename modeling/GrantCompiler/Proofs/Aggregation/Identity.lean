import GrantCompiler.Proofs.Aggregation.Progress
import GrantCompiler.Proofs.Naming.Substitution

/-!
# The request for an account

An application asks for two grants on its own account, and both are made or neither is.  There are
three ways in which the request can end: it asks for nothing while one of the names is missing, it
fails while there is no unit to render the subject for, and otherwise it makes the pair
(`step_identity`).  Nothing is assumed about the names, which may be given by hand and be incomplete
in any way, and nothing about what was requested before.

What making the pair means for the rest is a matter of all grants: policies grow by them
(`Policies.GrowsBy`).  Whoever held a role still holds it, other resources and other roles are left
as they are, and what is held already changes nothing.
-/

set_option autoImplicit false

namespace GrantCompiler

/-! ## Growing by grants -/

theorem Policy.binding?_add_of_not_mem {p : Policy} {role : RoleName} {roles : List RoleName}
    {member : Member} (h : role ∉ roles) :
    (p.add roles member).binding? role = p.binding? role := by
  induction roles generalizing p with
  | nil => rfl
  | cons r rest ih =>
    obtain ⟨hr, hrest⟩ := not_or.1 (mt List.mem_cons.2 h)
    show ((p.grant r member).add rest member).binding? role = p.binding? role
    rw [ih hrest, binding?_grant, if_neg hr]

namespace Policies

variable {m n : Policies} {grants : List Grant}

theorem policyOn_add (m : Policies) (g : Grant) (resource : FullName) :
    (m.add g).policyOn resource =
      if resource = g.resource then (m.policyOn g.resource).add g.roles g.member
      else m.policyOn resource := by
  rw [policyOn, get?_add]
  split
  · rfl
  · rfl

theorem binding?_policyOn_addAll {resource : FullName} {role : RoleName}
    (h : ∀ g ∈ grants, resource = g.resource → role ∉ g.roles) :
    ((m.addAll grants).policyOn resource).binding? role = (m.policyOn resource).binding? role := by
  induction grants generalizing m with
  | nil => rfl
  | cons g rest ih =>
    obtain ⟨hhead, hrest⟩ := List.forall_mem_cons.1 h
    show (((m.add g).addAll rest).policyOn resource).binding? role = _
    rw [ih hrest, policyOn_add]
    split
    next hresource => rw [Policy.binding?_add_of_not_mem (hhead hresource), hresource]
    next => rfl

/-- Policies differ from earlier ones by grants, and by nothing else. -/
structure GrowsBy (m : Policies) (grants : List Grant) (n : Policies) : Prop where
  /-- Nobody loses a role, and nobody gains one besides the grants. -/
  holds_iff : ∀ resource role member, n.Holds resource role member ↔
    m.Holds resource role member ∨ ∃ g ∈ grants, g.Gives resource role member
  addresses_iff : ∀ resource, n.Addresses resource ↔
    m.Addresses resource ∨ ∃ g ∈ grants, resource = g.resource
  /-- The policies of all other resources are what they were, -/
  get?_eq : ∀ resource, (∀ g ∈ grants, resource ≠ g.resource) → n.get? resource = m.get? resource
  /-- and so are the bindings of all other roles on the same ones. -/
  binding?_eq : ∀ resource role, (∀ g ∈ grants, resource = g.resource → role ∉ g.roles) →
    (n.policyOn resource).binding? role = (m.policyOn resource).binding? role
  /-- What is there already is not added. -/
  eq_of_held : (∀ g ∈ grants, m.Addresses g.resource ∧
    ∀ role ∈ g.roles, m.Holds g.resource role g.member) → n = m

namespace GrowsBy

theorem held (h : m.GrowsBy grants n) {g : Grant} (hg : g ∈ grants) :
    n.Addresses g.resource ∧ ∀ role ∈ g.roles, n.Holds g.resource role g.member := by
  refine ⟨(h.addresses_iff g.resource).2 (.inr ⟨g, hg, rfl⟩), fun role hrole => ?_⟩
  exact (h.holds_iff g.resource role g.member).2 (.inr ⟨g, hg, rfl, hrole, rfl⟩)

/-- Policies grow by the same grants only once. -/
theorem eq_of_growsBy {o : Policies} (h : m.GrowsBy grants n) (h' : n.GrowsBy grants o) : o = n :=
  h'.eq_of_held fun _ hg => h.held hg

end GrowsBy

theorem WellFormed.growsBy_addAll (h : m.WellFormed) (grants : List Grant) :
    m.GrowsBy grants (m.addAll grants) where
  holds_iff _ _ _ := holds_addAll
  addresses_iff _ := addresses_addAll
  get?_eq _ hne := get?_addAll_of_ne hne
  binding?_eq _ _ hne := binding?_policyOn_addAll hne
  eq_of_held hheld := by
    refine (h.addAll grants).eq_of_iff h (fun resource => ?_) (fun resource role member => ?_)
    · rw [addresses_addAll, or_iff_left_iff_imp]
      rintro ⟨g, hg, rfl⟩
      exact (hheld g hg).1
    · rw [holds_addAll, or_iff_left_iff_imp]
      rintro ⟨g, hg, rfl, hrole, rfl⟩
      exact (hheld g hg).2 role hrole

end Policies

/-! ## What is asked for -/

section Asking

variable {names : Names} {locators : Locators} {app : AppName}

theorem identityGrants_of_missing (h : names.cloudAccounts.get? app = none ∨
      names.clusterAccounts.get? app = none ∨
      names.fullNames.get? .serviceAccounts app.asResource = none) :
    identityGrants names locators app = .ok [] := by
  rw [identityGrants]
  split
  next hcloud hcluster hresource => simp [hcloud, hcluster, hresource] at h
  next => rfl

theorem identityGrants_eq {cloud : Member} {cluster : ClusterAccount} {resource : FullName}
    (h : names.Identifies app cloud cluster resource) :
    identityGrants names locators app =
      if locators.HasUnit then .ok (accountPair resource cloud (locators.subjectOf cluster))
      else .error ⟨Locator.unit, Template.subjectName⟩ := by
  rw [identityGrants_of_identifies locators h, ClusterAccount.subject_eq]
  split
  · rfl
  · rfl

end Asking

/-! ## Single steps -/

namespace Progress

section Stepping

variable {names : Names} {permissions : Permissions} {locators : Locators} {p : Progress}
  {r : Request}

theorem step_of_ok {grants : List Grant} (h : r.grants names permissions locators = .ok grants) :
    (step names permissions locators p r).endings = p.endings ++ [(r, .ok ())] ∧
      (step names permissions locators p r).policies = p.policies.addAll grants := by
  rw [step, Request.meet, Request.ending, h]
  exact ⟨rfl, rfl⟩

/-- A request that fails leaves the policies as they were. -/
theorem step_of_error {e : MissingLocator} (h : r.grants names permissions locators = .error e) :
    (step names permissions locators p r).endings = p.endings ++ [(r, .error e)] ∧
      (step names permissions locators p r).policies = p.policies := by
  rw [step, Request.meet, Request.ending, h]
  exact ⟨rfl, rfl⟩

/-- What some requests have led to. -/
def Reached (names : Names) (permissions : Permissions) (locators : Locators) (p : Progress) :
    Prop :=
  ∃ rs, p = run names permissions locators start rs

theorem Reached.step (h : Reached names permissions locators p) (r : Request) :
    Reached names permissions locators (step names permissions locators p r) := by
  obtain ⟨rs, rfl⟩ := h
  refine ⟨rs ++ [r], ?_⟩
  rw [run, run, List.foldl_append]
  rfl

theorem Reached.wellFormed (h : Reached names permissions locators p) : p.policies.WellFormed := by
  obtain ⟨rs, rfl⟩ := h
  rw [run_policies]
  exact wellFormed_start.addAll _

/-- **The request for an account is met in full or not at all.**  Whatever was requested before, and
whatever the names are: while the application lacks an account or its resource, the request succeeds
and grants nothing.  While there is no unit, it fails and grants nothing.  Otherwise it succeeds,
and the policies have grown by the two grants. -/
theorem step_identity {next : Progress} (h : Reached names permissions locators p) (app : AppName)
    (hnext : next = step names permissions locators p (.identity app)) :
    next.diagnostics = p.diagnostics ∧
    (names.cloudAccounts.get? app = none ∨ names.clusterAccounts.get? app = none ∨
        names.fullNames.get? .serviceAccounts app.asResource = none →
      next.endings = p.endings ++ [(.identity app, .ok ())] ∧ next.policies = p.policies) ∧
    ∀ cloud cluster resource, names.Identifies app cloud cluster resource →
      (locators.get? Locator.unit = none →
        next.endings = p.endings ++ [(.identity app, .error ⟨"unit", "gsaForKSAName"⟩)] ∧
          next.policies = p.policies) ∧
      (locators.get? Locator.unit ≠ none → ∃ subject, cluster.subject locators = .ok subject ∧
        next.endings = p.endings ++ [(.identity app, .ok ())] ∧
        next.policies = p.policies.addAll (accountPair resource cloud subject) ∧
        p.policies.GrowsBy (accountPair resource cloud subject) next.policies) := by
  subst hnext
  refine ⟨List.append_nil _, fun hmissing => ?_, fun cloud cluster resource hid => ⟨?_, ?_⟩⟩
  · have hgrants : (Request.identity app).grants names permissions locators = .ok [] :=
      identityGrants_of_missing hmissing
    exact step_of_ok hgrants
  · intro hnone
    have hunit : ¬ locators.HasUnit := by simp [Locators.HasUnit, hnone]
    refine step_of_error ?_
    show identityGrants names locators app = _
    rw [identityGrants_eq hid, if_neg hunit]
    rfl
  · intro hsome
    have hunit : locators.HasUnit := Option.isSome_iff_ne_none.2 hsome
    have hsubject : cluster.subject locators = .ok (locators.subjectOf cluster) := by
      rw [ClusterAccount.subject_eq, if_pos hunit]
    have hgrants : (Request.identity app).grants names permissions locators =
        .ok (accountPair resource cloud (locators.subjectOf cluster)) := by
      show identityGrants names locators app = _
      rw [identityGrants_eq hid, if_pos hunit]
    obtain ⟨hendings, hpolicies⟩ := step_of_ok (p := p) hgrants
    refine ⟨_, hsubject, hendings, hpolicies, ?_⟩
    rw [hpolicies]
    exact h.wellFormed.growsBy_addAll _

end Stepping

/-! ### An account that is asked for twice -/

namespace OwnAccounts

open GivenNames (names permissions publishing)

/-- One application publishes. -/
def published : Progress :=
  run names permissions (.withUnit "x") start [.usage ⟨"a"⟩ publishing]

/-- And then it asks for its account. -/
def granted : Progress := step names permissions (.withUnit "x") published (.identity ⟨"a"⟩)

/-- The account is granted on, and the topic stays as it was.  To ask again changes nothing, and nor
does it to ask for an application that has no cluster account, or to ask without a unit. -/
theorem all_or_nothing :
    ¬ published.policies.Addresses ⟨"accounts/a"⟩ ∧
    granted.policies.Holds ⟨"accounts/a"⟩ workloadIdentityUser
      ⟨"gke-shr-dev-x.svc.id.goog[ns/a]"⟩ ∧
    granted.policies.get? ⟨"topics/events"⟩ = published.policies.get? ⟨"topics/events"⟩ ∧
    (step names permissions (.withUnit "x") granted (.identity ⟨"a"⟩)).policies =
      granted.policies ∧
    (step names permissions (.withUnit "x") granted (.identity ⟨"b"⟩)).policies =
      granted.policies ∧
    (step names permissions .initial start (.identity ⟨"a"⟩)).policies = .empty ∧
    (step names permissions .initial start (.identity ⟨"a"⟩)).endings =
      [(.identity ⟨"a"⟩, .error ⟨"unit", "gsaForKSAName"⟩)] := by
  have hpublished : Reached names permissions (.withUnit "x") published := ⟨_, rfl⟩
  have hgranted : Reached names permissions (.withUnit "x") granted := hpublished.step _
  have hstart : Reached names permissions .initial start := ⟨[], rfl⟩
  have hid : names.Identifies ⟨"a"⟩ ⟨"a@x"⟩ ⟨"ns/a"⟩ ⟨"accounts/a"⟩ := ⟨rfl, rfl, rfl⟩
  have hunit : (Locators.withUnit "x").get? Locator.unit ≠ none := by decide
  -- the first time, the second time, for the other application and without a unit
  obtain ⟨subject, hsubject, -, -, hgrows⟩ :=
    ((step_identity hpublished _ rfl).2.2 _ _ _ hid).2 hunit
  obtain ⟨again, hagain, -, -, hgrows'⟩ := ((step_identity hgranted _ rfl).2.2 _ _ _ hid).2 hunit
  obtain ⟨-, hskipped⟩ := (step_identity hgranted ⟨"b"⟩ rfl).2.1 (.inr (.inl rfl))
  obtain ⟨hending, hkept⟩ := ((step_identity hstart _ rfl).2.2 _ _ _ hid).1 rfl
  cases hsubject.symm.trans hagain
  obtain rfl : ⟨"gke-shr-dev-x.svc.id.goog[ns/a]"⟩ = subject := Except.ok.inj hsubject
  refine ⟨?_, ?_, hgrows.get?_eq _ (by decide), hgrows.eq_of_growsBy hgrows', hskipped, hkept,
    hending⟩
  · rintro ⟨policy, hpolicy⟩
    cases hpolicy
  · exact (hgrows.held (g := ⟨_, [workloadIdentityUser], _⟩) (by decide)).2 _ (by decide)

end OwnAccounts

end Progress

end GrantCompiler
