import GrantCompiler.Aggregation
import GrantCompiler.Proofs.Locator.Builder
import GrantCompiler.Proofs.Policy.Holding
import GrantCompiler.Proofs.Reported

/-!
# Which grants a run makes

The policies of a run are built from the grants of its requests, and a request builds its grants
by walking a document.  This file says which grants those are without any walking: by what the
usage lists (`Usage.Lists`), what the names are and what the permissions say.

* `mem_usageGrants`, `mem_identityGrants` — the grants of the two sorts of request.
* `Made` — the grants of a whole run; `holds_iff_made` and `addresses_iff_made` say that the
  policies hold exactly these and address exactly their resources.
* `made_iff` — the grants that are made, by the documents.

The two put together say that a run misses no privilege and grants none in excess, which is the
statement that ends the file.
-/

set_option autoImplicit false

namespace GrantCompiler

/-! ## Usage -/

theorem AppUsage.mem_occurrences {usage : AppUsage} {o : Occurrence} :
    o ∈ usage.occurrences ↔
      ∃ operations names, usage.get? o.kind = some operations ∧
        operations.get? o.operation = some names ∧ o.name ∈ names := by
  simp only [occurrences, List.mem_flatMap, List.mem_map, Prod.exists]
  refine ⟨?_, ?_⟩
  · rintro ⟨kind, operations, hkind, operation, names, hoperation, name, hname, rfl⟩
    exact ⟨operations, names, OrderedMap.mem_toList.1 hkind, OrderedMap.mem_toList.1 hoperation,
      hname⟩
  · rintro ⟨operations, names, hkind, hoperation, hname⟩
    exact ⟨o.kind, operations, OrderedMap.mem_toList.2 hkind, o.operation, names,
      OrderedMap.mem_toList.2 hoperation, o.name, hname, rfl⟩

/-- The usage lists a name for an operation of an application, under a kind. -/
def Usage.Lists (usage : Usage) (app : AppName) (o : Occurrence) : Prop :=
  ∃ appUsage operations names, usage.get? app = some appUsage ∧
    appUsage.get? o.kind = some operations ∧ operations.get? o.operation = some names ∧
    o.name ∈ names

theorem Usage.lists_iff {usage : Usage} {app : AppName} {o : Occurrence} :
    usage.Lists app o ↔ ∃ u, usage.get? app = some u ∧ o ∈ u.occurrences := by
  refine ⟨?_, ?_⟩
  · rintro ⟨u, operations, names, hu, hkind, hoperation, hname⟩
    exact ⟨u, hu, AppUsage.mem_occurrences.2 ⟨operations, names, hkind, hoperation, hname⟩⟩
  · rintro ⟨u, hu, ho⟩
    obtain ⟨operations, names, hkind, hoperation, hname⟩ := AppUsage.mem_occurrences.1 ho
    exact ⟨u, operations, names, hu, hkind, hoperation, hname⟩

/-! ## The grants of a request -/

section Requests

variable {names : Names} {permissions : Permissions}

theorem Occurrence.mem_grants {member : Member} {o : Occurrence} {g : Grant} :
    g ∈ o.grants names permissions member ↔
      o.kind.isOther = false ∧ ∃ kind ∈ o.kind.effective, ∃ resource,
        names.fullNames.get? kind o.name = some resource ∧
          g = ⟨resource, permissions.roles kind o.operation, member⟩ := by
  rw [grants]
  cases hother : o.kind.isOther with
  | true => simp
  | false =>
    simp only [Bool.false_eq_true, if_false, true_and, List.mem_filterMap]
    refine exists_congr fun kind => and_congr_right fun _ => ?_
    cases names.fullNames.get? kind o.name with
    | none => simp
    | some resource => simp [eq_comm]

theorem mem_usageGrants {app : AppName} {usage : AppUsage} {g : Grant} :
    g ∈ usageGrants names permissions app usage ↔
      ∃ member, names.cloudAccounts.get? app = some member ∧
        ∃ o ∈ usage.occurrences, g ∈ o.grants names permissions member := by
  rw [usageGrants]
  cases names.cloudAccounts.get? app with
  | none => simp
  | some member => simp

/-- An application has both accounts, and the second is a resource. -/
def Names.Identifies (names : Names) (app : AppName) (cloud : Member) (cluster : ClusterAccount)
    (resource : FullName) : Prop :=
  names.cloudAccounts.get? app = some cloud ∧ names.clusterAccounts.get? app = some cluster ∧
    names.fullNames.get? .serviceAccounts app.asResource = some resource

theorem identityGrants_of_identifies (locators : Locators) {app : AppName} {cloud : Member}
    {cluster : ClusterAccount} {resource : FullName}
    (h : names.Identifies app cloud cluster resource) :
    identityGrants names locators app = (cluster.subject locators).map fun subject =>
      [⟨resource, [tokenCreator], cloud⟩, ⟨resource, [workloadIdentityUser], subject⟩] := by
  obtain ⟨hcloud, hcluster, hresource⟩ := h
  rw [identityGrants, hcloud, hcluster, hresource]
  show (cluster.subject locators >>= fun subject => .ok _) = _
  cases cluster.subject locators <;> rfl

/-- The two grants on an account. -/
def accountPair (path : FullName) (cloud subject : Member) : List Grant :=
  [⟨path, [tokenCreator], cloud⟩, ⟨path, [workloadIdentityUser], subject⟩]

theorem mem_accountPair {path : FullName} {cloud subject : Member} {g : Grant} :
    g ∈ accountPair path cloud subject ↔
      g = ⟨path, [tokenCreator], cloud⟩ ∨ g = ⟨path, [workloadIdentityUser], subject⟩ := by
  simp [accountPair]

theorem mem_identityGrants {locators : Locators} {app : AppName} {gs : List Grant}
    (h : identityGrants names locators app = .ok gs) {g : Grant} :
    g ∈ gs ↔ ∃ cloud cluster resource subject, names.Identifies app cloud cluster resource ∧
      cluster.subject locators = .ok subject ∧
        (g = ⟨resource, [tokenCreator], cloud⟩ ∨
          g = ⟨resource, [workloadIdentityUser], subject⟩) := by
  refine ⟨fun hg => ?_, ?_⟩
  · rw [identityGrants] at h
    split at h
    next cloud cluster resource hcloud hcluster hresource =>
      obtain ⟨subject, hsubject, h⟩ := bind_eq_ok_iff.1 h
      cases h
      exact ⟨cloud, cluster, resource, subject, ⟨hcloud, hcluster, hresource⟩, hsubject, by
        simpa using hg⟩
    next => cases h; cases hg
  · rintro ⟨cloud, cluster, resource, subject, hid, hsubject, hg⟩
    rw [identityGrants_of_identifies locators hid, hsubject] at h
    cases h
    simpa using hg

end Requests

/-! ## The grants of a run -/

section Runs

variable {usage : Usage} {names : Names} {permissions : Permissions} {locators : Locators}
  {m : Policies}

theorem mem_requests {r : Request} :
    r ∈ requests usage names ↔
      (∃ app u, usage.get? app = some u ∧ r = .usage app u) ∨
        ∃ app cloud, names.cloudAccounts.get? app = some cloud ∧ r = .identity app := by
  simp only [requests, List.mem_append, List.mem_map, Prod.exists, OrderedMap.mem_toList,
    OrderedMap.mem_keys, exists_and_right, eq_comm]

/-- A grant that some request of the run makes. -/
def Made (usage : Usage) (names : Names) (permissions : Permissions) (locators : Locators)
    (g : Grant) : Prop :=
  ∃ r ∈ requests usage names, ∃ gs, r.grants names permissions locators = .ok gs ∧ g ∈ gs

theorem derivePolicies_eq_ok_iff :
    (derivePolicies usage names permissions locators).outcome = .ok m ↔
      ∃ grants,
        (requests usage names).mapM (Request.grants names permissions locators) = .ok grants ∧
          m = .ofGrants grants.flatten := by
  rw [derivePolicies, bind_eq_ok_iff]
  refine exists_congr fun grants => and_congr_right fun _ => ?_
  exact ⟨fun h => (Except.ok.inj h).symm, fun h => h ▸ rfl⟩

/-- A run builds its policies by additions only. -/
theorem reachable_of_derivePolicies
    (h : (derivePolicies usage names permissions locators).outcome = .ok m) : m.Reachable := by
  obtain ⟨grants, -, rfl⟩ := derivePolicies_eq_ok_iff.1 h
  exact Policies.reachable_ofGrants grants.flatten

theorem mem_flatten_iff_made {grants : List (List Grant)}
    (h : (requests usage names).mapM (Request.grants names permissions locators) = .ok grants)
    {g : Grant} : g ∈ grants.flatten ↔ Made usage names permissions locators g := by
  rw [List.mem_flatten]
  refine ⟨?_, ?_⟩
  · rintro ⟨gs, hgs, hg⟩
    obtain ⟨r, hr, hgrants⟩ := (mem_of_mapM_eq_ok h).1 hgs
    exact ⟨r, hr, gs, hgrants, hg⟩
  · rintro ⟨r, hr, gs, hgrants, hg⟩
    exact ⟨gs, (mem_of_mapM_eq_ok h).2 ⟨r, hr, hgrants⟩, hg⟩

theorem holds_iff_made (h : (derivePolicies usage names permissions locators).outcome = .ok m)
    {resource : FullName} {role : RoleName} {member : Member} :
    m.Holds resource role member ↔
      ∃ g, Made usage names permissions locators g ∧ g.Gives resource role member := by
  obtain ⟨grants, hgrants, rfl⟩ := derivePolicies_eq_ok_iff.1 h
  simp only [Policies.holds_ofGrants, mem_flatten_iff_made hgrants]

theorem addresses_iff_made (h : (derivePolicies usage names permissions locators).outcome = .ok m)
    {resource : FullName} :
    m.Addresses resource ↔
      ∃ g, Made usage names permissions locators g ∧ resource = g.resource := by
  obtain ⟨grants, hgrants, rfl⟩ := derivePolicies_eq_ok_iff.1 h
  simp only [Policies.addresses_ofGrants, mem_flatten_iff_made hgrants]

/-- A run that succeeds has found the subject of every application with an identity. -/
theorem exists_subject (h : (derivePolicies usage names permissions locators).outcome = .ok m)
    {app : AppName} {cloud : Member} {cluster : ClusterAccount} {resource : FullName}
    (hid : names.Identifies app cloud cluster resource) :
    ∃ subject, cluster.subject locators = .ok subject := by
  obtain ⟨grants, hgrants, -⟩ := derivePolicies_eq_ok_iff.1 h
  have hrequest : .identity app ∈ requests usage names :=
    mem_requests.2 (.inr ⟨app, cloud, hid.1, rfl⟩)
  obtain ⟨gs, -, hgs⟩ := exists_of_mapM_eq_ok hgrants hrequest
  rw [Request.grants, identityGrants_of_identifies locators hid] at hgs
  obtain ⟨subject, hsubject, -⟩ := map_eq_ok_iff.1 hgs
  exact ⟨subject, hsubject⟩

/-- The grants of a run: one for each known kind of each listed name that has a full name, and two
for each identity. -/
theorem made_iff {g : Grant} :
    Made usage names permissions locators g ↔
      (∃ app member o kind resource, usage.Lists app o ∧
        names.cloudAccounts.get? app = some member ∧ o.kind.isOther = false ∧
          kind ∈ o.kind.effective ∧ names.fullNames.get? kind o.name = some resource ∧
            g = ⟨resource, permissions.roles kind o.operation, member⟩) ∨
      ∃ app cloud cluster resource subject, names.Identifies app cloud cluster resource ∧
        cluster.subject locators = .ok subject ∧
          (g = ⟨resource, [tokenCreator], cloud⟩ ∨
            g = ⟨resource, [workloadIdentityUser], subject⟩) := by
  refine ⟨?_, ?_⟩
  · rintro ⟨r, hr, gs, hgs, hg⟩
    rcases mem_requests.1 hr with ⟨app, u, hu, rfl⟩ | ⟨app, cloud, -, rfl⟩
    · cases hgs
      obtain ⟨member, hmember, o, ho, hg⟩ := mem_usageGrants.1 hg
      obtain ⟨hother, kind, hkind, resource, hresource, rfl⟩ := Occurrence.mem_grants.1 hg
      exact .inl ⟨app, member, o, kind, resource, Usage.lists_iff.2 ⟨u, hu, ho⟩, hmember, hother,
        hkind, hresource, rfl⟩
    · exact .inr ⟨app, (mem_identityGrants hgs).1 hg⟩
  · rintro (⟨app, member, o, kind, resource, hlists, hmember, hother, hkind, hresource, rfl⟩ |
      ⟨app, cloud, cluster, resource, subject, hid, hsubject, hg⟩)
    · obtain ⟨u, hu, ho⟩ := Usage.lists_iff.1 hlists
      refine ⟨.usage app u, mem_requests.2 (.inl ⟨app, u, hu, rfl⟩), _, rfl, ?_⟩
      exact mem_usageGrants.2 ⟨member, hmember, o, ho,
        Occurrence.mem_grants.2 ⟨hother, kind, hkind, resource, hresource, rfl⟩⟩
    · have hgrants := identityGrants_of_identifies locators hid
      rw [hsubject] at hgrants
      exact ⟨.identity app, mem_requests.2 (.inr ⟨app, cloud, hid.1, rfl⟩), _, hgrants, by
        simpa using hg⟩

/-- Who holds what after a run.  The subject of an identity is asked for only where it is the
member: a run that succeeds has found it for both grants. -/
theorem holds_iff_lists_or_identifies
    (h : (derivePolicies usage names permissions locators).outcome = .ok m)
    {resource : FullName} {role : RoleName} {member : Member} :
    m.Holds resource role member ↔
      (∃ app o kind, usage.Lists app o ∧ names.cloudAccounts.get? app = some member ∧
        o.kind.isOther = false ∧ kind ∈ o.kind.effective ∧
          names.fullNames.get? kind o.name = some resource ∧
            role ∈ permissions.roles kind o.operation) ∨
      ∃ app cloud cluster, names.Identifies app cloud cluster resource ∧
        (role = tokenCreator ∧ member = cloud ∨
          role = workloadIdentityUser ∧ cluster.subject locators = .ok member) := by
  rw [holds_iff_made h]
  refine ⟨?_, ?_⟩
  · rintro ⟨g, hg, hresource, hrole, hmember⟩
    rcases made_iff.1 hg with
      ⟨app, x, o, kind, r, hlists, hx, hother, hkind, hr, rfl⟩ |
      ⟨app, cloud, cluster, r, subject, hid, hsubject, rfl | rfl⟩
    · subst hresource hmember
      exact .inl ⟨app, o, kind, hlists, hx, hother, hkind, hr, hrole⟩
    · subst hresource
      exact .inr ⟨app, cloud, cluster, hid, .inl ⟨List.mem_singleton.1 hrole, hmember⟩⟩
    · subst hresource hmember
      exact .inr ⟨app, cloud, cluster, hid, .inr ⟨List.mem_singleton.1 hrole, hsubject⟩⟩
  · rintro (⟨app, o, kind, hlists, hmember, hother, hkind, hresource, hrole⟩ |
      ⟨app, cloud, cluster, hid, ⟨rfl, rfl⟩ | ⟨rfl, hsubject⟩⟩)
    · exact ⟨_, made_iff.2 (.inl ⟨app, member, o, kind, resource, hlists, hmember, hother, hkind,
        hresource, rfl⟩), rfl, hrole, rfl⟩
    · obtain ⟨subject, hsubject⟩ := exists_subject h hid
      exact ⟨_, made_iff.2
        (.inr ⟨app, member, cluster, resource, subject, hid, hsubject, .inl rfl⟩),
        rfl, List.mem_singleton_self _, rfl⟩
    · exact ⟨_, made_iff.2 (.inr ⟨app, cloud, cluster, resource, member, hid, hsubject, .inr rfl⟩),
        rfl, List.mem_singleton_self _, rfl⟩

/-- Which resources have a policy after a run: a listed name addresses its resources even if its
operation needs no role. -/
theorem addresses_iff_lists_or_identifies
    (h : (derivePolicies usage names permissions locators).outcome = .ok m) {resource : FullName} :
    m.Addresses resource ↔
      (∃ app member o kind, usage.Lists app o ∧ names.cloudAccounts.get? app = some member ∧
        o.kind.isOther = false ∧ kind ∈ o.kind.effective ∧
          names.fullNames.get? kind o.name = some resource) ∨
      ∃ app cloud cluster, names.Identifies app cloud cluster resource := by
  rw [addresses_iff_made h]
  refine ⟨?_, ?_⟩
  · rintro ⟨g, hg, rfl⟩
    rcases made_iff.1 hg with
      ⟨app, member, o, kind, r, hlists, hmember, hother, hkind, hr, rfl⟩ |
      ⟨app, cloud, cluster, r, subject, hid, -, rfl | rfl⟩
    · exact .inl ⟨app, member, o, kind, hlists, hmember, hother, hkind, hr⟩
    · exact .inr ⟨app, cloud, cluster, hid⟩
    · exact .inr ⟨app, cloud, cluster, hid⟩
  · rintro (⟨app, member, o, kind, hlists, hmember, hother, hkind, hresource⟩ |
      ⟨app, cloud, cluster, hid⟩)
    · exact ⟨_, made_iff.2 (.inl ⟨app, member, o, kind, resource, hlists, hmember, hother, hkind,
        hresource, rfl⟩), rfl⟩
    · obtain ⟨subject, hsubject⟩ := exists_subject h hid
      exact ⟨_, made_iff.2 (.inr ⟨app, cloud, cluster, resource, subject, hid, hsubject, .inl rfl⟩),
        rfl⟩

/-- **No missing and no excess privilege.**  After a run a member holds a role exactly if it is the
cloud account of an application whose usage needs the role there, or if the role is one of the two
on an application's own account.  A resource has a policy exactly if it is addressed in one of these
ways, whether or not a role comes of it. -/
theorem derivePolicies_grants_exactly
    (h : (derivePolicies usage names permissions locators).outcome = .ok m) :
    (∀ resource role member, m.Holds resource role member ↔
      (∃ app o kind, usage.Lists app o ∧ names.cloudAccounts.get? app = some member ∧
        o.kind.isOther = false ∧ kind ∈ o.kind.effective ∧
          names.fullNames.get? kind o.name = some resource ∧
            role ∈ permissions.roles kind o.operation) ∨
      ∃ app cloud cluster, names.Identifies app cloud cluster resource ∧
        (role = tokenCreator ∧ member = cloud ∨
          role = workloadIdentityUser ∧ cluster.subject locators = .ok member)) ∧
    ∀ resource, m.Addresses resource ↔
      (∃ app member o kind, usage.Lists app o ∧ names.cloudAccounts.get? app = some member ∧
        o.kind.isOther = false ∧ kind ∈ o.kind.effective ∧
          names.fullNames.get? kind o.name = some resource) ∨
      ∃ app cloud cluster, names.Identifies app cloud cluster resource :=
  ⟨fun _ _ _ => holds_iff_lists_or_identifies h, fun _ => addresses_iff_lists_or_identifies h⟩

end Runs

/-! ### A queue of which only the topic has a full name -/

namespace HalfQueue

/-- One application publishes to the queue. -/
def usage : Usage :=
  .ofList [(⟨"a"⟩, .ofList [(.queues, .ofList [(⟨"publish"⟩, [⟨"events"⟩])])])]

/-- The subscription is left out. -/
def names : Names where
  clusterAccounts := .ofList [(⟨"a"⟩, ⟨"ns/a"⟩)]
  cloudAccounts := .ofList [(⟨"a"⟩, ⟨"a@x"⟩)]
  fullNames := FullNames.empty.insertAll [
    ⟨.queueTopics, ⟨"events"⟩, ⟨"topics/events"⟩⟩,
    ⟨.serviceAccounts, ⟨"a"⟩, ⟨"accounts/a"⟩⟩]

/-- What publishing takes. -/
def permissions : Permissions :=
  Permissions.empty.withRoles .queueTopics ⟨"publish"⟩ [⟨"publisher"⟩]

/-- The account may publish to the topic, though the subscription is nowhere to be found. -/
theorem holds_publisher : ∃ m,
    (derivePolicies usage names permissions (.withUnit "x")).outcome = .ok m ∧
      m.Holds ⟨"topics/events"⟩ ⟨"publisher"⟩ ⟨"a@x"⟩ := by
  have h : (derivePolicies usage names permissions (.withUnit "x")).outcome = .ok _ := rfl
  have hlists : usage.Lists ⟨"a"⟩ ⟨.queues, ⟨"publish"⟩, ⟨"events"⟩⟩ :=
    ⟨_, _, _, rfl, rfl, rfl, List.mem_singleton_self _⟩
  exact ⟨_, h, ((derivePolicies_grants_exactly h).1 _ _ _).2 (.inl
    ⟨⟨"a"⟩, _, .queueTopics, hlists, rfl, rfl, by decide, rfl, by decide⟩)⟩

end HalfQueue

end GrantCompiler
