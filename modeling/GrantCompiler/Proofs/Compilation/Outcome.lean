import GrantCompiler.Compilation
import GrantCompiler.Proofs.Aggregation.Grants
import GrantCompiler.Proofs.Naming.Outcome

/-!
# What a compilation consists of

A compilation that succeeds is the names of `Names.of` and the policies of a run over these names
(`compile_eq_ok_iff`, `names_of_compile`).  Its applications are those the document declares, each
with the identity that `Names.identifies_of_iff` spells out.

There is a compilation exactly if everything can be named (`exists_compile_iff`), and it reports
what naming reports and after that what usage does (`diagnostics_of_compile`).
-/

set_option autoImplicit false

namespace GrantCompiler

variable {apps : Apps} {document : UsageDocument} {locators : Locators} {c : Compilation}

theorem compile_eq_ok_iff :
    compile apps document locators = .ok c ↔
      (deriveNames apps document.resources locators).outcome = .ok c.names ∧
        (derivePolicies document.usage c.names document.permissions locators).outcome =
          .ok c.policies ∧
        c.diagnostics = (derive apps document locators).diagnostics := by
  rw [compile]
  dsimp only
  rw [map_eq_ok_iff]
  refine ⟨?_, ?_⟩
  · rintro ⟨⟨names, policies⟩, hderive, rfl⟩
    rw [derive, Reported.outcome_bind, bind_eq_ok_iff] at hderive
    obtain ⟨names', hnames, hderive⟩ := hderive
    rw [Reported.outcome_bind, bind_eq_ok_iff] at hderive
    obtain ⟨policies', hpolicies, hderive⟩ := hderive
    cases hderive
    exact ⟨hnames, hpolicies, rfl⟩
  · rintro ⟨hnames, hpolicies, hdiagnostics⟩
    refine ⟨(c.names, c.policies), ?_, ?_⟩
    · rw [derive, Reported.outcome_bind, hnames]
      refine bind_eq_ok_iff.2 ⟨c.names, rfl, ?_⟩
      rw [Reported.outcome_bind, hpolicies]
      rfl
    · dsimp only
      rw [← hdiagnostics]

theorem names_of_compile (h : compile apps document locators = .ok c) :
    c.names = .of apps document.resources locators :=
  deriveNames_eq_ok (compile_eq_ok_iff.1 h).1

theorem policies_of_compile (h : compile apps document locators = .ok c) :
    (derivePolicies document.usage c.names document.permissions locators).outcome =
      .ok c.policies :=
  (compile_eq_ok_iff.1 h).2.1

/-- The applications with an identity are the declared ones. -/
theorem Names.identifies_of_iff {resources : Resources} {app : AppName} {cloud : Member}
    {cluster : ClusterAccount} {resource : FullName} :
    (of apps resources locators).Identifies app cloud cluster resource ↔
      ∃ space, apps.homes.get? app = some space ∧ cloud = locators.memberOf app.username ∧
        cluster = app.clusterAccount space ∧
        resource = locators.accountPath (locators.memberOf app.username) := by
  rw [Identifies, get?_cloudAccounts_of, get?_clusterAccounts_of, get?_fullNames_of_serviceAccounts]
  cases hhome : apps.homes.get? app with
  | none => simp
  | some space => simp [eq_comm]

theorem identifies_of_compile (h : compile apps document locators = .ok c) {app : AppName}
    {space : NamespaceName} (hhome : apps.homes.get? app = some space) :
    c.names.Identifies app (locators.memberOf app.username) (app.clusterAccount space)
      (locators.accountPath (locators.memberOf app.username)) := by
  rw [names_of_compile h]
  exact Names.identifies_of_iff.2 ⟨space, hhome, rfl, rfl, rfl⟩

/-! ## Success and findings -/

/-- Where names could be derived, no request fails: the one that asks for a locator comes of an
application, and an application has a unit. -/
theorem exists_derivePolicies_of_nameable {resources : Resources} {usage : Usage}
    {permissions : Permissions} (h : Nameable apps resources locators) :
    ∃ m, (derivePolicies usage (.of apps resources locators) permissions locators).outcome =
      .ok m := by
  obtain ⟨grants, hgrants⟩ : ∃ grants, (requests usage (.of apps resources locators)).mapM
      (Request.grants (.of apps resources locators) permissions locators) = .ok grants := by
    refine exists_mapM_eq_ok fun r hr => ?_
    rcases mem_requests.1 hr with ⟨app, u, -, rfl⟩ | ⟨app, cloud, hcloud, rfl⟩
    · exact ⟨_, rfl⟩
    · rw [Names.get?_cloudAccounts_of, Option.map_eq_some_iff] at hcloud
      obtain ⟨space, hhome, -⟩ := hcloud
      have hunit := h.hasUnit_of_app (Apps.declares_iff.2 ⟨space, hhome⟩)
      rw [Request.grants, identityGrants_of_identifies locators
        (Names.identifies_of_iff.2 ⟨space, hhome, rfl, rfl, rfl⟩), ClusterAccount.subject_eq,
        if_pos hunit]
      exact ⟨_, rfl⟩
  exact ⟨_, derivePolicies_eq_ok_iff.2 ⟨grants, hgrants, rfl⟩⟩

theorem exists_compile_iff :
    (∃ c, compile apps document locators = .ok c) ↔ Nameable apps document.resources locators := by
  refine ⟨?_, fun h => ?_⟩
  · rintro ⟨c, h⟩
    exact exists_deriveNames_iff.1 ⟨c.names, (compile_eq_ok_iff.1 h).1⟩
  · obtain ⟨m, hm⟩ := exists_derivePolicies_of_nameable h
    refine ⟨⟨.of apps document.resources locators, m, _⟩, compile_eq_ok_iff.2 ⟨?_, hm, rfl⟩⟩
    rw [deriveNames_eq h]

theorem diagnostics_of_compile (h : compile apps document locators = .ok c) :
    c.diagnostics = namingFindings apps document.resources ++
      (requests document.usage c.names).flatMap
        (Request.findings c.names document.permissions) := by
  obtain ⟨hnames, hpolicies, hdiagnostics⟩ := compile_eq_ok_iff.1 h
  rw [hdiagnostics, derive, Reported.diagnostics_bind hnames, Reported.diagnostics_bind hpolicies,
    deriveNames_eq (nameable_of_deriveNames hnames)]
  exact congrArg (namingFindings apps document.resources ++ ·) (List.append_nil _)

end GrantCompiler
