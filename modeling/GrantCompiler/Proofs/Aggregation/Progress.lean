import GrantCompiler.Proofs.Aggregation.Run
import GrantCompiler.Proofs.Locator.Builder

/-!
# One request after another

Policies are aggregated by meeting requests one at a time, and whoever does so sees the policies
grow, the findings come in and each request succeed or fail.  `Progress` is all of that, and
`Progress.run` is a sequence of requests met in turn, any of which may fail or grant nothing.

A step only ever makes the grants of its request (`Request.meet_eq_addAll`), and which those are,
and whether the request fails, is seen from the request alone.  So what a run leaves is told by its
requests (`run_policies`, `run_diagnostics`, `run_endings`), and neither their order nor a request
that is met again makes a difference to the policies.

`derivePolicies` is such a run, of the requests of a usage (`derivePolicies_eq_ok_iff_run`).
-/

set_option autoImplicit false

namespace GrantCompiler

/-! ## One request -/

namespace Request

variable (names : Names) (permissions : Permissions) (locators : Locators)

/-- The grants that meeting a request makes: none if it fails. -/
def granted (r : Request) : List Grant :=
  match r.grants names permissions locators with
  | .ok grants => grants
  | .error _ => []

/-- How meeting a request ends. -/
def ending (r : Request) : Except MissingLocator Unit :=
  (r.grants names permissions locators).map fun _ => ()

/-- Meeting a request makes its grants and does nothing else. -/
theorem meet_eq_addAll (m : Policies) (r : Request) :
    r.meet names permissions locators m = m.addAll (r.granted names permissions locators) := by
  rw [meet, granted]
  cases r.grants names permissions locators <;> rfl

end Request

/-! ## Many requests -/

/-- An aggregation under way. -/
structure Progress where
  policies : Policies
  diagnostics : Diagnostics
  /-- The requests that were met, each with how it ended. -/
  endings : List (Request × Except MissingLocator Unit)

namespace Progress

/-- Nothing has been requested yet. -/
def start : Progress := ⟨.empty, [], []⟩

section Running

variable (names : Names) (permissions : Permissions) (locators : Locators)

/-- Meets one more request. -/
def step (p : Progress) (r : Request) : Progress where
  policies := r.meet names permissions locators p.policies
  diagnostics := p.diagnostics ++ r.findings names permissions
  endings := p.endings ++ [(r, r.ending names permissions locators)]

/-- Meets requests in turn. -/
def run (p : Progress) (rs : List Request) : Progress :=
  rs.foldl (step names permissions locators) p

theorem run_cons (p : Progress) (r : Request) (rest : List Request) :
    run names permissions locators p (r :: rest) =
      run names permissions locators (step names permissions locators p r) rest := rfl

/-- A run makes the grants of its requests. -/
theorem run_policies (p : Progress) (rs : List Request) :
    (run names permissions locators p rs).policies =
      p.policies.addAll (rs.flatMap (Request.granted names permissions locators)) := by
  induction rs generalizing p with
  | nil => rfl
  | cons r rest ih =>
    rw [run_cons, ih, step, Request.meet_eq_addAll, List.flatMap_cons, Policies.addAll_append]

theorem run_diagnostics (p : Progress) (rs : List Request) :
    (run names permissions locators p rs).diagnostics =
      p.diagnostics ++ rs.flatMap (Request.findings names permissions) := by
  induction rs generalizing p with
  | nil => exact (List.append_nil p.diagnostics).symm
  | cons r rest ih =>
    rw [run_cons, ih, step, List.flatMap_cons, List.append_assoc]

theorem run_endings (p : Progress) (rs : List Request) :
    (run names permissions locators p rs).endings =
      p.endings ++ rs.map fun r => (r, r.ending names permissions locators) := by
  induction rs generalizing p with
  | nil => exact (List.append_nil p.endings).symm
  | cons r rest ih =>
    rw [run_cons, ih, step, List.map_cons, List.append_assoc, List.singleton_append]

/-- What runs leave depends on which requests were met, and not on when or how often. -/
theorem run_policies_congr {p : Progress} (hp : p.policies.WellFormed) {rs rs' : List Request}
    (h : ∀ r, r ∈ rs ↔ r ∈ rs') :
    (run names permissions locators p rs).policies =
      (run names permissions locators p rs').policies := by
  rw [run_policies, run_policies]
  refine hp.addAll_congr fun g => ?_
  simp only [List.mem_flatMap, h]

end Running

/-! ## Runs -/

section Runs

variable {usage : Usage} {names : Names} {permissions : Permissions} {locators : Locators}
  {m : Policies}

theorem wellFormed_start : start.policies.WellFormed := Policies.wellFormed_empty

/-- **Deriving the policies of a usage is meeting its requests**, if all of them succeed. -/
theorem derivePolicies_eq_ok_iff_run :
    (derivePolicies usage names permissions locators).outcome = .ok m ↔
      (∀ e ∈ (run names permissions locators start (requests usage names)).endings, e.2 = .ok ()) ∧
        (run names permissions locators start (requests usage names)).policies = m := by
  rw [derivePolicies_eq_ok_iff, run_endings, run_policies]
  have hending : ∀ r : Request, r.ending names permissions locators = .ok () ↔
      r.grants names permissions locators = .ok (r.granted names permissions locators) := by
    intro r
    rw [Request.ending, Request.granted]
    cases r.grants names permissions locators <;> simp [Except.map]
  have hall : (∀ e ∈ start.endings ++ (requests usage names).map fun r =>
        (r, r.ending names permissions locators), e.2 = .ok ()) ↔
      (requests usage names).mapM (Request.grants names permissions locators) =
        .ok ((requests usage names).map (Request.granted names permissions locators)) := by
    rw [mapM_eq_ok_iff, List.map_map, List.map_inj_left]
    simp [start, hending]
  rw [hall, List.flatMap_def]
  refine ⟨?_, ?_⟩
  · rintro ⟨grants, hgrants, rfl⟩
    have hgranted : grants =
        (requests usage names).map (Request.granted names permissions locators) := by
      have hsteps : ∀ r ∈ requests usage names, r.grants names permissions locators =
          .ok (r.granted names permissions locators) := by
        intro r hr
        obtain ⟨gs, -, hgs⟩ := exists_of_mapM_eq_ok hgrants hr
        rw [Request.granted, hgs]
      rw [mapM_eq_ok hsteps] at hgrants
      exact (Except.ok.inj hgrants).symm
    subst hgranted
    exact ⟨hgrants, rfl⟩
  · rintro ⟨hgrants, rfl⟩
    exact ⟨_, hgrants, rfl⟩

/-- **Requests may be met in any order, and again.**  A sequence of requests and a reordering of it
leave the same policies, end each request in the same way and report the same findings; and a
request that was met before leaves the policies, then and later, as if it were not there. -/
theorem run_of_perm (names : Names) (permissions : Permissions) (locators : Locators)
    (rs : List Request) :
    (∀ rs', rs.Perm rs' →
      (run names permissions locators start rs').policies =
        (run names permissions locators start rs).policies ∧
      (run names permissions locators start rs').endings.Perm
        (run names permissions locators start rs).endings ∧
      (run names permissions locators start rs').diagnostics.Perm
        (run names permissions locators start rs).diagnostics) ∧
    ∀ r ∈ rs, ∀ more, (run names permissions locators start (rs ++ r :: more)).policies =
      (run names permissions locators start (rs ++ more)).policies := by
  refine ⟨fun rs' hperm => ⟨?_, ?_, ?_⟩, fun r hr more => ?_⟩
  · exact run_policies_congr names permissions locators wellFormed_start fun r =>
      hperm.symm.mem_iff
  · rw [run_endings, run_endings]
    exact (hperm.symm.map _).append_left _
  · rw [run_diagnostics, run_diagnostics]
    exact (hperm.symm.flatMap_right _).append_left _
  · refine run_policies_congr names permissions locators wellFormed_start fun r' => ?_
    have hmem : r' ∈ rs ++ r :: more ↔ r' = r ∨ r' ∈ rs ++ more := by
      simp only [List.mem_append, List.mem_cons]
      exact or_left_comm
    rw [hmem]
    refine ⟨?_, .inr⟩
    rintro (rfl | hr')
    · exact List.mem_append_left more hr
    · exact hr'

end Runs

/-! ### Names given by hand, and no unit -/

namespace GivenNames

/-- Half of a queue is missing, and so is the cluster account of the second application. -/
def names : Names where
  clusterAccounts := .ofList [(⟨"a"⟩, ⟨"ns/a"⟩)]
  cloudAccounts := .ofList [(⟨"a"⟩, ⟨"a@x"⟩), (⟨"b"⟩, ⟨"b@x"⟩)]
  fullNames := FullNames.empty.insertAll [
    ⟨.queueTopics, ⟨"events"⟩, ⟨"topics/events"⟩⟩,
    ⟨.serviceAccounts, ⟨"a"⟩, ⟨"accounts/a"⟩⟩]

/-- What publishing takes. -/
def permissions : Permissions :=
  Permissions.empty.withRoles .queueTopics ⟨"publish"⟩ [⟨"publisher"⟩]

/-- The usage of an application that publishes. -/
def publishing : AppUsage := .ofList [(.queues, .ofList [(⟨"publish"⟩, [⟨"events"⟩])])]

/-- The second fails, the third is skipped, and the last is of nobody. -/
def requests : List Request :=
  [.usage ⟨"a"⟩ publishing, .identity ⟨"a"⟩, .identity ⟨"b"⟩, .usage ⟨"b"⟩ publishing,
    .usage ⟨"c"⟩ publishing]

/-- Met backwards and with the first request once more, they leave what they left before. -/
theorem met_backwards : requests.Perm requests.reverse ∧ .usage ⟨"a"⟩ publishing ∈ requests ∧
    (run names permissions .initial start requests.reverse).policies =
      (run names permissions .initial start requests).policies ∧
    (run names permissions .initial start requests.reverse).endings.Perm
      (run names permissions .initial start requests).endings ∧
    (run names permissions .initial start requests.reverse).diagnostics.Perm
      (run names permissions .initial start requests).diagnostics ∧
    (run names permissions .initial start (requests ++ [.usage ⟨"a"⟩ publishing])).policies =
      (run names permissions .initial start requests).policies ∧
    (Request.identity ⟨"a"⟩).ending names permissions .initial =
      .error ⟨"unit", "gsaForKSAName"⟩ := by
  have hperm : requests.Perm requests.reverse := (List.reverse_perm requests).symm
  have hmem : .usage ⟨"a"⟩ publishing ∈ requests := List.mem_cons_self
  obtain ⟨horder, hagain⟩ := run_of_perm names permissions .initial requests
  obtain ⟨hpolicies, hendings, hdiagnostics⟩ := horder requests.reverse hperm
  have hrepeated := hagain _ hmem []
  rw [List.append_nil] at hrepeated
  exact ⟨hperm, hmem, hpolicies, hendings, hdiagnostics, hrepeated, rfl⟩

end GivenNames

end Progress

end GrantCompiler
