import GrantCompiler.Proofs.Compilation.Outcome
import GrantCompiler.Proofs.Naming.Exactness
import GrantCompiler.Proofs.Naming.Referent

/-!
# Runs for different stages

Two runs that are made for different stages have nothing in common: no resource, no subject, and, as
long as they are for one unit, no member.  The documents do not matter, and neither do the other
locators, because every name tells the stage it was rendered for (`Referent.stage_eq_of_path_eq` and
its companions).  It remains to see that a run puts out rendered names only: whatever it addresses
is the full name of some referent (`exists_referent_of_addresses`), and whoever holds a role is the
cloud account or the subject of some application (`member_of_holds`).

The unit matters for the members alone.  A mail address closes with it, and a unit may be any text,
even one that reads like the end of an address for another stage.
-/

set_option autoImplicit false

namespace GrantCompiler

section Compiled

variable {apps : Apps} {document : UsageDocument} {locators : Locators} {c : Compilation}

/-! ## What a run puts out -/

/-- Every full name that is held is rendered for something. -/
theorem Names.exists_referent_of_get? {resources : Resources} {kind : Kind} {name : ResourceName}
    {resource : FullName}
    (h : (of apps resources locators).fullNames.get? kind name = some resource) :
    ∃ r : Referent, resource = r.path locators := by
  by_cases hkind : kind = .serviceAccounts
  · subst hkind
    obtain ⟨app, -, -, rfl⟩ := get?_fullNames_of_serviceAccounts_eq_some_iff.1 h
    exact ⟨.account app, rfl⟩
  · obtain ⟨declared, owner, -, he⟩ := (get?_fullNames_of_eq_some_iff hkind).1 h
    rcases Locators.mem_entries.1 he with ⟨-, heq⟩ | ⟨-, half, heq⟩
    · exact ⟨.bucket name, congrArg FullNameEntry.fullName heq⟩
    · exact ⟨.queue owner half name, congrArg FullNameEntry.fullName heq⟩

theorem exists_referent_of_addresses (h : compile apps document locators = .ok c)
    {resource : FullName} (haddresses : c.policies.Addresses resource) :
    ∃ r : Referent, resource = r.path locators := by
  rw [addresses_iff_lists_or_identifies (policies_of_compile h), names_of_compile h] at haddresses
  rcases haddresses with ⟨_, _, _, kind, -, -, -, -, hresource⟩ | ⟨app, _, _, hid⟩
  · exact Names.exists_referent_of_get? hresource
  · obtain ⟨_, -, -, -, hresource⟩ := Names.identifies_of_iff.1 hid
    exact ⟨.account app, hresource⟩

/-- Members are cloud accounts and subjects. -/
theorem member_of_holds (h : compile apps document locators = .ok c) {resource : FullName}
    {role : RoleName} {member : Member} (hholds : c.policies.Holds resource role member) :
    (∃ username, member = locators.memberOf username) ∨
      ∃ account, member = locators.subjectOf account := by
  rw [holds_iff_lists_or_identifies (policies_of_compile h), names_of_compile h] at hholds
  rcases hholds with ⟨app, _, _, -, hmember, -⟩ | ⟨app, _, cluster, hid, hrole⟩
  · rw [Names.get?_cloudAccounts_of, Option.map_eq_some_iff] at hmember
    obtain ⟨_, -, rfl⟩ := hmember
    exact .inl ⟨app.username, rfl⟩
  · obtain ⟨_, -, hcloud, -⟩ := Names.identifies_of_iff.1 hid
    rcases hrole with ⟨-, rfl⟩ | ⟨-, hsubject⟩
    · exact .inl ⟨app.username, hcloud⟩
    · rw [ClusterAccount.subject_eq] at hsubject
      exact .inr ⟨cluster, eq_of_ite_eq_ok hsubject⟩

/-- The subject as which the cluster account of some application acts. -/
def Compilation.HasSubject (c : Compilation) (locators : Locators) (subject : Member) : Prop :=
  ∃ app account, c.names.clusterAccounts.get? app = some account ∧
    account.subject locators = .ok subject

end Compiled

/-! ## Two runs -/

section Stages

variable {apps apps' : Apps} {document document' : UsageDocument} {locators locators' : Locators}
  {c c' : Compilation}

theorem Locators.get?_stage (locators : Locators) :
    locators.get? Locator.stage = some (locators.value Locator.stage) := by
  obtain ⟨-, -, stage, -, hstage⟩ := locators.supported_values
  rw [value, hstage, Option.getD_some]

/-- **Runs for different stages are apart.**  They share no resource, not even one with an empty
policy, and no subject; and if they are for one unit, nobody is a member in both. -/
theorem compile_stages_apart (h : compile apps document locators = .ok c)
    (h' : compile apps' document' locators' = .ok c')
    (hstage : locators.get? Locator.stage ≠ locators'.get? Locator.stage) :
    (∀ resource, c.policies.Addresses resource → ¬ c'.policies.Addresses resource) ∧
    (∀ subject, c.HasSubject locators subject → ¬ c'.HasSubject locators' subject) ∧
    (locators.get? Locator.unit = locators'.get? Locator.unit →
      ∀ resource resource' role role' member, c.policies.Holds resource role member →
        ¬ c'.policies.Holds resource' role' member) := by
  have hne : locators.value Locator.stage ≠ locators'.value Locator.stage := by
    intro heq
    rw [locators.get?_stage, locators'.get?_stage, heq] at hstage
    exact hstage rfl
  refine ⟨fun resource hresource hresource' => hne ?_,
    fun subject hsubject hsubject' => hne ?_,
    fun hunit resource resource' role role' member hholds hholds' => hne ?_⟩
  · obtain ⟨r, hr⟩ := exists_referent_of_addresses h hresource
    obtain ⟨r', hr'⟩ := exists_referent_of_addresses h' hresource'
    exact Referent.stage_eq_of_path_eq (hr.symm.trans hr')
  · obtain ⟨_, account, -, haccount⟩ := hsubject
    obtain ⟨_, account', -, haccount'⟩ := hsubject'
    rw [ClusterAccount.subject_eq] at haccount haccount'
    exact Locators.stage_eq_of_subjectOf_eq
      ((eq_of_ite_eq_ok haccount).symm.trans (eq_of_ite_eq_ok haccount'))
  · have hvalue : locators.value Locator.unit = locators'.value Locator.unit := by
      rw [Locators.value, Locators.value, hunit]
    rcases member_of_holds h hholds with ⟨username, rfl⟩ | ⟨account, rfl⟩ <;>
      rcases member_of_holds h' hholds' with ⟨username', heq⟩ | ⟨account', heq⟩
    · exact Locators.stage_eq_of_memberOf_eq hvalue heq
    · exact absurd heq (Locators.memberOf_ne_subjectOf username account')
    · exact absurd heq.symm (Locators.memberOf_ne_subjectOf username' account)
    · exact Locators.stage_eq_of_subjectOf_eq heq

end Stages

/-! ### One application in two stages -/

namespace TwoStages

/-- The application. -/
def apps : Apps := .ofList [(⟨"ns"⟩, [⟨"billing"⟩])]

/-- Nothing is declared and nothing used. -/
def document : UsageDocument := ⟨.empty, .empty, .empty⟩

/-- For `prod`, the account that the application has for `dev` is no resource. -/
theorem account_not_addressed : ∃ c c',
    compile apps document (.withUnit "x") = .ok c ∧
      compile apps document (.forStage "prod" "x" (by decide)) = .ok c' ∧
        ∃ resource, c.policies.Addresses resource ∧ ¬ c'.policies.Addresses resource := by
  have h : compile apps document (.withUnit "x") = .ok _ := rfl
  have h' : compile apps document (.forStage "prod" "x" (by decide)) = .ok _ := rfl
  refine ⟨_, _, h, h', ⟨"projects/iam-shr-dev-x/serviceAccounts/" ++
    "billing-sa@iam-shr-dev-x.iam.gserviceaccount.com"⟩, ⟨_, rfl⟩, ?_⟩
  exact (compile_stages_apart h h' (by decide)).1 _ ⟨_, rfl⟩

end TwoStages

end GrantCompiler
