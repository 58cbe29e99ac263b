import GrantCompiler.Naming.FullName
import GrantCompiler.Naming.Identity
import GrantCompiler.Proofs.Reported

/-!
# What the locators put into a name

Rendering a name asks for locators one at a time, and any of them could be missing.  In a finished
set only the unit can: the company is bound, and provider, region and stage are supported.  So every
name is a plain function of its parts (`Locators.memberOf`, `Locators.bucketPath`, …), and where it
needs the unit it is had exactly if there is one (`HasUnit`).

The lemmas named `…_eq` rewrite each step that renders a name into that form; after them no proof
looks a locator up again.
-/

set_option autoImplicit false

namespace GrantCompiler

namespace Locators

/-! ## The values of a finished set -/

/-- The value of a key; empty where it is not bound. -/
def value (locators : Locators) (key : String) : String := (locators.get? key).getD ""

/-- Whether a unit is bound. -/
def HasUnit (locators : Locators) : Prop := (locators.get? Locator.unit).isSome

instance (locators : Locators) : Decidable locators.HasUnit :=
  inferInstanceAs (Decidable ((locators.get? Locator.unit).isSome = true))

variable {locators : Locators}

theorem require_of_isSome {key : String} (h : (locators.get? key).isSome) (template : String) :
    locators.require key template = .ok (locators.value key) := by
  obtain ⟨x, hx⟩ := Option.isSome_iff_exists.1 h
  rw [require, value, hx, Option.getD_some]

theorem require_unit (template : String) :
    locators.require Locator.unit template =
      if locators.HasUnit then .ok (locators.value Locator.unit)
      else .error ⟨Locator.unit, template⟩ := by
  split
  next h => exact require_of_isSome h template
  next h =>
    have hnone : locators.get? Locator.unit = none := by simpa [HasUnit] using h
    rw [require, hnone]

/-- The region and the provider are the one pair that is supported. -/
theorem supported_values (locators : Locators) :
    locators.get? Locator.provider = some "gcp" ∧ locators.get? Locator.region = some "usce1" ∧
      ∃ stage ∈ Locator.supportedStages, locators.get? Locator.stage = some stage := by
  obtain ⟨provider, region, stage, hsupported, hprovider, hregion, hstage⟩ := locators.supported
  have hgcp : provider = "gcp" := by
    simpa [Locator.supportedProviders] using hsupported.provider_mem
  subst hgcp
  have husce1 : region = "usce1" := by
    simpa [Locator.supportedRegions] using hsupported.region_mem
  exact ⟨hprovider, husce1 ▸ hregion, stage, hsupported.stage_mem, hstage⟩

@[simp] theorem value_provider (locators : Locators) : locators.value Locator.provider = "gcp" := by
  rw [value, locators.supported_values.1, Option.getD_some]

@[simp] theorem value_region (locators : Locators) : locators.value Locator.region = "usce1" := by
  rw [value, locators.supported_values.2.1, Option.getD_some]

theorem value_stage_mem (locators : Locators) :
    locators.value Locator.stage ∈ Locator.supportedStages := by
  obtain ⟨-, -, stage, hmem, hstage⟩ := locators.supported_values
  rwa [value, hstage, Option.getD_some]

theorem require_company (template : String) :
    locators.require Locator.company template = .ok (locators.value Locator.company) :=
  require_of_isSome locators.company_bound template

theorem require_provider (template : String) :
    locators.require Locator.provider template = .ok (locators.value Locator.provider) :=
  require_of_isSome (by rw [locators.supported_values.1]; rfl) template

theorem require_region (template : String) :
    locators.require Locator.region template = .ok (locators.value Locator.region) :=
  require_of_isSome (by rw [locators.supported_values.2.1]; rfl) template

theorem require_stage (template : String) :
    locators.require Locator.stage template = .ok (locators.value Locator.stage) := by
  obtain ⟨-, -, stage, -, hstage⟩ := locators.supported_values
  exact require_of_isSome (by rw [hstage]; rfl) template

/-! ## Names as functions of their parts -/

/-- What is substituted for accounts. -/
def sharedProject (locators : Locators) : Template.SharedProject where
  stage := locators.value Locator.stage
  unit := locators.value Locator.unit

/-- What is substituted for buckets. -/
def bucketSite (locators : Locators) : Template.BucketSite where
  company := locators.value Locator.company
  stage := locators.value Locator.stage
  region := locators.value Locator.region
  provider := locators.value Locator.provider

/-- What is substituted for projects. -/
def projectSite (locators : Locators) : Template.ProjectSite where
  stage := locators.value Locator.stage
  unit := locators.value Locator.unit

/-- What is substituted for queues. -/
def queueSite (locators : Locators) : Template.QueueSite where
  stage := locators.value Locator.stage
  region := locators.value Locator.region
  provider := locators.value Locator.provider

/-- The cloud account under a username. -/
def memberOf (locators : Locators) (username : String) : Member :=
  ⟨Template.member username locators.sharedProject⟩

/-- The subject as which a cluster account acts. -/
def subjectOf (locators : Locators) (account : ClusterAccount) : Member :=
  ⟨Template.subject account.text locators.sharedProject⟩

/-- The path of a cloud account as a resource. -/
def accountPath (locators : Locators) (account : Member) : FullName :=
  ⟨Template.accountFullName account.text locators.sharedProject⟩

/-- The path of a bucket. -/
def bucketPath (locators : Locators) (name : ResourceName) : FullName :=
  ⟨Template.bucketFullName (Template.bucket name.text locators.bucketSite)⟩

/-- The path of one half of a queue. -/
def queuePath (locators : Locators) (owner : OwnerKey) (half : Template.Collection)
    (name : ResourceName) : FullName :=
  ⟨Template.queueFullName (Template.project owner.text locators.projectSite) half
    (Template.queue name.text locators.queueSite)⟩

/-- The full names that one declaration gives rise to. -/
def entries (locators : Locators) (kind : Kind) (owner : OwnerKey) (name : ResourceName) :
    List FullNameEntry :=
  match kind with
  | .buckets => [⟨.buckets, name, locators.bucketPath name⟩]
  | .queues => [
    ⟨.queueTopics, name, locators.queuePath owner .topics name⟩,
    ⟨.queueSubscriptions, name, locators.queuePath owner .subscriptions name⟩]
  | _ => []

end Locators

/-! ## What a declaration gives rise to -/

/-- The kind under which one half of a queue is addressed. -/
def Template.Collection.kind : Template.Collection → Kind
  | topics => .queueTopics
  | subscriptions => .queueSubscriptions

theorem Template.Collection.kind_inj {half half' : Template.Collection}
    (h : half.kind = half'.kind) : half = half' := by
  cases half with
  | topics => cases half' with
    | topics => rfl
    | subscriptions => cases h
  | subscriptions => cases half' with
    | topics => cases h
    | subscriptions => rfl

namespace Locators

variable {locators : Locators} {kind : Kind} {owner : OwnerKey} {name : ResourceName}
  {e : FullNameEntry}

/-- A bucket has one full name, whoever owns it, and a queue has one for each half. -/
theorem mem_entries :
    e ∈ locators.entries kind owner name ↔
      kind = .buckets ∧ e = ⟨.buckets, name, locators.bucketPath name⟩ ∨
        kind = .queues ∧ ∃ half : Template.Collection,
          e = ⟨half.kind, name, locators.queuePath owner half name⟩ := by
  cases kind with
  | queues =>
    simp only [entries, List.mem_cons, List.not_mem_nil, or_false, true_and, reduceCtorEq,
      false_and, false_or]
    refine ⟨?_, ?_⟩
    · rintro (rfl | rfl)
      · exact ⟨.topics, rfl⟩
      · exact ⟨.subscriptions, rfl⟩
    · rintro ⟨half, rfl⟩
      cases half
      · exact .inl rfl
      · exact .inr rfl
  | _ => simp [entries]

theorem queue_mem_entries (half : Template.Collection) :
    ⟨half.kind, name, locators.queuePath owner half name⟩ ∈
      locators.entries .queues owner name :=
  mem_entries.2 (.inr ⟨rfl, half, rfl⟩)

theorem name_of_mem_entries (h : e ∈ locators.entries kind owner name) : e.name = name := by
  rcases mem_entries.1 h with ⟨-, rfl⟩ | ⟨-, half, rfl⟩
  · rfl
  · rfl

theorem kind_ne_serviceAccounts_of_mem_entries (h : e ∈ locators.entries kind owner name) :
    e.kind ≠ .serviceAccounts := by
  rcases mem_entries.1 h with ⟨-, rfl⟩ | ⟨-, half, rfl⟩
  · simp
  · cases half <;> simp [Template.Collection.kind]

/-- The kind of an entry tells the kind it was declared under. -/
theorem kind_eq_of_mem_entries {kind' : Kind} {owner' : OwnerKey} {name' : ResourceName}
    {e' : FullNameEntry} (h : e ∈ locators.entries kind owner name)
    (h' : e' ∈ locators.entries kind' owner' name') (hkind : e.kind = e'.kind) : kind = kind' := by
  rcases mem_entries.1 h with ⟨rfl, rfl⟩ | ⟨rfl, half, rfl⟩ <;>
    rcases mem_entries.1 h' with ⟨rfl, rfl⟩ | ⟨rfl, half', rfl⟩
  · rfl
  · cases half' <;> cases hkind
  · cases half <;> cases hkind
  · rfl

/-- A declaration has one entry of each kind that it gives rise to. -/
theorem eq_of_mem_entries {e' : FullNameEntry} (h : e ∈ locators.entries kind owner name)
    (h' : e' ∈ locators.entries kind owner name) (hkind : e.kind = e'.kind) : e = e' := by
  rcases mem_entries.1 h with ⟨rfl, rfl⟩ | ⟨rfl, half, rfl⟩ <;>
    rcases mem_entries.1 h' with ⟨hkind', rfl⟩ | ⟨hkind', half', rfl⟩
  · rfl
  · cases hkind'
  · cases hkind'
  · cases Template.Collection.kind_inj hkind
    rfl

/-- Every owner gives a short name entries of the same kinds. -/
theorem exists_mem_entries (owner' : OwnerKey) (h : e ∈ locators.entries kind owner name) :
    ∃ e' ∈ locators.entries kind owner' name, e'.kind = e.kind := by
  rcases mem_entries.1 h with ⟨rfl, rfl⟩ | ⟨rfl, half, rfl⟩
  · exact ⟨_, mem_entries.2 (.inl ⟨rfl, rfl⟩), rfl⟩
  · exact ⟨_, queue_mem_entries half, rfl⟩

end Locators

/-! ## Rendering -/

variable {locators : Locators}

theorem Template.SharedProject.resolve_eq (template : String) :
    SharedProject.resolve locators template =
      if locators.HasUnit then .ok locators.sharedProject else .error ⟨Locator.unit, template⟩ := by
  rw [resolve, Locators.require_stage, Locators.require_unit]
  split <;> rfl

theorem Template.BucketSite.resolve_eq : BucketSite.resolve locators = .ok locators.bucketSite := by
  rw [resolve, Locators.require_company, Locators.require_stage, Locators.require_region,
    Locators.require_provider]
  rfl

theorem Template.ProjectSite.resolve_eq :
    ProjectSite.resolve locators =
      if locators.HasUnit then .ok locators.projectSite
      else .error ⟨Locator.unit, Template.projectName⟩ := by
  rw [resolve, Locators.require_stage, Locators.require_unit]
  split <;> rfl

theorem Template.QueueSite.resolve_eq : QueueSite.resolve locators = .ok locators.queueSite := by
  rw [resolve, Locators.require_stage, Locators.require_region, Locators.require_provider]
  rfl

theorem AppName.outcome_cloudAccount (app : AppName) :
    (app.cloudAccount locators).outcome =
      if locators.HasUnit then .ok (locators.memberOf app.username)
      else .error ⟨Locator.unit, Template.memberName⟩ := by
  rw [cloudAccount, Template.SharedProject.resolve_eq]
  split <;> split <;> rfl

theorem ClusterAccount.subject_eq (account : ClusterAccount) :
    account.subject locators =
      if locators.HasUnit then .ok (locators.subjectOf account)
      else .error ⟨Locator.unit, Template.subjectName⟩ := by
  rw [subject, Template.SharedProject.resolve_eq]
  split <;> rfl

theorem Member.fullName_eq (account : Member) :
    account.fullName locators =
      if locators.HasUnit then .ok (locators.accountPath account)
      else .error ⟨Locator.unit, Template.accountPath⟩ := by
  rw [fullName, Template.SharedProject.resolve_eq]
  split <;> rfl

/-- Declaring a resource fails only for want of a unit, and only for a queue. -/
theorem Kind.entries_eq (kind : Kind) (owner : OwnerKey) (name : ResourceName) :
    kind.entries owner name locators =
      if kind = .queues ∧ ¬ locators.HasUnit then .error ⟨Locator.unit, Template.projectName⟩
      else .ok (locators.entries kind owner name) := by
  cases kind with
  | buckets =>
    rw [entries, bucketEntries, Template.BucketSite.resolve_eq]
    rfl
  | queues =>
    rw [entries, queueEntries, Template.QueueSite.resolve_eq, Template.ProjectSite.resolve_eq]
    by_cases h : locators.HasUnit <;> simp [h] <;> rfl
  | queueTopics => rfl
  | queueSubscriptions => rfl
  | serviceAccounts => rfl
  | other => rfl

theorem entries_eq_ok {kind : Kind} {owner : OwnerKey} {name : ResourceName}
    {entries : List FullNameEntry} (h : kind.entries owner name locators = .ok entries) :
    entries = locators.entries kind owner name := by
  rw [Kind.entries_eq] at h
  split at h
  · cases h
  · exact (Except.ok.inj h).symm

end GrantCompiler
