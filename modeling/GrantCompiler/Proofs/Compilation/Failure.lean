import GrantCompiler.Proofs.Compilation.Outcome
import GrantCompiler.Proofs.Locator.Builder

/-!
# When compiling fails

Names are rendered in many places, and each asks for several locators in turn.  Only the unit can be
missing, so there is little that a run can fail of: it stops at the first name that wants a unit.
Accounts come before declared resources, so that is the account of an application if there is one,
and the project of a queue if there is none (`compile_eq_error_iff`).

Everything that is rendered afterwards is rendered for an application or a queue as well, and so
never fails first.  In particular the policies of a run can always be derived once its names are.
-/

set_option autoImplicit false

namespace GrantCompiler

section Failing

variable {apps : Apps} {resources : Resources} {document : UsageDocument} {locators : Locators}
  {app : AppName} {owner : OwnerKey} {name : ResourceName}

theorem Locators.not_hasUnit_iff : ¬ locators.HasUnit ↔ locators.get? Locator.unit = none := by
  rw [HasUnit, Option.not_isSome_iff_eq_none]

/-! ## Naming -/

/-- Without a unit the first application is not named. -/
theorem outcome_cloudAccounts_eq_error (hunit : ¬ locators.HasUnit) (happ : apps.Declares app) :
    (cloudAccounts apps.homes locators).outcome = .error ⟨Locator.unit, Template.memberName⟩ := by
  have hstep : ∀ app : AppName,
      (do return (app, ← app.cloudAccount locators) : Reported (AppName × Member)).outcome =
        .error ⟨Locator.unit, Template.memberName⟩ := by
    intro app
    rw [Reported.outcome_bind, AppName.outcome_cloudAccount, if_neg hunit]
    rfl
  have hlisted : app ∈ apps.homes.keys := OrderedMap.mem_keys.2 (Apps.declares_iff.1 happ)
  rw [cloudAccounts, Reported.outcome_bind, Reported.outcome_mapM]
  rw [mapM_eq_error (fun app _ e he => Except.error.inj (he.symm.trans (hstep app)))
    ⟨app, hlisted, _, hstep app⟩]
  rfl

theorem outcome_declarationEntries (kind : Kind) (owner : OwnerKey) (name : ResourceName) :
    (declarationEntries locators (kind, owner, name)).outcome =
      kind.entries owner name locators := by
  rw [declarationEntries, Reported.outcome_bind, Reported.outcome_silently]
  cases kind.entries owner name locators with
  | error e => rfl
  | ok entries => cases entries <;> rfl

/-- Without a unit the first queue is not named. -/
theorem outcome_declarations_eq_error (hunit : ¬ locators.HasUnit)
    (hqueue : resources.Declares .queues owner name) :
    (resources.declarations.mapM (declarationEntries locators)).outcome =
      .error ⟨Locator.unit, Template.projectName⟩ := by
  rw [Reported.outcome_mapM]
  refine mapM_eq_error ?_ ⟨(.queues, owner, name), Resources.mem_declarations.2 hqueue, ?_⟩
  · rintro ⟨kind, owner, name⟩ - e he
    rw [outcome_declarationEntries, Kind.entries_eq] at he
    split at he
    · exact (Except.error.inj he).symm
    · cases he
  · refine ⟨⟨Locator.unit, Template.projectName⟩, ?_⟩
    rw [outcome_declarationEntries, Kind.entries_eq, if_pos ⟨rfl, hunit⟩]

theorem deriveNames_eq_error_of_app (hunit : ¬ locators.HasUnit) (happ : apps.Declares app) :
    (deriveNames apps resources locators).outcome =
      .error ⟨Locator.unit, Template.memberName⟩ := by
  rw [deriveNames, Reported.forM_report, Reported.bind_ok, Reported.outcome_bind,
    outcome_cloudAccounts_eq_error hunit happ]
  rfl

theorem deriveNames_eq_error_of_queue (hunit : ¬ locators.HasUnit)
    (hnone : ∀ app, ¬ apps.Declares app) (hqueue : resources.Declares .queues owner name) :
    (deriveNames apps resources locators).outcome =
      .error ⟨Locator.unit, Template.projectName⟩ := by
  -- the applications alone can be named, for there are none
  have happs : Nameable apps .empty locators := by
    refine .inr ⟨hnone, ?_⟩
    rintro owner name ⟨owned, names, howned, -⟩
    cases howned
  rw [deriveNames, Reported.forM_report, Reported.bind_ok, cloudAccounts_eq happs, Reported.bind_ok,
    Reported.outcome_bind, outcome_declarations_eq_error hunit hqueue]
  rfl

/-! ## Compiling -/

theorem compile_eq_error_of_deriveNames {e : MissingLocator}
    (h : (deriveNames apps document.resources locators).outcome = .error e) :
    compile apps document locators = .error e := by
  rw [compile]
  dsimp only
  rw [derive, Reported.outcome_bind, h]
  rfl

/-- **The one way to fail.** -/
theorem compile_eq_error_iff {e : MissingLocator} :
    compile apps document locators = .error e ↔
      locators.get? Locator.unit = none ∧
        ((∃ app, apps.Declares app) ∧ e = ⟨Locator.unit, Template.memberName⟩ ∨
          (∀ app, ¬ apps.Declares app) ∧
            (∃ owner name, document.resources.Declares .queues owner name) ∧
              e = ⟨Locator.unit, Template.projectName⟩) := by
  rw [← Locators.not_hasUnit_iff]
  refine ⟨fun h => ?_, ?_⟩
  · have hnameable : ¬ Nameable apps document.resources locators := by
      intro hnameable
      obtain ⟨c, hc⟩ := exists_compile_iff.2 hnameable
      rw [h] at hc
      cases hc
    have hunit : ¬ locators.HasUnit := fun hunit => hnameable (.inl hunit)
    refine ⟨hunit, ?_⟩
    by_cases happs : ∃ app, apps.Declares app
    · obtain ⟨app, happ⟩ := happs
      have hmember : compile apps document locators = .error ⟨Locator.unit, Template.memberName⟩ :=
        compile_eq_error_of_deriveNames (deriveNames_eq_error_of_app hunit happ)
      exact .inl ⟨⟨app, happ⟩, Except.error.inj (h.symm.trans hmember)⟩
    · have hnone : ∀ app, ¬ apps.Declares app := not_exists.1 happs
      have hqueues : ∃ owner name, document.resources.Declares .queues owner name := by
        refine Classical.byContradiction fun hqueues => hnameable (.inr ⟨hnone, ?_⟩)
        intro owner name hqueue
        exact hqueues ⟨owner, name, hqueue⟩
      obtain ⟨owner, name, hqueue⟩ := hqueues
      have hproject := compile_eq_error_of_deriveNames
        (deriveNames_eq_error_of_queue hunit hnone hqueue)
      exact .inr ⟨hnone, ⟨owner, name, hqueue⟩, Except.error.inj (h.symm.trans hproject)⟩
  · rintro ⟨hunit, ⟨⟨app, happ⟩, rfl⟩ | ⟨hnone, ⟨owner, name, hqueue⟩, rfl⟩⟩
    · exact compile_eq_error_of_deriveNames (deriveNames_eq_error_of_app hunit happ)
    · exact compile_eq_error_of_deriveNames (deriveNames_eq_error_of_queue hunit hnone hqueue)

/-- **When compiling fails.**  Whatever steps a set of locators was collected by, a run fails
exactly if the set has no unit and the documents declare an application or a queue, and the error
names the template that wanted the unit.  Buckets are named without one, and policies can be derived
from any names that could be. -/
theorem compile_fails_iff (apps : Apps) (document : UsageDocument) (locators : Locators) :
    (∀ e, compile apps document locators = .error e ↔
      locators.get? "unit" = none ∧
        ((∃ app, apps.Declares app) ∧ e = ⟨"unit", "gsaName"⟩ ∨
          (∀ app, ¬ apps.Declares app) ∧
            (∃ owner name, document.resources.Declares .queues owner name) ∧
              e = ⟨"unit", "projectName"⟩)) ∧
    (∀ owner name, ∃ path,
      Kind.buckets.entries owner name locators = .ok [⟨.buckets, name, path⟩]) ∧
    ∀ names, (deriveNames apps document.resources locators).outcome = .ok names →
      ∀ usage permissions, ∃ m,
        (derivePolicies usage names permissions locators).outcome = .ok m := by
  refine ⟨fun e => compile_eq_error_iff, fun owner name => ?_, fun names h usage permissions => ?_⟩
  · refine ⟨locators.bucketPath name, ?_⟩
    rw [Kind.entries_eq, if_neg (by simp)]
    rfl
  · have hnames := deriveNames_eq_ok h
    subst hnames
    exact exists_derivePolicies_of_nameable (nameable_of_deriveNames h)

end Failing

/-! ### The default locators, which have no unit -/

namespace NoUnit

/-- An application, which by itself needs the unit. -/
def apps : Apps := .ofList [(⟨"ns"⟩, [⟨"billing"⟩])]

/-- A queue, which needs the unit too. -/
def queue : UsageDocument :=
  ⟨.ofList [(.queues, .ofList [(⟨"own"⟩, [⟨"events"⟩])])], .empty, .empty⟩

/-- A bucket, which does not. -/
def bucket : UsageDocument where
  resources := .ofList [(.buckets, .ofList [(⟨"own"⟩, [⟨"invoices"⟩])])]
  permissions := .empty
  usage := .ofList [(⟨"billing"⟩, .ofList [(.buckets, .ofList [(⟨"read"⟩, [⟨"invoices"⟩])])])]

/-- An application stops the run before a queue does, and a bucket does not stop it. -/
theorem stops : Locator.collect [] = .ok .initial ∧
    compile apps queue .initial = .error ⟨"unit", "gsaName"⟩ ∧
    compile .empty queue .initial = .error ⟨"unit", "projectName"⟩ ∧
    ∃ names m, (deriveNames .empty bucket.resources .initial).outcome = .ok names ∧
      (derivePolicies bucket.usage names bucket.permissions .initial).outcome = .ok m := by
  have hunit : Locators.initial.get? "unit" = none := rfl
  have happ : apps.Declares ⟨"billing"⟩ := ⟨⟨"ns"⟩, _, rfl, List.mem_singleton_self _⟩
  have hqueue : queue.resources.Declares .queues ⟨"own"⟩ ⟨"events"⟩ :=
    ⟨_, _, rfl, rfl, List.mem_singleton_self _⟩
  have hnone : ∀ app, ¬ Apps.Declares .empty app := by
    rintro app ⟨space, names, hnames, -⟩
    cases hnames
  have hnames : (deriveNames .empty bucket.resources .initial).outcome = .ok _ := rfl
  refine ⟨Locator.collect_nil, ?_, ?_, ?_⟩
  · exact ((compile_fails_iff apps queue .initial).1 _).2 ⟨hunit, .inl ⟨⟨_, happ⟩, rfl⟩⟩
  · exact ((compile_fails_iff .empty queue .initial).1 _).2
      ⟨hunit, .inr ⟨hnone, ⟨_, _, hqueue⟩, rfl⟩⟩
  · obtain ⟨m, hm⟩ := (compile_fails_iff .empty bucket .initial).2.2 _ hnames bucket.usage
      bucket.permissions
    exact ⟨_, m, hnames, hm⟩

end NoUnit

end GrantCompiler
