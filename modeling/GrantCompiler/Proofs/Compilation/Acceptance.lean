import GrantCompiler.Proofs.Compilation.Outcome
import GrantCompiler.Proofs.Naming.Exactness

/-!
# When nothing is reported

A strict run refuses documents over any finding, so what it accepts is what compiles without one.
`Acceptable` says that of the documents and the locators alone.

The findings of a compilation are those of naming and those of usage (`diagnostics_of_compile`).
Naming has its conditions in `namingFindings_eq_nil_iff`.  A finding of usage is about one
application or one occurrence (`usageFindings_eq_nil_iff`, `Occurrence.findings_eq_nil_iff`), and
whether a name is known there is settled by `Names.exists_get?_fullNames_of_iff`: both halves of a
queue are known, or neither is.
-/

set_option autoImplicit false

namespace GrantCompiler

/-! ## The findings of usage -/

section Usage

variable {names : Names} {permissions : Permissions}

theorem Occurrence.findings_eq_nil_iff {o : Occurrence} :
    o.findings names permissions = [] ↔
      (o.kind.isOther = false ∧
        ∃ kind ∈ o.kind.effective, permissions.defines kind o.operation = true) ∧
      ∀ kind ∈ o.kind.effective, ∃ path, names.fullNames.get? kind o.name = some path := by
  rw [findings]
  cases hother : o.kind.isOther with
  | true => simp
  | false => simp [Option.isSome_iff_exists, List.append_eq_nil_iff]

theorem usageFindings_eq_nil_iff {app : AppName} {usage : AppUsage} :
    usageFindings names permissions app usage = [] ↔
      (∃ member, names.cloudAccounts.get? app = some member) ∧
        ∀ o ∈ usage.occurrences, o.findings names permissions = [] := by
  rw [usageFindings]
  cases names.cloudAccounts.get? app with
  | none => simp
  | some member => simp

/-- The account of an application is not reported on, so only usage is. -/
theorem requestFindings_eq_nil_iff {usage : Usage} :
    (requests usage names).flatMap (Request.findings names permissions) = [] ↔
      (∀ app u, usage.get? app = some u → ∃ member, names.cloudAccounts.get? app = some member) ∧
        ∀ app o, usage.Lists app o → o.findings names permissions = [] := by
  rw [List.flatMap_eq_nil_iff]
  refine ⟨fun h => ⟨fun app u hu => ?_, fun app o hlists => ?_⟩, ?_⟩
  · have hrequest := h (.usage app u) (mem_requests.2 (.inl ⟨app, u, hu, rfl⟩))
    exact (usageFindings_eq_nil_iff.1 hrequest).1
  · obtain ⟨u, hu, ho⟩ := Usage.lists_iff.1 hlists
    have hrequest := h (.usage app u) (mem_requests.2 (.inl ⟨app, u, hu, rfl⟩))
    exact (usageFindings_eq_nil_iff.1 hrequest).2 o ho
  · rintro ⟨hknown, hclean⟩ r hr
    rcases mem_requests.1 hr with ⟨app, u, hu, rfl⟩ | ⟨app, cloud, -, rfl⟩
    · exact usageFindings_eq_nil_iff.2
        ⟨hknown app u hu, fun o ho => hclean app o (Usage.lists_iff.2 ⟨u, hu, ho⟩)⟩
    · rfl

end Usage

/-! ## What is accepted -/

section Accepted

variable {apps : Apps} {document : UsageDocument} {locators : Locators}

/-- Documents and locators that compile without a finding. -/
structure Acceptable (apps : Apps) (document : UsageDocument) (locators : Locators) : Prop where
  nameable : Nameable apps document.resources locators
  one_home : ∀ app space space', apps.Lists space app → apps.Lists space' app → space = space'
  valid_username : ∀ app, apps.Declares app → Username.valid app.username = true
  declarable : ∀ kind owner name, document.resources.Declares kind owner name →
    kind = .buckets ∨ kind = .queues
  /-- An application counts as used even if it uses nothing. -/
  app_declared : ∀ app u, document.usage.get? app = some u → apps.Declares app
  /-- It is enough that one half of a queue knows an operation, if only without roles. -/
  operation_defined : ∀ app o, document.usage.Lists app o → o.kind.isOther = false ∧
    ∃ kind ∈ o.kind.effective, document.permissions.defines kind o.operation = true
  bucket_declared : ∀ app o, document.usage.Lists app o → o.kind = .buckets →
    ∃ owner, document.resources.Declares .buckets owner o.name
  /-- A queue is declared as a whole, also where only one half of it is used. -/
  queue_declared : ∀ app o, document.usage.Lists app o →
    o.kind = .queues ∨ o.kind = .queueTopics ∨ o.kind = .queueSubscriptions →
      ∃ owner, document.resources.Declares .queues owner o.name
  account_declared : ∀ app o, document.usage.Lists app o → o.kind = .serviceAccounts →
    ∃ app', apps.Declares app' ∧ o.name = app'.asResource

/-- Whether the names of a run know what an occurrence needs, by its kind. -/
theorem exists_get?_effective_iff {resources : Resources} {o : Occurrence}
    (hother : o.kind.isOther = false) :
    (∀ kind ∈ o.kind.effective, ∃ path,
        (Names.of apps resources locators).fullNames.get? kind o.name = some path) ↔
      (o.kind = .buckets → ∃ owner, resources.Declares .buckets owner o.name) ∧
      (o.kind = .queues ∨ o.kind = .queueTopics ∨ o.kind = .queueSubscriptions →
        ∃ owner, resources.Declares .queues owner o.name) ∧
      (o.kind = .serviceAccounts → ∃ app, apps.Declares app ∧ o.name = app.asResource) := by
  simp only [Names.exists_get?_fullNames_of_iff]
  obtain ⟨kind, operation, name⟩ := o
  cases kind with
  | other text free => cases hother
  | _ => simp [Kind.effective, Declared]

/-- **What a strict run accepts.** -/
theorem compile_clean_iff :
    (∃ c, compile apps document locators = .ok c ∧ c.diagnostics = []) ↔
      Acceptable apps document locators := by
  refine ⟨?_, fun h => ?_⟩
  · rintro ⟨c, h, hclean⟩
    rw [diagnostics_of_compile h, List.append_eq_nil_iff, namingFindings_eq_nil_iff,
      requestFindings_eq_nil_iff, names_of_compile h] at hclean
    obtain ⟨⟨hhome, husername, hdeclarable⟩, happ, hoccurrence⟩ := hclean
    have hknown := fun app o hlists =>
      Occurrence.findings_eq_nil_iff.1 (hoccurrence app o hlists)
    have hnames := fun app o hlists =>
      (exists_get?_effective_iff (hknown app o hlists).1.1).1 (hknown app o hlists).2
    exact {
      nameable := exists_compile_iff.1 ⟨c, h⟩
      one_home := hhome
      valid_username := husername
      declarable := hdeclarable
      app_declared := fun app u hu => Names.exists_get?_cloudAccounts_of_iff.1 (happ app u hu)
      operation_defined := fun app o hlists => (hknown app o hlists).1
      bucket_declared := fun app o hlists => (hnames app o hlists).1
      queue_declared := fun app o hlists => (hnames app o hlists).2.1
      account_declared := fun app o hlists => (hnames app o hlists).2.2 }
  · obtain ⟨c, hc⟩ := exists_compile_iff.2 h.nameable
    refine ⟨c, hc, ?_⟩
    rw [diagnostics_of_compile hc, List.append_eq_nil_iff, namingFindings_eq_nil_iff,
      requestFindings_eq_nil_iff, names_of_compile hc]
    refine ⟨⟨h.one_home, h.valid_username, h.declarable⟩, fun app u hu => ?_,
      fun app o hlists => ?_⟩
    · exact Names.exists_get?_cloudAccounts_of_iff.2 (h.app_declared app u hu)
    · have hoperation := h.operation_defined app o hlists
      refine Occurrence.findings_eq_nil_iff.2 ⟨hoperation, ?_⟩
      exact (exists_get?_effective_iff hoperation.1).2
        ⟨h.bucket_declared app o hlists, h.queue_declared app o hlists,
          h.account_declared app o hlists⟩

end Accepted

/-! ### Lists that are empty -/

namespace EmptyLists

/-- Nothing is listed here, so it does not matter that the kind and the operation are unknown. -/
def document : UsageDocument where
  resources := .ofList [(.ofText "tables", .ofList [(⟨"own"⟩, [])])]
  permissions := .empty
  usage := .ofList [(⟨"billing"⟩, .ofList [(.ofText "tables", .ofList [(⟨"read"⟩, [])])])]

example : ∃ c, compile (.ofList [(⟨"ns"⟩, [⟨"billing"⟩])]) document (.withUnit "x") = .ok c ∧
    c.diagnostics = [] :=
  ⟨_, rfl, by decide⟩

end EmptyLists

end GrantCompiler
