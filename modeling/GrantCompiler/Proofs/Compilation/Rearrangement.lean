import GrantCompiler.Policy.Record
import GrantCompiler.Proofs.Aggregation.Run
import GrantCompiler.Proofs.Compilation.Failure
import GrantCompiler.Proofs.Compilation.Relevance
import GrantCompiler.Proofs.Naming.Rearrangement

/-!
# Compiling documents that list the same

Documents are written by hand, and a list in them is grown at either end, sorted, or pasted together
from others.  None of this reaches the result: documents that list the same names compile to the
same names and the same policies, or fail of the same locator.

For the policies it is enough that what is listed is the same, and so are the roles that are asked
for (`policies_eq_of_lists`).  The findings are reported one for each time
that something is listed, so they follow a reordering of the lists and nothing more.
-/

set_option autoImplicit false

namespace GrantCompiler

/-! ## Policies -/

section Policies

variable {usage usage' : Usage} {names : Names} {permissions permissions' : Permissions}
  {locators : Locators} {m m' : Policies}

/-- **The order of a list does not show in the policies.** -/
theorem derivePolicies_congr (husage : usage.Alike SameNames usage')
    (hpermissions : permissions.Alike SameNames permissions')
    (h : (derivePolicies usage names permissions locators).outcome = .ok m)
    (h' : (derivePolicies usage' names permissions' locators).outcome = .ok m') : m = m' := by
  refine (policies_eq_of_lists (fun app o => (husage.lists_iff app o).symm) ?_ h h').symm
  intro kind operation _ role
  exact (hpermissions.mem_roles_iff kind operation role).symm

/-! ## Findings -/

theorem usageFindings_perm {u u' : AppUsage} (hu : u.Alike Reordered u')
    (hpermissions : permissions.Alike Reordered permissions') (app : AppName) :
    (usageFindings names permissions app u).Perm (usageFindings names permissions' app u') := by
  have hfindings : Occurrence.findings names permissions = Occurrence.findings names permissions' :=
    funext fun o => Occurrence.findings_congr fun _ kind _ =>
      hpermissions.defines_eq kind o.operation
  rw [usageFindings, usageFindings, hfindings]
  cases names.cloudAccounts.get? app with
  | none => exact .refl _
  | some member => exact hu.occurrences_perm.flatMap_right _

theorem Usage.findings_perm (husage : usage.Alike Reordered usage')
    (hpermissions : permissions.Alike Reordered permissions') :
    (usage.findings names permissions).Perm (usage'.findings names permissions') :=
  OrderedMap.Alike.flatMap_perm husage fun app _ _ hu => usageFindings_perm hu hpermissions app

end Policies

/-! ## Compiling -/

section Compiled

variable {apps apps' : Apps} {document document' : UsageDocument} {locators : Locators}

theorem compile_eq_error_congr (happs : apps.Alike SameNames apps')
    (hdocument : document.Alike SameNames document') (e : MissingLocator) :
    compile apps document locators = .error e ↔ compile apps' document' locators = .error e := by
  rw [compile_eq_error_iff, compile_eq_error_iff]
  simp only [happs.declares_iff, hdocument.resources.declares_iff]

theorem names_congr {c c' : Compilation} (happs : apps.Alike SameNames apps')
    (hdocument : document.Alike SameNames document') (h : compile apps document locators = .ok c)
    (h' : compile apps' document' locators = .ok c') : c.names = c'.names := by
  rw [names_of_compile h, names_of_compile h']
  exact Names.of_congr happs hdocument.resources

theorem policies_congr {c c' : Compilation} (happs : apps.Alike SameNames apps')
    (hdocument : document.Alike SameNames document') (h : compile apps document locators = .ok c)
    (h' : compile apps' document' locators = .ok c') : c.policies = c'.policies := by
  have hpolicies := policies_of_compile h
  rw [names_congr happs hdocument h h'] at hpolicies
  exact derivePolicies_congr hdocument.usage hdocument.permissions hpolicies
    (policies_of_compile h')

theorem findings_of_compile {c : Compilation} (h : compile apps document locators = .ok c) :
    c.diagnostics = namingFindings apps document.resources ++
      document.usage.findings c.names document.permissions := by
  rw [diagnostics_of_compile h, flatMap_findings_requests]

theorem diagnostics_perm {c c' : Compilation} (happs : apps.Alike Reordered apps')
    (hdocument : document.Alike Reordered document') (h : compile apps document locators = .ok c)
    (h' : compile apps' document' locators = .ok c') : c.diagnostics.Perm c'.diagnostics := by
  have hnames : c.names = c'.names := names_congr happs.sameNames hdocument.sameNames h h'
  have hhomes : apps.homes = apps'.homes := happs.sameNames.homes_eq
  rw [findings_of_compile h, findings_of_compile h', hnames]
  exact (namingFindings_perm hhomes happs hdocument.resources).append
    (Usage.findings_perm hdocument.usage hdocument.permissions)

/-- **Neither the order of a list nor a repetition in it matters.**  Documents that list the same
names fail of the same locator, or yield the same names and the same policies and write the same
bytes to every device.  Where the lists are reordered only, the findings are too. -/
theorem compile_of_alike (happs : apps.Alike SameNames apps')
    (hdocument : document.Alike SameNames document') (locators : Locators) :
    (∃ e, compile apps document locators = .error e ∧
      compile apps' document' locators = .error e) ∨
    ∃ c c', compile apps document locators = .ok c ∧ compile apps' document' locators = .ok c' ∧
      c.names = c'.names ∧ c.policies = c'.policies ∧
      (∀ (layout : Layout) (d : Device),
        d.writePolicies layout c.policies = d.writePolicies layout c'.policies) ∧
      (apps.Alike Reordered apps' → document.Alike Reordered document' →
        c.diagnostics.Perm c'.diagnostics) := by
  cases h : compile apps document locators with
  | error e => exact .inl ⟨e, rfl, (compile_eq_error_congr happs hdocument e).1 h⟩
  | ok c =>
    cases h' : compile apps' document' locators with
    | error e =>
      have hfails := (compile_eq_error_congr happs hdocument e).2 h'
      rw [h] at hfails
      cases hfails
    | ok c' =>
      have hpolicies : c.policies = c'.policies := policies_congr happs hdocument h h'
      refine .inr ⟨c, c', rfl, rfl, names_congr happs hdocument h h', hpolicies, ?_, ?_⟩
      · intro layout d
        rw [hpolicies]
      · intro happs' hdocument'
        exact diagnostics_perm happs' hdocument' h h'

end Compiled

/-! ### Lists read backwards -/

namespace Backwards

/-- Two applications, both of which change hands. -/
def apps : Apps :=
  .ofList [(⟨"ns1"⟩, [⟨"billing"⟩, ⟨"orders"⟩]), (⟨"ns2"⟩, [⟨"billing"⟩, ⟨"orders"⟩])]

/-- The same the other way round. -/
def apps' : Apps :=
  .ofList [(⟨"ns1"⟩, [⟨"orders"⟩, ⟨"billing"⟩]), (⟨"ns2"⟩, [⟨"orders"⟩, ⟨"billing"⟩])]

/-- Queues, of which one is used and one is not, and one that is not declared. -/
def document : UsageDocument where
  resources := .ofList [(.queues, .ofList [(⟨"own"⟩, [⟨"events"⟩, ⟨"alarms"⟩])])]
  permissions := Permissions.empty.withRoles .queueTopics ⟨"send"⟩ [⟨"publisher"⟩, ⟨"viewer"⟩]
  usage := .ofList [
    (⟨"orders"⟩, .ofList [(.queues, .ofList [(⟨"send"⟩, [⟨"events"⟩, ⟨"bills"⟩])])])]

/-- The same with every list the other way round. -/
def document' : UsageDocument where
  resources := .ofList [(.queues, .ofList [(⟨"own"⟩, [⟨"alarms"⟩, ⟨"events"⟩])])]
  permissions := Permissions.empty.withRoles .queueTopics ⟨"send"⟩ [⟨"viewer"⟩, ⟨"publisher"⟩]
  usage := .ofList [
    (⟨"orders"⟩, .ofList [(.queues, .ofList [(⟨"send"⟩, [⟨"bills"⟩, ⟨"events"⟩])])])]

theorem apps_alike : apps.Alike Reordered apps' :=
  .cons ⟨rfl, .swap _ _ _⟩ (.cons ⟨rfl, .swap _ _ _⟩ .nil)

theorem document_alike : document.Alike Reordered document' where
  resources := .cons ⟨rfl, .cons ⟨rfl, .swap _ _ _⟩ .nil⟩ .nil
  permissions := .cons ⟨rfl, .cons ⟨rfl, .swap _ _ _⟩ .nil⟩ .nil
  usage := .cons ⟨rfl, .cons ⟨rfl, .cons ⟨rfl, .swap _ _ _⟩ .nil⟩ .nil⟩ .nil

/-- Both compile to the same policies, but the changes of hands come up in another order. -/
theorem compile_same : ∃ c c', compile apps document (.withUnit "x") = .ok c ∧
    compile apps' document' (.withUnit "x") = .ok c' ∧ c.names = c'.names ∧
      c.policies = c'.policies ∧ c.diagnostics.Perm c'.diagnostics ∧
        c.diagnostics ≠ c'.diagnostics := by
  have hunit : (Locators.withUnit "x").get? "unit" = some "x" := rfl
  rcases compile_of_alike apps_alike.sameNames document_alike.sameNames (.withUnit "x") with
    ⟨e, he, -⟩ | ⟨c, c', hc, hc', hnames, hpolicies, -, hdiagnostics⟩
  · have hnone := (compile_eq_error_iff.1 he).1
    cases hunit.symm.trans hnone
  · refine ⟨c, c', hc, hc', hnames, hpolicies, hdiagnostics apps_alike document_alike, ?_⟩
    rw [findings_of_compile hc, findings_of_compile hc', names_of_compile hc, names_of_compile hc']
    decide

end Backwards

end GrantCompiler
