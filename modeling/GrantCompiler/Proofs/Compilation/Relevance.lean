import GrantCompiler.Proofs.Aggregation.Run
import GrantCompiler.Proofs.Compilation.Outcome
import GrantCompiler.Proofs.Naming.Exactness

/-!
# Which permissions matter

A table of permissions may hold a great deal that no run asks for.  A run consults it in two places:
for the roles of an operation, and for whether the operation is known at all.  Both are asked of an
effective kind, for a name that is listed, and for an application that is known
(`Usage.Consults`).  Two tables that agree there compile to the same result, whatever else they say
and in whatever order they name the roles (`compile_congr_permissions`).

What an occurrence asks settles its findings (`Occurrence.findings_congr`), and so the findings of
a run agree one by one and in their order.  Its policies need no such care: they are what they say,
and that is put together from the answers (`policies_eq_of_lists`).

No queue is its own effective kind, and neither is a kind without a meaning.  So what is entered
under these is never read.
-/

set_option autoImplicit false

namespace GrantCompiler

/-! ## What is asked -/

/-- A usage asks for an operation under a kind: one of the known applications lists a name for it,
under a kind that has a meaning and is granted on this one. -/
def Usage.Consults (usage : Usage) (known : AppName → Prop) (kind : Kind)
    (operation : OperationName) : Prop :=
  ∃ app o, known app ∧ usage.Lists app o ∧ o.kind.isOther = false ∧ kind ∈ o.kind.effective ∧
    o.operation = operation

theorem Kind.ne_queues_of_mem_effective {kind declared : Kind} (h : kind ∈ declared.effective)
    (hother : declared.isOther = false) : kind ≠ .queues ∧ kind.isOther = false := by
  cases declared with
  | queues =>
    rcases List.mem_pair.1 h with rfl | rfl
    · exact ⟨by decide, rfl⟩
    · exact ⟨by decide, rfl⟩
  | other text free => cases hother
  | buckets | queueTopics | queueSubscriptions | serviceAccounts =>
    obtain rfl := List.mem_singleton.1 h
    exact ⟨by decide, rfl⟩

/-- An application has a cloud account. -/
def Names.Knows (names : Names) (app : AppName) : Prop :=
  ∃ member, names.cloudAccounts.get? app = some member

/-! ## What is answered -/

namespace Permissions

/-- Two tables agree on an operation: both have an entry for it, with the same roles, or neither
has. -/
def AgreesAt (p q : Permissions) (kind : Kind) (operation : OperationName) : Prop :=
  q.defines kind operation = p.defines kind operation ∧
    ∀ role, role ∈ q.roles kind operation ↔ role ∈ p.roles kind operation

theorem agreesAt_of_lookup_eq {p q : Permissions} {kind : Kind} {operation : OperationName}
    (h : q.lookup kind operation = p.lookup kind operation) : p.AgreesAt q kind operation := by
  refine ⟨?_, fun role => ?_⟩
  · rw [defines, defines, h]
  · rw [roles, roles, h]

end Permissions

section Answers

variable {usage usage' : Usage} {names : Names} {p q : Permissions} {locators : Locators}
  {m m' : Policies}

/-- The findings of an occurrence ask which operations are defined. -/
theorem Occurrence.findings_congr {o : Occurrence} (h : o.kind.isOther = false →
      ∀ kind ∈ o.kind.effective, q.defines kind o.operation = p.defines kind o.operation) :
    o.findings names q = o.findings names p := by
  rw [findings, findings]
  cases hother : o.kind.isOther with
  | true => rfl
  | false =>
    have hany : (o.kind.effective.any fun kind => q.defines kind o.operation) =
        o.kind.effective.any fun kind => p.defines kind o.operation := by
      rw [Bool.eq_iff_iff, List.any_eq_true, List.any_eq_true]
      refine exists_congr fun kind => and_congr_right fun hkind => ?_
      rw [h hother kind hkind]
    rw [hany]

/-- Policies are settled by what is listed, and by the roles of the operations it is listed for. -/
theorem policies_eq_of_lists (hlists : ∀ app o, usage'.Lists app o ↔ usage.Lists app o)
    (hroles : ∀ kind operation, usage.Consults names.Knows kind operation →
      ∀ role, role ∈ q.roles kind operation ↔ role ∈ p.roles kind operation)
    (h : (derivePolicies usage names p locators).outcome = .ok m)
    (h' : (derivePolicies usage' names q locators).outcome = .ok m') : m' = m := by
  have hm : m.WellFormed := (reachable_of_derivePolicies h).wellFormed
  have hm' : m'.WellFormed := (reachable_of_derivePolicies h').wellFormed
  refine hm'.eq_of_iff hm (fun resource => ?_) (fun resource role member => ?_)
  · rw [addresses_iff_lists_or_identifies h', addresses_iff_lists_or_identifies h]
    simp only [hlists]
  · rw [holds_iff_lists_or_identifies h', holds_iff_lists_or_identifies h]
    simp only [hlists]
    refine or_congr_left (exists_congr fun app => exists_congr fun o => exists_congr fun kind => ?_)
    refine and_congr_right fun hlisted => and_congr_right fun hmember =>
      and_congr_right fun hother => and_congr_right fun hkind => and_congr_right fun _ => ?_
    exact hroles kind o.operation ⟨app, o, ⟨member, hmember⟩, hlisted, hother, hkind, rfl⟩ role

end Answers

/-! ## Runs -/

section Runs

variable {usage : Usage} {names : Names} {p q : Permissions}

theorem Usage.findings_congr_permissions
    (h : ∀ kind operation, usage.Consults names.Knows kind operation →
      q.defines kind operation = p.defines kind operation) :
    usage.findings names q = usage.findings names p := by
  refine Usage.findings_congr (fun _ _ _ => rfl) fun app member o hmember hlists => ?_
  refine Occurrence.findings_congr fun hother kind hkind => ?_
  exact h kind o.operation ⟨app, o, ⟨member, hmember⟩, hlists, hother, hkind, rfl⟩

/-- Whether a run fails, and how, is no matter of permissions. -/
theorem outcomes_together (usage : Usage) (names : Names) (p q : Permissions)
    (locators : Locators) :
    (∃ e, (derivePolicies usage names p locators).outcome = .error e ∧
      (derivePolicies usage names q locators).outcome = .error e) ∨
    ∃ m m', (derivePolicies usage names p locators).outcome = .ok m ∧
      (derivePolicies usage names q locators).outcome = .ok m' := by
  rw [outcome_derivePolicies, outcome_derivePolicies]
  cases accountGrants names locators with
  | error e => exact .inl ⟨e, rfl, rfl⟩
  | ok own => exact .inr ⟨_, _, rfl, rfl⟩

theorem derivePolicies_congr_permissions (locators : Locators)
    (h : ∀ kind operation, usage.Consults names.Knows kind operation →
      p.AgreesAt q kind operation) :
    derivePolicies usage names q locators = derivePolicies usage names p locators := by
  refine Reported.ext ?_ ?_
  · rw [diagnostics_derivePolicies, diagnostics_derivePolicies,
      Usage.findings_congr_permissions fun kind operation hconsults => (h kind operation hconsults).1]
  · rcases outcomes_together usage names p q locators with ⟨e, hp, hq⟩ | ⟨m, m', hp, hq⟩
    · rw [hp, hq]
    · rw [hp, hq, policies_eq_of_lists (fun _ _ => Iff.rfl)
        (fun kind operation hconsults => (h kind operation hconsults).2) hp hq]

end Runs

/-! ## Compiling -/

section Compiled

variable {apps : Apps} {document : UsageDocument} {locators : Locators} {permissions : Permissions}

theorem derive_congr_permissions
    (h : ∀ kind operation, document.usage.Consults apps.Declares kind operation →
      document.permissions.AgreesAt permissions kind operation) :
    derive apps { document with permissions } locators = derive apps document locators := by
  refine Reported.bind_congr fun names hnames => ?_
  have hknows : names.Knows = apps.Declares := by
    funext app
    rw [Names.Knows, deriveNames_eq_ok hnames, Names.exists_get?_cloudAccounts_of_iff]
  have hpolicies : derivePolicies document.usage names permissions locators =
      derivePolicies document.usage names document.permissions locators := by
    refine derivePolicies_congr_permissions locators ?_
    rw [hknows]
    exact h
  exact congrArg (· >>= fun policies => pure (names, policies)) hpolicies

/-- **Only the permissions that are asked for matter.**  Tables that agree on each operation for
which a declared application lists a name, under the kinds that the name is granted on, compile to
the same names, policies and findings, or fail alike.  It is enough that they agree on the kinds
that can be granted on: what stands under `queues` itself, or under a kind without a meaning, has
no effect. -/
theorem compile_congr_permissions (apps : Apps) (document : UsageDocument) (locators : Locators)
    (permissions : Permissions) :
    ((∀ kind operation, document.usage.Consults apps.Declares kind operation →
        document.permissions.AgreesAt permissions kind operation) →
      compile apps { document with permissions } locators = compile apps document locators) ∧
    ((∀ kind operation, kind ≠ .queues → kind.isOther = false →
        document.permissions.AgreesAt permissions kind operation) →
      compile apps { document with permissions } locators = compile apps document locators) := by
  have hcompile : (∀ kind operation, document.usage.Consults apps.Declares kind operation →
      document.permissions.AgreesAt permissions kind operation) →
      compile apps { document with permissions } locators = compile apps document locators := by
    intro h
    rw [compile, compile, derive_congr_permissions h]
  refine ⟨hcompile, fun h => hcompile ?_⟩
  rintro kind operation ⟨app, o, -, -, hother, hkind, -⟩
  obtain ⟨hqueues, hmeaning⟩ := Kind.ne_queues_of_mem_effective hkind hother
  exact h kind operation hqueues hmeaning

end Compiled

/-! ### Entries that nobody asks for -/

namespace UnaskedPermissions

/-- The application that asks. -/
def apps : Apps := .ofList [(⟨"ns"⟩, [⟨"billing"⟩])]

/-- The bucket is read by an application that is not declared, and the other lists nothing to be
read. -/
def document : UsageDocument where
  resources := .ofList [
    (.buckets, .ofList [(⟨"own"⟩, [⟨"invoices"⟩])]), (.queues, .ofList [(⟨"own"⟩, [⟨"events"⟩])])]
  permissions :=
    Permissions.empty.withRoles .queueTopics ⟨"publish"⟩ [⟨"publisher"⟩, ⟨"viewer"⟩]
  usage := .ofList [
    (⟨"billing"⟩, .ofList [
      (.buckets, .ofList [(⟨"read"⟩, [])]),
      (.queues, .ofList [(⟨"publish"⟩, [⟨"events"⟩])]),
      (.ofText "tables", .ofList [(⟨"scan"⟩, [⟨"rows"⟩])])]),
    (⟨"ghost"⟩, .ofList [(.buckets, .ofList [(⟨"read"⟩, [⟨"invoices"⟩])])])]

/-- The roles of publishing in another order, and roles for what nobody does. -/
def permissions : Permissions :=
  (((Permissions.empty.withRoles .queueTopics ⟨"publish"⟩ [⟨"viewer"⟩, ⟨"publisher"⟩]).withRoles
    .buckets ⟨"read"⟩ [⟨"reader"⟩]).withRoles
    .queues ⟨"publish"⟩ [⟨"admin"⟩]).withRoles
    (.ofText "tables") ⟨"scan"⟩ [⟨"admin"⟩]

theorem of_consults {kind : Kind} {operation : OperationName}
    (h : document.usage.Consults apps.Declares kind operation) :
    (kind = .queueTopics ∨ kind = .queueSubscriptions) ∧ operation = ⟨"publish"⟩ := by
  obtain ⟨app, o, ⟨space, hlists⟩, hlisted, hother, hkind, rfl⟩ := h
  have hlisting : (space, app) ∈ [((⟨"ns"⟩, ⟨"billing"⟩) : NamespaceName × AppName)] :=
    Apps.mem_listings.2 hlists
  cases List.mem_singleton.1 hlisting
  obtain ⟨u, hu, ho⟩ := Usage.lists_iff.1 hlisted
  cases hu
  have ho : o ∈ [(⟨.queues, ⟨"publish"⟩, ⟨"events"⟩⟩ : Occurrence),
      ⟨.ofText "tables", ⟨"scan"⟩, ⟨"rows"⟩⟩] := ho
  rcases List.mem_pair.1 ho with rfl | rfl
  · exact ⟨List.mem_pair.1 hkind, rfl⟩
  · cases hother

/-- The tables differ under four kinds, and the results do not. -/
theorem compile_unchanged :
    (∀ kind operation, document.usage.Consults apps.Declares kind operation →
      document.permissions.AgreesAt permissions kind operation) ∧
    permissions.lookup .queueTopics ⟨"publish"⟩ ≠
      document.permissions.lookup .queueTopics ⟨"publish"⟩ ∧
    permissions.defines .buckets ⟨"read"⟩ ∧ ¬ document.permissions.defines .buckets ⟨"read"⟩ ∧
    ∃ c, compile apps document (.withUnit "x") = .ok c ∧
      compile apps { document with permissions } (.withUnit "x") = .ok c := by
  have hagrees : ∀ kind operation, document.usage.Consults apps.Declares kind operation →
      document.permissions.AgreesAt permissions kind operation := by
    intro kind operation h
    obtain ⟨rfl | rfl, rfl⟩ := of_consults h
    · refine ⟨rfl, fun role => ?_⟩
      show role ∈ [⟨"viewer"⟩, ⟨"publisher"⟩] ↔ role ∈ [⟨"publisher"⟩, ⟨"viewer"⟩]
      rw [List.mem_pair, List.mem_pair, or_comm]
    · exact Permissions.agreesAt_of_lookup_eq rfl
  have hnameable : Nameable apps document.resources (.withUnit "x") := .inl rfl
  obtain ⟨c, hc⟩ := exists_compile_iff.2 hnameable
  have hequal := (compile_congr_permissions apps document (.withUnit "x") permissions).1 hagrees
  exact ⟨hagrees, by decide, by decide, by decide, c, hc, hequal.trans hc⟩

end UnaskedPermissions

end GrantCompiler
