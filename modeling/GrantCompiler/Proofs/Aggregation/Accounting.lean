import GrantCompiler.Proofs.Aggregation.Run
import Mathlib.Algebra.Ring.Nat
import Mathlib.Data.List.Count

/-!
# Every occurrence is accounted for

Usage that cannot be granted as it stands is reported, and each shortcoming of it once.  Two things
must not happen: that an occurrence leaves neither a grant nor a report, and that it is reported
twice for one reason, say for both halves of a queue.  `Usage.Tally` says how often each finding is
reported, and it says so by what is listed: an application without an account is reported as such
and for nothing else (`Usage.findings_perm_known`), and of all others every occurrence counts, once
for each of the things that are wrong with it (`Occurrence.findings_eq`).

How many occurrences there are is a matter of the document: `AppUsage.count_occurrences` says that a
name counts as often as it is listed.

Reports do not replace grants.  Whatever is wrong with an occurrence, it is granted on those of its
resources that have a full name, which is the rest of `derivePolicies_accounts`.
-/

set_option autoImplicit false

namespace GrantCompiler

deriving instance DecidableEq for Occurrence

/-! ## Counting -/

/-- Where every item yields something once or not at all, it is found as often as there are items
that yield it. -/
theorem count_flatMap_eq_countP {α β : Type} [BEq β] {f : α → List β} {b : β} {p : α → Bool}
    {l : List α} (h : ∀ a ∈ l, (f a).count b = if p a then 1 else 0) :
    (l.flatMap f).count b = l.countP p := by
  induction l with
  | nil => rfl
  | cons a rest ih =>
    obtain ⟨hhead, htail⟩ := List.forall_mem_cons.1 h
    rw [List.flatMap_cons, List.count_append, hhead, ih htail, List.countP_cons, Nat.add_comm]

/-- What the entry of one key alone can yield. -/
theorem OrderedMap.count_flatMap_toList {K V β : Type} [Ord K] [Std.LawfulEqOrd K] [DecidableEq K]
    [BEq β] [LawfulBEq β] (m : OrderedMap K V) {f : K → V → List β} {k : K} {b : β}
    (h : ∀ k' x, k' ≠ k → b ∉ f k' x) :
    (m.toList.flatMap fun e => f e.1 e.2).count b =
      ((m.get? k).map fun x => (f k x).count b).getD 0 := by
  rw [get?]
  have hascending := m.ascending
  generalize m.toList = l at hascending ⊢
  induction l with
  | nil => rfl
  | cons e rest ih =>
    obtain ⟨hhead, htail⟩ := List.pairwise_cons.1 hascending
    rw [List.flatMap_cons, List.count_append, ih htail, find?]
    by_cases hk : e.1 = k
    · subst hk
      rw [find?_eq_none hhead, if_pos Std.ReflCmp.compare_self]
      rfl
    · have hne : ¬ compare k e.1 = .eq := fun heq => hk (Std.LawfulEqCmp.eq_of_compare heq).symm
      rw [if_neg hne, List.count_eq_zero_of_not_mem (h e.1 e.2 hk), Nat.zero_add]

/-! ## What an application uses -/

namespace AppUsage

/-- The names that are listed for an operation under a kind. -/
def listed (usage : AppUsage) (kind : Kind) (operation : OperationName) : List ResourceName :=
  ((usage.get? kind).bind (·.get? operation)).getD []

/-- A name occurs as often as it is listed. -/
theorem count_occurrences (usage : AppUsage) (o : Occurrence) :
    usage.occurrences.count o = (usage.listed o.kind o.operation).count o.name := by
  obtain ⟨kind, operation, name⟩ := o
  have hnames : ∀ names : List ResourceName,
      (names.map (Occurrence.mk kind operation)).count ⟨kind, operation, name⟩ =
        names.count name := by
    intro names
    exact List.count_map_of_injective names _ (fun a b h => (Occurrence.mk.inj h).2.2) name
  have hoperations : ∀ operations : KindUsage,
      (operations.toList.flatMap fun e => e.2.map (Occurrence.mk kind e.1)).count
        ⟨kind, operation, name⟩ = ((operations.get? operation).getD []).count name := by
    intro operations
    rw [operations.count_flatMap_toList (f := fun operation' names =>
      names.map (Occurrence.mk kind operation')) (k := operation)]
    · cases operations.get? operation with
      | none => rfl
      | some names => exact hnames names
    · intro operation' names hne
      simp [hne]
  show (usage.toList.flatMap fun e => e.2.toList.flatMap fun e' =>
    e'.2.map (Occurrence.mk e.1 e'.1)).count _ = _
  rw [usage.count_flatMap_toList (f := fun kind' operations => operations.toList.flatMap fun e' =>
    e'.2.map (Occurrence.mk kind' e'.1)) (k := kind), listed]
  · cases usage.get? kind with
    | none => rfl
    | some operations => exact hoperations operations
  · intro kind' operations hne
    simp [hne]

end AppUsage

namespace Usage

/-- Every occurrence in a usage. -/
def occurrences (usage : Usage) : List Occurrence := usage.toList.flatMap fun e => e.2.occurrences

theorem count_occurrences (usage : Usage) (o : Occurrence) :
    usage.occurrences.count o =
      (usage.toList.map fun e => (e.2.listed o.kind o.operation).count o.name).sum := by
  rw [occurrences, List.count_flatMap]
  exact congrArg List.sum (List.map_congr_left fun e _ => e.2.count_occurrences o)

/-- The usage of the applications that have an account. -/
def known (usage : Usage) (names : Names) : Usage :=
  usage.filter fun app _ => names.cloudAccounts.contains app

/-- The usage of the applications that have none. -/
def unknown (usage : Usage) (names : Names) : Usage :=
  usage.filter fun app _ => !names.cloudAccounts.contains app

end Usage

/-! ## What is wrong with an occurrence -/

namespace Occurrence

/-- The operation is defined for no kind that the occurrence is granted on. -/
def Undefined (permissions : Permissions) (o : Occurrence) : Prop :=
  o.kind.isOther = false ∧ ∀ kind ∈ o.kind.effective, permissions.defines kind o.operation = false

/-- The name lacks a full name under some kind that the occurrence is granted on. -/
def Undeclared (names : Names) (o : Occurrence) : Prop :=
  o.kind.isOther = false ∧ ∃ kind ∈ o.kind.effective, names.fullNames.get? kind o.name = none

instance (permissions : Permissions) : DecidablePred (Undefined permissions) := fun _ =>
  inferInstanceAs (Decidable (_ ∧ _))

instance (names : Names) : DecidablePred (Undeclared names) := fun _ =>
  inferInstanceAs (Decidable (_ ∧ _))

variable {names : Names} {permissions : Permissions}

theorem findings_eq (o : Occurrence) :
    o.findings names permissions =
      (if o.kind.isOther then [.unsupportedKind o.kind.text] else []) ++
      (if o.Undefined permissions then [.unknownOperation o.kind.text o.operation] else []) ++
      (if o.Undeclared names then [.unknownResource o.kind.text o.name] else []) := by
  rw [findings]
  cases hother : o.kind.isOther with
  | true => simp [Undefined, Undeclared, hother]
  | false =>
    have hundefined : o.Undefined permissions ↔
        (o.kind.effective.any fun kind => permissions.defines kind o.operation) = false := by
      simp [Undefined, hother]
    have hundeclared : o.Undeclared names ↔
        (o.kind.effective.all fun kind => (names.fullNames.get? kind o.name).isSome) = false := by
      simp [Undeclared, hother]
    simp only [hundefined, hundeclared]
    cases o.kind.effective.any fun kind => permissions.defines kind o.operation <;>
      cases o.kind.effective.all fun kind => (names.fullNames.get? kind o.name).isSome <;> rfl

theorem count_ite_singleton {c : Prop} [Decidable c] (a b : Diagnostic) :
    (if c then [a] else []).count b = if a = b ∧ c then 1 else 0 := by
  by_cases hc : c <;> by_cases hab : a = b <;> simp [hc, hab]

theorem kind_text_eq_iff {o : Occurrence} {kind : Kind} : o.kind.text = kind.text ↔ o.kind = kind :=
  ⟨Kind.text_inj, fun h => h ▸ rfl⟩

/-- Each of the three reports is made once or not at all. -/
theorem count_findings (o : Occurrence) (d : Diagnostic) :
    List.count d (o.findings names permissions) =
      (if .unsupportedKind o.kind.text = d ∧ o.kind.isOther then 1 else 0) +
      (if .unknownOperation o.kind.text o.operation = d ∧ o.Undefined permissions then 1 else 0) +
      (if .unknownResource o.kind.text o.name = d ∧ o.Undeclared names then 1 else 0) := by
  rw [findings_eq, List.count_append, List.count_append, count_ite_singleton, count_ite_singleton,
    count_ite_singleton]

theorem count_unsupportedKind (o : Occurrence) (kind : Kind) :
    List.count (.unsupportedKind kind.text) (o.findings names permissions) =
      if o.kind = kind ∧ o.kind.isOther then 1 else 0 := by
  rw [count_findings]
  simp [kind_text_eq_iff]

theorem count_unknownOperation (o : Occurrence) (kind : Kind) (operation : OperationName) :
    List.count (.unknownOperation kind.text operation) (o.findings names permissions) =
      if o.kind = kind ∧ o.operation = operation ∧ o.Undefined permissions then 1 else 0 := by
  rw [count_findings]
  simp [kind_text_eq_iff, and_assoc]

theorem count_unknownResource (o : Occurrence) (kind : Kind) (name : ResourceName) :
    List.count (.unknownResource kind.text name) (o.findings names permissions) =
      if o.kind = kind ∧ o.name = name ∧ o.Undeclared names then 1 else 0 := by
  rw [count_findings]
  simp [kind_text_eq_iff, and_assoc]

/-- An occurrence says nothing about its application, and nothing about names. -/
theorem mem_findings {o : Occurrence} {d : Diagnostic} (h : d ∈ o.findings names permissions) :
    (∃ kind, d = .unsupportedKind kind) ∨ (∃ kind operation, d = .unknownOperation kind operation) ∨
      ∃ kind name, d = .unknownResource kind name := by
  rw [findings_eq, List.mem_append, List.mem_append] at h
  rcases h with (h | h) | h
  · split at h
    · exact .inl ⟨_, List.mem_singleton.1 h⟩
    · cases h
  · split at h
    · exact .inr (.inl ⟨_, _, List.mem_singleton.1 h⟩)
    · cases h
  · split at h
    · exact .inr (.inr ⟨_, _, List.mem_singleton.1 h⟩)
    · cases h

end Occurrence

/-! ## All usage -/

namespace Usage

variable (usage : Usage) (names : Names) (permissions : Permissions)

/-- What is wrong with the occurrences of the known applications, and the unknown ones. -/
theorem findings_perm_known : (usage.findings names permissions).Perm
    ((usage.known names).occurrences.flatMap (Occurrence.findings names permissions) ++
      (usage.unknown names).keys.map .unknownApp) := by
  have hparts : (usage.findings names permissions).Perm
      ((usage.known names).findings names permissions ++
        (usage.unknown names).findings names permissions) :=
    (usage.splitsInto_filter fun app => names.cloudAccounts.contains app).findings_perm
  have hknown : (usage.known names).findings names permissions =
      (usage.known names).occurrences.flatMap (Occurrence.findings names permissions) := by
    rw [findings, occurrences, List.flatMap_assoc]
    refine List.flatMap_congr ?_
    intro e he
    obtain ⟨member, hmember⟩ := Option.isSome_iff_exists.1 (List.mem_filter.1 he).2
    rw [usageFindings, hmember]
  have hunknown : (usage.unknown names).findings names permissions =
      (usage.unknown names).keys.map .unknownApp := by
    rw [findings, OrderedMap.keys, List.map_map, List.map_eq_flatMap]
    refine List.flatMap_congr ?_
    intro e he
    have hnone : names.cloudAccounts.get? e.1 = none := by
      simpa [OrderedMap.contains] using (List.mem_filter.1 he).2
    rw [usageFindings, hnone]
    rfl
  rw [← hknown, ← hunknown]
  exact hparts

/-- How often each finding is reported, told by what the usage lists. -/
structure Tally (ds : Diagnostics) : Prop where
  /-- An application without an account is reported once, however much it uses. -/
  unknownApp : ∀ app, List.count (.unknownApp app) ds =
    if usage.contains app ∧ ¬ names.cloudAccounts.contains app then 1 else 0
  unsupportedKind : ∀ kind, List.count (.unsupportedKind kind.text) ds =
    (usage.known names).occurrences.countP fun o => o.kind = kind ∧ o.kind.isOther
  unknownOperation : ∀ kind operation, List.count (.unknownOperation kind.text operation) ds =
    (usage.known names).occurrences.countP fun o =>
      o.kind = kind ∧ o.operation = operation ∧ o.Undefined permissions
  unknownResource : ∀ kind name, List.count (.unknownResource kind.text name) ds =
    (usage.known names).occurrences.countP fun o =>
      o.kind = kind ∧ o.name = name ∧ o.Undeclared names
  /-- Nothing else is reported. -/
  mem : ∀ d ∈ ds, (∃ app, d = .unknownApp app) ∨ (∃ kind, d = .unsupportedKind kind) ∨
    (∃ kind operation, d = .unknownOperation kind operation) ∨
      ∃ kind name, d = .unknownResource kind name

variable {usage names permissions}

/-- What is not about an application is reported as often as there are occurrences that call for
it. -/
theorem count_findings_eq_countP {d : Diagnostic} {p : Occurrence → Bool}
    (hd : ∀ app, d ≠ .unknownApp app)
    (hp : ∀ o : Occurrence, List.count d (o.findings names permissions) = if p o then 1 else 0) :
    List.count d (usage.findings names permissions) = (usage.known names).occurrences.countP p := by
  have hunknown : d ∉ (usage.unknown names).keys.map Diagnostic.unknownApp := by
    intro h
    obtain ⟨app, -, rfl⟩ := List.mem_map.1 h
    exact hd app rfl
  rw [(usage.findings_perm_known names permissions).count_eq, List.count_append,
    List.count_eq_zero_of_not_mem hunknown, Nat.add_zero]
  exact count_flatMap_eq_countP fun o _ => hp o

theorem count_unknownApp (app : AppName) :
    List.count (.unknownApp app) (usage.findings names permissions) =
      if usage.contains app ∧ ¬ names.cloudAccounts.contains app then 1 else 0 := by
  have hknown : .unknownApp app ∉ (usage.known names).occurrences.flatMap
      (Occurrence.findings names permissions) := by
    intro h
    obtain ⟨o, -, h⟩ := List.mem_flatMap.1 h
    rcases Occurrence.mem_findings h with ⟨_, h⟩ | ⟨_, _, h⟩ | ⟨_, _, h⟩ <;> cases h
  have hkeys : app ∈ (usage.unknown names).keys ↔
      usage.contains app ∧ ¬ names.cloudAccounts.contains app := by
    have hused : usage.contains app = (usage.get? app).isSome := rfl
    rw [OrderedMap.mem_keys, unknown, OrderedMap.get?_filter, hused]
    cases usage.get? app with
    | none => simp
    | some u => simp [Option.filter_eq_some_iff]
  rw [(usage.findings_perm_known names permissions).count_eq, List.count_append,
    List.count_eq_zero_of_not_mem hknown, Nat.zero_add,
    List.count_map_of_injective _ _ (fun a b h => Diagnostic.unknownApp.inj h),
    (usage.unknown names).nodup_keys.count]
  simp only [hkeys]

theorem tally_findings : usage.Tally names permissions (usage.findings names permissions) where
  unknownApp := count_unknownApp
  unsupportedKind := by
    intro kind
    refine count_findings_eq_countP (by simp) fun o => ?_
    rw [o.count_unsupportedKind]
    simp
  unknownOperation := by
    intro kind operation
    refine count_findings_eq_countP (by simp) fun o => ?_
    rw [o.count_unknownOperation]
    simp
  unknownResource := by
    intro kind name
    refine count_findings_eq_countP (by simp) fun o => ?_
    rw [o.count_unknownResource]
    simp
  mem := by
    intro d hd
    rw [(usage.findings_perm_known names permissions).mem_iff, List.mem_append] at hd
    rcases hd with hd | hd
    · obtain ⟨o, -, hd⟩ := List.mem_flatMap.1 hd
      exact .inr (Occurrence.mem_findings hd)
    · obtain ⟨app, -, rfl⟩ := List.mem_map.1 hd
      exact .inl ⟨app, rfl⟩

end Usage

/-! ## What is granted all the same -/

section Runs

variable {usage : Usage} {names : Names} {permissions : Permissions} {locators : Locators}
  {m : Policies}

theorem granted_of_lists (h : (derivePolicies usage names permissions locators).outcome = .ok m)
    {app : AppName} {member : Member} {o : Occurrence} {kind : Kind} {resource : FullName}
    (hlists : usage.Lists app o) (hmember : names.cloudAccounts.get? app = some member)
    (hother : o.kind.isOther = false) (hkind : kind ∈ o.kind.effective)
    (hresource : names.fullNames.get? kind o.name = some resource) :
    m.Addresses resource ∧
      ∀ role ∈ permissions.roles kind o.operation, m.Holds resource role member := by
  refine ⟨?_, ?_⟩
  · rw [addresses_iff_lists_or_identifies h]
    exact .inl ⟨app, member, o, kind, hlists, hmember, hother, hkind, hresource⟩
  · intro role hrole
    rw [holds_iff_lists_or_identifies h]
    exact .inl ⟨app, o, kind, hlists, hmember, hother, hkind, hresource, hrole⟩

/-- **Nothing is dropped without a report, and nothing is reported twice.**  An application without
an account is reported once.  The occurrences of all others count as often as they are listed, and
each of them is reported once for a kind that is not supported, once for an operation that is not
defined, and once for a name of which a full name is missing, be it one or both.  Whichever of its
full names there are, an occurrence addresses them all and is granted on them, even if the other
half of its queue is missing, and even if the operation is unknown and no role comes of it. -/
theorem derivePolicies_accounts
    (h : (derivePolicies usage names permissions locators).outcome = .ok m) :
    usage.Tally names permissions (derivePolicies usage names permissions locators).diagnostics ∧
    (∀ o, (usage.known names).occurrences.count o =
      ((usage.known names).toList.map fun e =>
        (e.2.listed o.kind o.operation).count o.name).sum) ∧
    ∀ app member o kind resource, usage.Lists app o → names.cloudAccounts.get? app = some member →
      o.kind.isOther = false → kind ∈ o.kind.effective →
        names.fullNames.get? kind o.name = some resource → m.Addresses resource ∧
          ∀ role ∈ permissions.roles kind o.operation, m.Holds resource role member := by
  refine ⟨?_, (usage.known names).count_occurrences, ?_⟩
  · rw [diagnostics_derivePolicies]
    exact Usage.tally_findings
  · intro app member o kind resource hlists hmember hother hkind hresource
    exact granted_of_lists h hlists hmember hother hkind hresource

end Runs

/-! ### Everything that can be wrong with an occurrence -/

namespace Shortcomings

/-- One queue is published to twice, and another is read, which no permission provides for. -/
def usage : Usage :=
  .ofList [
    (⟨"a"⟩, .ofList [
      (.queues, .ofList [(⟨"publish"⟩, [⟨"events"⟩, ⟨"events"⟩]), (⟨"read"⟩, [⟨"log"⟩])]),
      (.ofText "tables", .ofList [(⟨"read"⟩, [⟨"t"⟩, ⟨"u"⟩])])]),
    (⟨"ghost"⟩, .ofList [(.queues, .ofList [(⟨"publish"⟩, [⟨"events"⟩, ⟨"lost"⟩])])])]

/-- Neither queue has a subscription. -/
def names : Names where
  clusterAccounts := .empty
  cloudAccounts := .ofList [(⟨"a"⟩, ⟨"a@x"⟩)]
  fullNames := FullNames.empty.insertAll [
    ⟨.queueTopics, ⟨"events"⟩, ⟨"topics/events"⟩⟩, ⟨.queueTopics, ⟨"log"⟩, ⟨"topics/log"⟩⟩]

theorem reported_and_granted : ∃ m ds,
    (derivePolicies usage names HalfQueue.permissions .initial).outcome = .ok m ∧
    ds = (derivePolicies usage names HalfQueue.permissions .initial).diagnostics ∧
    List.count (.unknownApp ⟨"ghost"⟩) ds = 1 ∧
    List.count (.unsupportedKind "tables") ds = 2 ∧
    List.count (.unknownOperation "queues" ⟨"read"⟩) ds = 1 ∧
    List.count (.unknownResource "queues" ⟨"events"⟩) ds = 2 ∧
    List.count (.unknownResource "queues" ⟨"lost"⟩) ds = 0 ∧
    m.Holds ⟨"topics/events"⟩ ⟨"publisher"⟩ ⟨"a@x"⟩ ∧ m.Addresses ⟨"topics/log"⟩ := by
  have h : (derivePolicies usage names HalfQueue.permissions .initial).outcome = .ok _ := rfl
  obtain ⟨htally, -, hgranted⟩ := derivePolicies_accounts h
  have hpublishes : usage.Lists ⟨"a"⟩ ⟨.queues, ⟨"publish"⟩, ⟨"events"⟩⟩ :=
    ⟨_, _, _, rfl, rfl, rfl, List.mem_cons_self⟩
  have hreads : usage.Lists ⟨"a"⟩ ⟨.queues, ⟨"read"⟩, ⟨"log"⟩⟩ :=
    ⟨_, _, _, rfl, rfl, rfl, List.mem_cons_self⟩
  have hevents := hgranted _ ⟨"a@x"⟩ _ .queueTopics ⟨"topics/events"⟩ hpublishes rfl rfl
    (by decide) rfl
  have hlog := hgranted _ ⟨"a@x"⟩ _ .queueTopics ⟨"topics/log"⟩ hreads rfl rfl (by decide) rfl
  refine ⟨_, _, h, rfl, ?_, ?_, ?_, ?_, ?_, hevents.2 _ (by decide), hlog.1⟩
  · exact (htally.unknownApp _).trans (by decide)
  · exact (htally.unsupportedKind (.ofText "tables")).trans (by decide)
  · exact (htally.unknownOperation .queues _).trans (by decide)
  · exact (htally.unknownResource .queues _).trans (by decide)
  · exact (htally.unknownResource .queues _).trans (by decide)

end Shortcomings

end GrantCompiler
