import GrantCompiler.Proofs.Aggregation.Grants
import GrantCompiler.Proofs.Policy.Canonical
import Mathlib.Data.List.Basic

/-!
# A run in its two halves

A run asks for the grants of all usage and after that for those of every account.  The first half
never fails and reports everything that is reported; the second depends on no usage, and it alone
decides whether the run fails and how (`outcome_derivePolicies`, `diagnostics_derivePolicies`).

So a usage may be cut in two, with every application and all it uses in one of the parts.  Each part
makes the grants of all accounts once more, which is no more than making them once: the policies of
the two parts, merged in either order, are those of the whole.
-/

set_option autoImplicit false

namespace GrantCompiler

/-- The grants that all usage asks for, in the order of the document. -/
def Usage.grants (usage : Usage) (names : Names) (permissions : Permissions) : List Grant :=
  usage.toList.flatMap fun e => usageGrants names permissions e.1 e.2

/-- What is wrong with all usage. -/
def Usage.findings (usage : Usage) (names : Names) (permissions : Permissions) : Diagnostics :=
  usage.toList.flatMap fun e => usageFindings names permissions e.1 e.2

/-- All usage is reported on alike if each application is known alike, and each occurrence is
reported on alike. -/
theorem Usage.findings_congr {usage : Usage} {names names' : Names} {p q : Permissions}
    (haccounts : ∀ app u, usage.get? app = some u →
      names'.cloudAccounts.get? app = names.cloudAccounts.get? app)
    (hoccurrences : ∀ app member o, names.cloudAccounts.get? app = some member →
      usage.Lists app o → o.findings names' q = o.findings names p) :
    usage.findings names' q = usage.findings names p := by
  refine List.flatMap_congr ?_
  rintro ⟨app, u⟩ he
  have hu : usage.get? app = some u := OrderedMap.mem_toList.1 he
  show usageFindings names' q app u = usageFindings names p app u
  rw [usageFindings, usageFindings, haccounts app u hu]
  cases hmember : names.cloudAccounts.get? app with
  | none => rfl
  | some member =>
    refine List.flatMap_congr ?_
    intro o ho
    exact hoccurrences app member o hmember (Usage.lists_iff.2 ⟨u, hu, ho⟩)

/-- The grants on the accounts of all applications. -/
def accountGrants (names : Names) (locators : Locators) : Except MissingLocator (List Grant) :=
  (names.cloudAccounts.keys.mapM (identityGrants names locators)).map List.flatten

section Halves

variable {usage : Usage} {names : Names} {permissions : Permissions} {locators : Locators}

/-- **What a run comes to.**  Whether it fails is decided by the accounts. -/
theorem outcome_derivePolicies :
    (derivePolicies usage names permissions locators).outcome =
      (accountGrants names locators).map fun own =>
        .ofGrants (usage.grants names permissions ++ own) := by
  have husage : (usage.toList.map fun e => Request.usage e.1 e.2).mapM
      (Request.grants names permissions locators) =
        .ok (usage.toList.map fun e => usageGrants names permissions e.1 e.2) := by
    rw [List.mapM_map]
    exact mapM_eq_ok fun e _ => rfl
  have haccounts : (names.cloudAccounts.keys.map Request.identity).mapM
      (Request.grants names permissions locators) =
        names.cloudAccounts.keys.mapM (identityGrants names locators) := by
    rw [List.mapM_map]
    rfl
  have hrequests : (requests usage names).mapM (Request.grants names permissions locators) =
      (names.cloudAccounts.keys.mapM (identityGrants names locators)).map fun own =>
        (usage.toList.map fun e => usageGrants names permissions e.1 e.2) ++ own := by
    show (usage.toList.map (fun e => Request.usage e.1 e.2) ++
      names.cloudAccounts.keys.map Request.identity).mapM _ = _
    rw [List.mapM_append, husage, haccounts]
    cases names.cloudAccounts.keys.mapM (identityGrants names locators) <;> rfl
  rw [derivePolicies, accountGrants, hrequests]
  cases names.cloudAccounts.keys.mapM (identityGrants names locators) with
  | error e => rfl
  | ok own =>
    show Except.ok (Policies.ofGrants (List.flatten _)) = Except.ok (Policies.ofGrants _)
    rw [List.flatten_append, Usage.grants, List.flatMap_def]

/-- Requests for accounts report nothing, so the findings of a run are those of its usage. -/
theorem flatMap_findings_requests :
    (requests usage names).flatMap (Request.findings names permissions) =
      usage.findings names permissions := by
  have haccounts : (names.cloudAccounts.keys.map Request.identity).flatMap
      (Request.findings names permissions) = [] := by
    rw [List.flatMap_eq_nil_iff]
    rintro _ hr
    obtain ⟨app, -, rfl⟩ := List.mem_map.1 hr
    rfl
  show (usage.toList.map (fun e => Request.usage e.1 e.2) ++
    names.cloudAccounts.keys.map Request.identity).flatMap _ = _
  rw [List.flatMap_append, haccounts, List.append_nil, List.flatMap_map]
  rfl

theorem diagnostics_derivePolicies :
    (derivePolicies usage names permissions locators).diagnostics =
      usage.findings names permissions :=
  flatMap_findings_requests

end Halves

/-! ## Two parts of one usage -/

/-- Every application, with all it uses, stands in one of two parts. -/
def Usage.SplitsInto (usage left right : Usage) : Prop :=
  ∀ app, left.get? app = usage.get? app ∧ right.get? app = none ∨
    left.get? app = none ∧ right.get? app = usage.get? app

/-- Every choice of applications makes two parts. -/
theorem Usage.splitsInto_filter (usage : Usage) (p : AppName → Bool) :
    usage.SplitsInto (usage.filter fun app _ => p app) (usage.filter fun app _ => !p app) := by
  intro app
  rw [OrderedMap.get?_filter, OrderedMap.get?_filter]
  cases usage.get? app with
  | none => simp
  | some u => cases p app <;> simp

namespace Usage.SplitsInto

variable {usage left right : Usage} {names : Names} {permissions : Permissions}

theorem toList_perm (h : usage.SplitsInto left right) :
    usage.toList.Perm (left.toList ++ right.toList) := by
  have hdisjoint : ∀ e ∈ left.toList, ∀ e' ∈ right.toList, e ≠ e' := by
    rintro ⟨app, u⟩ hleft ⟨app', u'⟩ hright heq
    cases heq
    have hl : left.get? app = some u := OrderedMap.mem_toList.1 hleft
    have hr : right.get? app = some u := OrderedMap.mem_toList.1 hright
    rcases h app with ⟨-, hnone⟩ | ⟨hnone, -⟩
    · rw [hr] at hnone
      cases hnone
    · rw [hl] at hnone
      cases hnone
  have hparts : (left.toList ++ right.toList).Nodup :=
    List.nodup_append.2 ⟨left.nodup_toList, right.nodup_toList, hdisjoint⟩
  refine (List.perm_ext_iff_of_nodup usage.nodup_toList hparts).2 ?_
  rintro ⟨app, u⟩
  rw [List.mem_append, OrderedMap.mem_toList, OrderedMap.mem_toList, OrderedMap.mem_toList]
  rcases h app with ⟨hl, hr⟩ | ⟨hl, hr⟩
  · simp [hl, hr]
  · simp [hl, hr]

theorem mem_grants_iff (h : usage.SplitsInto left right) {g : Grant} :
    g ∈ usage.grants names permissions ↔
      g ∈ left.grants names permissions ∨ g ∈ right.grants names permissions := by
  have hgrants : (usage.grants names permissions).Perm
      (left.grants names permissions ++ right.grants names permissions) := by
    have hparts := h.toList_perm.flatMap_right fun e => usageGrants names permissions e.1 e.2
    rwa [List.flatMap_append] at hparts
  rw [hgrants.mem_iff, List.mem_append]

theorem findings_perm (h : usage.SplitsInto left right) :
    (usage.findings names permissions).Perm
      (left.findings names permissions ++ right.findings names permissions) := by
  have hparts := h.toList_perm.flatMap_right fun e => usageFindings names permissions e.1 e.2
  rwa [List.flatMap_append] at hparts

/-- What both parts grant once more makes no difference. -/
theorem merge_ofGrants (h : usage.SplitsInto left right) (own : List Grant) :
    (Policies.ofGrants (left.grants names permissions ++ own)).merge
        (.ofGrants (right.grants names permissions ++ own)) =
      .ofGrants (usage.grants names permissions ++ own) := by
  rw [Policies.merge_ofGrants]
  refine Policies.ofGrants_congr fun g => ?_
  simp only [List.mem_append, h.mem_grants_iff]
  exact or_or_distrib_right.symm

theorem symm (h : usage.SplitsInto left right) : usage.SplitsInto right left := by
  intro app
  rcases h app with ⟨hl, hr⟩ | ⟨hl, hr⟩
  · exact .inr ⟨hr, hl⟩
  · exact .inl ⟨hr, hl⟩

end Usage.SplitsInto

/-- **A run in parts is a run at once.**  The whole fails exactly if both parts do, and with the
same error; otherwise their policies merge into those of the whole, in either order and with the
empty ones.  In both cases the findings of the whole are those of its parts. -/
theorem derivePolicies_of_splitsInto {usage left right : Usage} (h : usage.SplitsInto left right)
    (names : Names) (permissions : Permissions) (locators : Locators) :
    ((∃ e, (derivePolicies usage names permissions locators).outcome = .error e ∧
        (derivePolicies left names permissions locators).outcome = .error e ∧
        (derivePolicies right names permissions locators).outcome = .error e) ∨
      ∃ whole l r, (derivePolicies usage names permissions locators).outcome = .ok whole ∧
        (derivePolicies left names permissions locators).outcome = .ok l ∧
        (derivePolicies right names permissions locators).outcome = .ok r ∧
          l.merge r = whole ∧ r.merge l = whole) ∧
    (derivePolicies usage names permissions locators).diagnostics.Perm
      ((derivePolicies left names permissions locators).diagnostics ++
        (derivePolicies right names permissions locators).diagnostics) := by
  rw [outcome_derivePolicies, outcome_derivePolicies, outcome_derivePolicies,
    diagnostics_derivePolicies, diagnostics_derivePolicies, diagnostics_derivePolicies]
  refine ⟨?_, h.findings_perm⟩
  cases accountGrants names locators with
  | error e => exact .inl ⟨e, rfl, rfl, rfl⟩
  | ok own =>
    exact .inr ⟨_, _, _, rfl, rfl, rfl, h.merge_ofGrants own, h.symm.merge_ofGrants own⟩

/-! ### Two applications that read one bucket -/

namespace TwoShards

/-- Both read the bucket, and the second also does what no permission is for. -/
def usage : Usage :=
  .ofList [
    (⟨"a"⟩, .ofList [(.buckets, .ofList [(⟨"read"⟩, [⟨"invoices"⟩])])]),
    (⟨"b"⟩, .ofList [(.buckets, .ofList [(⟨"list"⟩, [⟨"invoices"⟩]), (⟨"read"⟩, [⟨"invoices"⟩])])])]

/-- Names under which both have an account. -/
def names : Names where
  clusterAccounts := .ofList [(⟨"a"⟩, ⟨"ns/a"⟩), (⟨"b"⟩, ⟨"ns/b"⟩)]
  cloudAccounts := .ofList [(⟨"a"⟩, ⟨"a@x"⟩), (⟨"b"⟩, ⟨"b@x"⟩)]
  fullNames := FullNames.empty.insertAll [
    ⟨.buckets, ⟨"invoices"⟩, ⟨"buckets/invoices"⟩⟩,
    ⟨.serviceAccounts, ⟨"a"⟩, ⟨"accounts/a"⟩⟩,
    ⟨.serviceAccounts, ⟨"b"⟩, ⟨"accounts/b"⟩⟩]

/-- What reading takes. -/
def permissions : Permissions := Permissions.empty.withRoles .buckets ⟨"read"⟩ [⟨"reader"⟩]

/-- Neither part is the whole, though both hold the policies on both accounts. -/
theorem merged : ∃ left right whole l r, usage.SplitsInto left right ∧
    (derivePolicies usage names permissions (.withUnit "x")).outcome = .ok whole ∧
    (derivePolicies left names permissions (.withUnit "x")).outcome = .ok l ∧
    (derivePolicies right names permissions (.withUnit "x")).outcome = .ok r ∧
      l.merge r = whole ∧ r.merge l = whole ∧ l ≠ whole ∧ r ≠ whole := by
  have hsplit := usage.splitsInto_filter fun app => app = ⟨"a"⟩
  have hwhole : (derivePolicies usage names permissions (.withUnit "x")).outcome = .ok _ := rfl
  rcases (derivePolicies_of_splitsInto hsplit names permissions (.withUnit "x")).1 with
    ⟨e, he, -⟩ | ⟨whole, l, r, hok, hl, hr, hmerge, hmerge'⟩
  · rw [hwhole] at he
    cases he
  · refine ⟨_, _, whole, l, r, hsplit, hok, hl, hr, hmerge, hmerge', ?_, ?_⟩
    · cases hok
      cases hl
      decide
    · cases hok
      cases hr
      decide

end TwoShards

end GrantCompiler
