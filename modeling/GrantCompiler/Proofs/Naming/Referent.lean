import GrantCompiler.Proofs.Locator.Builder
import GrantCompiler.Proofs.Naming.Separation

/-!
# Whose full name it is

A full name is rendered for a bucket, for one half of a queue or for the account of an application
(`Referent`), out of short names that nobody has checked: any of them may contain the very texts
that the patterns put between them.  This file says what a full name still tells.

Each pattern closes with a text of its own, and none of the three texts is the end of another
(`Referent.ending`), so a full name always tells which pattern it was made by.  Before that ending,
or after the opening, stands the stage, and no stage begins or ends like another.  So a full name
tells the stage as well, whatever unit and company it was rendered with.

* `Referent.agrees_of_path_eq` — what two referents with one full name have in common.
* `Referent.stage_eq_of_path_eq` — two runs that render one full name have one stage.
* `Locators.stage_eq_of_subjectOf_eq`, `Locators.stage_eq_of_memberOf_eq` — the same for the two
  sorts of members.  A mail address closes with the unit, so there the units have to be equal first.
-/

set_option autoImplicit false

namespace GrantCompiler

/-! ## Texts that differ at an end -/

/-- Neither text begins with the other. -/
def PrefixFree (s t : String) : Prop := ¬ s.toList <+: t.toList ∧ ¬ t.toList <+: s.toList

/-- Neither text ends with the other. -/
def SuffixFree (s t : String) : Prop := ¬ s.toList <:+ t.toList ∧ ¬ t.toList <:+ s.toList

instance (s t : String) : Decidable (PrefixFree s t) := inferInstanceAs (Decidable (_ ∧ _))
instance (s t : String) : Decidable (SuffixFree s t) := inferInstanceAs (Decidable (_ ∧ _))

theorem PrefixFree.append_ne {s t : String} (h : PrefixFree s t) (a b : String) :
    s ++ a ≠ t ++ b := by
  intro heq
  have hs : s.toList <+: (s ++ a).toList := ⟨a.toList, String.toList_append.symm⟩
  have ht : t.toList <+: (s ++ a).toList := ⟨b.toList, by rw [heq, String.toList_append]⟩
  exact (List.prefix_or_prefix_of_prefix hs ht).elim h.1 h.2

theorem SuffixFree.append_ne {s t : String} (h : SuffixFree s t) (a b : String) :
    a ++ s ≠ b ++ t := by
  intro heq
  have hs : s.toList <:+ (a ++ s).toList := ⟨a.toList, String.toList_append.symm⟩
  have ht : t.toList <:+ (a ++ s).toList := ⟨b.toList, by rw [heq, String.toList_append]⟩
  exact (List.suffix_or_suffix_of_suffix hs ht).elim h.1 h.2

/-! ### Stages -/

theorem Locator.prefixFree_stages :
    ∀ s ∈ supportedStages, ∀ t ∈ supportedStages, s ≠ t → PrefixFree s t := by decide

theorem Locator.suffixFree_stages :
    ∀ s ∈ supportedStages, ∀ t ∈ supportedStages, s ≠ t → SuffixFree s t := by decide

namespace Locators

variable {locators locators' : Locators}

theorem stage_eq_of_append_eq_append {a b : String}
    (h : locators.value Locator.stage ++ a = locators'.value Locator.stage ++ b) :
    locators.value Locator.stage = locators'.value Locator.stage := by
  refine Classical.byContradiction fun hne => ?_
  exact (Locator.prefixFree_stages _ locators.value_stage_mem _ locators'.value_stage_mem
    hne).append_ne a b h

theorem stage_eq_of_append_eq_append' {a b : String}
    (h : a ++ locators.value Locator.stage = b ++ locators'.value Locator.stage) :
    locators.value Locator.stage = locators'.value Locator.stage := by
  refine Classical.byContradiction fun hne => ?_
  exact (Locator.suffixFree_stages _ locators.value_stage_mem _ locators'.value_stage_mem
    hne).append_ne a b h

end Locators

/-! ## Referents -/

/-- What a full name is rendered for. -/
inductive Referent
  | bucket (name : ResourceName)
  | queue (owner : OwnerKey) (half : Template.Collection) (name : ResourceName)
  | account (app : AppName)

namespace Referent

variable {locators locators' : Locators} {r r' : Referent} {fullName : FullName}

/-- A full name that rendering gives for a referent. -/
def Rendered (locators : Locators) (fullName : FullName) : Referent → Prop
  | bucket name => ∃ entries, bucketEntries name locators = .ok entries ∧
      ⟨.buckets, name, fullName⟩ ∈ entries
  | queue owner half name => ∃ entries, queueEntries owner name locators = .ok entries ∧
      ⟨half.kind, name, fullName⟩ ∈ entries
  | account app => ∃ member, (app.cloudAccount locators).outcome = .ok member ∧
      member.fullName locators = .ok fullName

/-- The full name of a referent as a function of its parts. -/
def path (locators : Locators) : Referent → FullName
  | bucket name => locators.bucketPath name
  | queue owner half name => locators.queuePath owner half name
  | account app => locators.accountPath (locators.memberOf app.username)

theorem Rendered.eq_path (h : r.Rendered locators fullName) : fullName = r.path locators := by
  cases r with
  | bucket name =>
    obtain ⟨entries, hentries, hmem⟩ := h
    rw [bucketEntries, Template.BucketSite.resolve_eq] at hentries
    cases hentries
    exact congrArg FullNameEntry.fullName (List.mem_singleton.1 hmem)
  | queue owner half name =>
    obtain ⟨entries, hentries, hmem⟩ := h
    have hentries : entries = locators.entries .queues owner name := entries_eq_ok hentries
    rw [hentries] at hmem
    have hown := Locators.eq_of_mem_entries hmem (Locators.queue_mem_entries half) rfl
    exact congrArg FullNameEntry.fullName hown
  | account app =>
    obtain ⟨member, hmember, hfullName⟩ := h
    rw [AppName.outcome_cloudAccount] at hmember
    rw [Member.fullName_eq, eq_of_ite_eq_ok hmember] at hfullName
    exact eq_of_ite_eq_ok hfullName

/-- With a unit, everything has a full name. -/
theorem rendered_path (hunit : locators.HasUnit) (r : Referent) :
    r.Rendered locators (r.path locators) := by
  cases r with
  | bucket name =>
    refine ⟨[⟨.buckets, name, locators.bucketPath name⟩], ?_, List.mem_singleton_self _⟩
    rw [bucketEntries, Template.BucketSite.resolve_eq]
    rfl
  | queue owner half name =>
    refine ⟨locators.entries .queues owner name, ?_, Locators.queue_mem_entries half⟩
    have hentries : Kind.queues.entries owner name locators = _ := Kind.entries_eq ..
    rwa [if_neg (fun h => h.2 hunit)] at hentries
  | account app =>
    refine ⟨locators.memberOf app.username, ?_, ?_⟩
    · rw [AppName.outcome_cloudAccount, if_pos hunit]
    · rw [Member.fullName_eq, if_pos hunit]
      rfl

/-! ### The patterns -/

theorem text_path_bucket (name : ResourceName) :
    ((bucket name).path locators).text =
      "projects/_/buckets/" ++ locators.value Locator.company ++ "-" ++ name.text ++ "-" ++
        locators.value Locator.stage ++ "-usce1gcp" := by
  have htail : "-" ++ ("usce1" ++ "gcp") = "-usce1gcp" := by decide
  rw [path, Locators.text_bucketPath, Template.bucket, Locators.bucketSite, Locators.value_region,
    Locators.value_provider]
  simp only [String.append_assoc, htail]

theorem text_path_queue (owner : OwnerKey) (half : Template.Collection) (name : ResourceName) :
    ((queue owner half name).path locators).text =
      "projects/" ++ owner.text ++ "-" ++ locators.value Locator.stage ++ "-" ++
        locators.value Locator.unit ++ "/" ++ half.text ++ "/" ++ name.text ++ "." ++
          locators.value Locator.stage ++ ".usce1gcp" := by
  have htail : "." ++ ("usce1" ++ "gcp") = ".usce1gcp" := by decide
  rw [path, Locators.text_queuePath, Locators.queueSite, Locators.value_region,
    Locators.value_provider]
  simp only [String.append_assoc, htail, Locators.projectSite]

theorem text_path_account (app : AppName) :
    ((account app).path locators).text =
      "projects/iam-shr-" ++ locators.value Locator.stage ++ "-" ++ locators.value Locator.unit ++
        "/serviceAccounts/" ++ app.username ++ "@iam-shr-" ++ locators.value Locator.stage ++ "-" ++
          locators.value Locator.unit ++ ".iam.gserviceaccount.com" := by
  rw [path, Locators.text_accountPath, Locators.text_memberOf]
  simp only [String.append_assoc, Locators.sharedProject]

/-- What the full name of a referent closes with. -/
def ending : Referent → String
  | bucket _ => "-usce1gcp"
  | queue .. => ".usce1gcp"
  | account _ => ".iam.gserviceaccount.com"

theorem exists_text_path_eq (locators : Locators) (r : Referent) :
    ∃ start, (r.path locators).text = start ++ r.ending := by
  cases r with
  | bucket name => exact ⟨_, text_path_bucket name⟩
  | queue owner half name => exact ⟨_, text_path_queue owner half name⟩
  | account app => exact ⟨_, text_path_account app⟩

theorem suffixFree_ending (h : r.ending ≠ r'.ending) : SuffixFree r.ending r'.ending := by
  cases r <;> cases r' <;> first | exact absurd rfl h | (simp only [ending]; decide)

/-- Two referents of one sort. -/
inductive Alike : Referent → Referent → Prop
  | bucket (name name' : ResourceName) : Alike (bucket name) (bucket name')
  | queue (owner owner' : OwnerKey) (half half' : Template.Collection)
      (name name' : ResourceName) : Alike (queue owner half name) (queue owner' half' name')
  | account (app app' : AppName) : Alike (account app) (account app')

theorem alike_of_ending_eq (h : r.ending = r'.ending) : r.Alike r' := by
  cases r <;> cases r' <;> first | constructor | (simp [ending] at h)

/-- A full name tells the pattern it was made by, whatever the locators were. -/
theorem alike_of_path_eq (h : r.path locators = r'.path locators') : r.Alike r' := by
  refine alike_of_ending_eq (Classical.byContradiction fun hne => ?_)
  obtain ⟨start, hstart⟩ := exists_text_path_eq locators r
  obtain ⟨start', hstart'⟩ := exists_text_path_eq locators' r'
  have htext := congrArg Name.text h
  rw [hstart, hstart'] at htext
  exact (suffixFree_ending hne).append_ne start start' htext

/-! ### What a full name tells -/

/-- What referents with one full name have in common: a bucket has no other name, and an account
none but those of one username.  A queue is told by its full name together with its owner or with
its short name. -/
def Agrees : Referent → Referent → Prop
  | bucket name, bucket name' => name = name'
  | queue owner half name, queue owner' half' name' =>
    owner = owner' ∨ name = name' → owner = owner' ∧ half = half' ∧ name = name'
  | account app, account app' => app.username = app'.username
  | _, _ => False

theorem bucket_eq_of_path_eq {name name' : ResourceName}
    (h : (bucket name).path locators = (bucket name').path locators) : name = name' := by
  have htext := congrArg Name.text h
  rw [text_path_bucket, text_path_bucket] at htext
  simp only [String.append_left_inj, String.append_right_inj] at htext
  exact congrArg Name.mk htext

end Referent

namespace Template.Collection

theorem text_prefixFree {half half' : Collection} (h : half ≠ half') :
    PrefixFree half.text half'.text := by
  cases half <;> cases half' <;> first | exact absurd rfl h | decide

theorem text_suffixFree {half half' : Collection} (h : half ≠ half') :
    SuffixFree half.text half'.text := by
  cases half <;> cases half' <;> first | exact absurd rfl h | decide

end Template.Collection

namespace Referent

variable {locators locators' : Locators} {r r' : Referent}

theorem queue_eq_of_path_eq {owner owner' : OwnerKey} {half half' : Template.Collection}
    {name name' : ResourceName}
    (h : (queue owner half name).path locators = (queue owner' half' name').path locators)
    (hsame : owner = owner' ∨ name = name') : owner = owner' ∧ half = half' ∧ name = name' := by
  have htext := congrArg Name.text h
  rw [text_path_queue, text_path_queue] at htext
  rcases hsame with rfl | rfl
  · -- after the project, the texts begin with the halves
    simp only [String.append_assoc, String.append_right_inj] at htext
    have hhalf : half = half' := Classical.byContradiction fun hne =>
      (Template.Collection.text_prefixFree hne).append_ne _ _ htext
    subst hhalf
    simp only [String.append_left_inj, String.append_right_inj] at htext
    exact ⟨rfl, rfl, congrArg Name.mk htext⟩
  · -- before the short name, the texts end with the halves
    simp only [String.append_left_inj] at htext
    have hhalf : half = half' := Classical.byContradiction fun hne =>
      (Template.Collection.text_suffixFree hne).append_ne _ _ htext
    subst hhalf
    simp only [String.append_left_inj, String.append_right_inj] at htext
    exact ⟨congrArg Name.mk htext, rfl, rfl⟩

theorem account_eq_of_path_eq {app app' : AppName}
    (h : (account app).path locators = (account app').path locators) :
    app.username = app'.username :=
  Locators.memberOf_inj (Locators.accountPath_inj h)

/-- **A full name tells what it is for.** -/
theorem agrees_of_path_eq (h : r.path locators = r'.path locators) : r.Agrees r' := by
  cases alike_of_path_eq h with
  | bucket name name' => exact bucket_eq_of_path_eq h
  | queue owner owner' half half' name name' => exact queue_eq_of_path_eq h
  | account app app' => exact account_eq_of_path_eq h

/-- Without the owner or the short name, a queue is not told: what one of them says, the other may
say as well. -/
example : (queue ⟨"o"⟩ .topics ⟨"n-dev-x/topics/m"⟩).path (.withUnit "x") =
    (queue ⟨"o-dev-x/topics/n"⟩ .topics ⟨"m"⟩).path (.withUnit "x") := by decide

/-- **A full name tells the stage it was rendered for.** -/
theorem stage_eq_of_path_eq (h : r.path locators = r'.path locators') :
    locators.value Locator.stage = locators'.value Locator.stage := by
  have htext := congrArg Name.text h
  cases alike_of_path_eq h with
  | bucket name name' =>
    rw [text_path_bucket, text_path_bucket, String.append_left_inj] at htext
    exact Locators.stage_eq_of_append_eq_append' htext
  | queue owner owner' half half' name name' =>
    rw [text_path_queue, text_path_queue, String.append_left_inj] at htext
    exact Locators.stage_eq_of_append_eq_append' htext
  | account app app' =>
    rw [text_path_account, text_path_account] at htext
    simp only [String.append_assoc, String.append_right_inj] at htext
    exact Locators.stage_eq_of_append_eq_append htext

end Referent

/-! ## Members -/

namespace Locators

variable {locators locators' : Locators}

theorem text_subjectOf (account : ClusterAccount) :
    (locators.subjectOf account).text =
      "gke-shr-" ++ locators.value Locator.stage ++ "-" ++ locators.value Locator.unit ++
        ".svc.id.goog[" ++ account.text ++ "]" := rfl

theorem memberOf_ne_subjectOf (username : String) (account : ClusterAccount) :
    locators.memberOf username ≠ locators'.subjectOf account := by
  intro h
  have htext := congrArg Name.text h
  rw [text_memberOf, text_subjectOf] at htext
  have hfree : SuffixFree ".iam.gserviceaccount.com" "]" := by decide
  exact hfree.append_ne _ _ htext

/-- A subject tells the stage, whatever the units. -/
theorem stage_eq_of_subjectOf_eq {a b : ClusterAccount}
    (h : locators.subjectOf a = locators'.subjectOf b) :
    locators.value Locator.stage = locators'.value Locator.stage := by
  have htext := congrArg Name.text h
  rw [text_subjectOf, text_subjectOf] at htext
  simp only [String.append_assoc, String.append_right_inj] at htext
  exact stage_eq_of_append_eq_append htext

/-- A mail address tells the stage once the unit is known. -/
theorem stage_eq_of_memberOf_eq {u v : String}
    (hunit : locators.value Locator.unit = locators'.value Locator.unit)
    (h : locators.memberOf u = locators'.memberOf v) :
    locators.value Locator.stage = locators'.value Locator.stage := by
  have htext := congrArg Name.text h
  rw [text_memberOf, text_memberOf] at htext
  simp only [sharedProject, hunit, String.append_left_inj] at htext
  exact stage_eq_of_append_eq_append' htext

end Locators
end GrantCompiler
