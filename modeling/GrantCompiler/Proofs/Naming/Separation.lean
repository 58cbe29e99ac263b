import GrantCompiler.Proofs.Naming.Substitution

/-!
# Which names are different

Names are put together from texts without any check, so whether two of them can coincide is a
question about the patterns.  Most patterns end or begin with what tells them apart:

* the name of an account determines its username, and its path determines the account;
* the path of an account is that of no bucket and of no half of a queue;
* among the paths of one queue, the owner tells the projects apart.

Usernames are the exception.  Shortening `scheduled-` to `s-` brings two applications to one
username, and `AppName.username_eq_iff` says that nothing else does.
-/

set_option autoImplicit false

namespace GrantCompiler

/-! ## Paths -/

namespace Locators

variable {locators : Locators}

theorem text_accountPath (account : Member) :
    (locators.accountPath account).text =
      "projects/iam-shr-" ++ locators.sharedProject.stage ++ "-" ++ locators.sharedProject.unit ++
        "/serviceAccounts/" ++ account.text := rfl

theorem text_memberOf (username : String) :
    (locators.memberOf username).text =
      username ++ "@iam-shr-" ++ locators.sharedProject.stage ++ "-" ++
        locators.sharedProject.unit ++ ".iam.gserviceaccount.com" := rfl

theorem text_bucketPath (name : ResourceName) :
    (locators.bucketPath name).text =
      "projects/_/buckets/" ++ Template.bucket name.text locators.bucketSite := rfl

theorem text_queuePath (owner : OwnerKey) (half : Template.Collection) (name : ResourceName) :
    (locators.queuePath owner half name).text =
      "projects/" ++ (owner.text ++ "-" ++ locators.projectSite.stage ++ "-" ++
        locators.projectSite.unit) ++ "/" ++ half.text ++ "/" ++
          (name.text ++ "." ++ locators.queueSite.stage ++ "." ++ locators.queueSite.region ++
            locators.queueSite.provider) := rfl

theorem memberOf_inj {u v : String} (h : locators.memberOf u = locators.memberOf v) : u = v := by
  have htext := congrArg Name.text h
  rw [text_memberOf, text_memberOf] at htext
  simpa only [String.append_left_inj] using htext

theorem accountPath_inj {a b : Member} (h : locators.accountPath a = locators.accountPath b) :
    a = b := by
  have htext := congrArg Name.text h
  rw [text_accountPath, text_accountPath, String.append_right_inj] at htext
  cases a; cases b; cases htext; rfl

theorem subjectOf_inj {a b : ClusterAccount} (h : locators.subjectOf a = locators.subjectOf b) :
    a = b := by
  have htext := congrArg Name.text h
  rw [subjectOf, subjectOf, Template.subject, Template.subject, String.append_left_inj,
    String.append_right_inj] at htext
  cases a; cases b; cases htext; rfl

theorem queuePath_inj {owner owner' : OwnerKey} {half : Template.Collection} {name : ResourceName}
    (h : locators.queuePath owner half name = locators.queuePath owner' half name) :
    owner = owner' := by
  have htext := congrArg Name.text h
  rw [text_queuePath, text_queuePath] at htext
  simp only [String.append_left_inj, String.append_right_inj] at htext
  cases owner; cases owner'; cases htext; rfl

theorem accountPath_ne_bucketPath (account : Member) (name : ResourceName) :
    locators.accountPath account ≠ locators.bucketPath name := by
  intro h
  have htext := congrArg Name.text h
  rw [text_accountPath, text_bucketPath] at htext
  simp only [String.append_assoc] at htext
  have hlist := congrArg String.toList htext
  simp at hlist

/-- The path of an account ends like a mail address, that of a queue like a region. -/
theorem accountPath_ne_queuePath (username : String) (owner : OwnerKey) (half : Template.Collection)
    (name : ResourceName) :
    locators.accountPath (locators.memberOf username) ≠ locators.queuePath owner half name := by
  intro h
  have hends : ∀ start start' : String, start ++ ".iam.gserviceaccount.com" ≠ start' ++ "gcp" := by
    intro start start' hends
    have hlast := congrArg (fun text => text.toList.getLast?) hends
    simp at hlast
  have hprovider : locators.queueSite.provider = "gcp" := locators.value_provider
  have htext := congrArg Name.text h
  rw [text_accountPath, text_memberOf, text_queuePath, hprovider] at htext
  simp only [← String.append_assoc] at htext
  exact hends _ _ htext

/-- One declaration by two owners: its full names are the same for a bucket, and are not for a
queue. -/
theorem fullName_eq_iff_of_mem_entries {kind : Kind} {owner owner' : OwnerKey} {name : ResourceName}
    {e e' : FullNameEntry} (h : e ∈ locators.entries kind owner name)
    (h' : e' ∈ locators.entries kind owner' name) (hkind : e'.kind = e.kind) :
    e'.fullName = e.fullName ↔ kind = .buckets ∨ owner' = owner := by
  rcases mem_entries.1 h with ⟨rfl, rfl⟩ | ⟨rfl, half, rfl⟩
  · rcases mem_entries.1 h' with ⟨-, rfl⟩ | ⟨hqueues, -⟩
    · simp
    · cases hqueues
  · rcases mem_entries.1 h' with ⟨hbuckets, -⟩ | ⟨-, half', rfl⟩
    · cases hbuckets
    · have hhalf : half' = half := Template.Collection.kind_inj hkind
      subst hhalf
      refine ⟨fun hpath => .inr (queuePath_inj hpath), ?_⟩
      rintro (hbuckets | rfl)
      · cases hbuckets
      · rfl

end Locators

/-! ## Usernames -/

namespace AppName

variable {app other : AppName}

/-- The username of the second application shortens to that of the first. -/
def Abbreviates (app other : AppName) : Prop :=
  ∃ rest, app.text ++ usernameEnding = scheduledShort ++ rest ∧
    other.text ++ usernameEnding = scheduledMark ++ rest

theorem scheduledShort_append_ne (rest rest' : String) :
    scheduledShort ++ rest ≠ scheduledMark ++ rest' := by
  intro h
  have hlist := congrArg String.toList h
  simp [scheduledShort, scheduledMark] at hlist

theorem username_of_scheduled {rest : String}
    (h : app.text ++ usernameEnding = scheduledMark ++ rest) :
    app.username = scheduledShort ++ rest := by
  have hlist : (app.text ++ usernameEnding).toList = scheduledMark.toList ++ rest.toList := by
    rw [h, String.toList_append]
  have hprefix : scheduledMark.toList.isPrefixOf (app.text ++ usernameEnding).toList = true :=
    List.isPrefixOf_iff_prefix.2 ⟨rest.toList, hlist.symm⟩
  rw [username, if_pos hprefix, hlist, ← String.length_toList, List.drop_left, String.ofList_toList]

theorem username_of_not_scheduled
    (h : ∀ rest, app.text ++ usernameEnding ≠ scheduledMark ++ rest) :
    app.username = app.text ++ usernameEnding := by
  have hprefix : ¬ scheduledMark.toList.isPrefixOf (app.text ++ usernameEnding).toList = true := by
    intro hprefix
    obtain ⟨rest, hlist⟩ := List.isPrefixOf_iff_prefix.1 hprefix
    refine h (String.ofList rest) (String.toList_inj.1 ?_)
    rw [← hlist, String.toList_append, String.toList_ofList]
  rw [username, if_neg hprefix, String.ofList_toList]

theorem Abbreviates.username_eq (h : app.Abbreviates other) : app.username = other.username := by
  obtain ⟨rest, happ, hother⟩ := h
  have hplain : ∀ rest', app.text ++ usernameEnding ≠ scheduledMark ++ rest' := by
    intro rest'
    rw [happ]
    exact scheduledShort_append_ne rest rest'
  rw [username_of_not_scheduled hplain, username_of_scheduled hother, happ]

theorem eq_of_text_append (h : app.text ++ usernameEnding = other.text ++ usernameEnding) :
    app = other := by
  rw [String.append_left_inj] at h
  cases app; cases other; cases h; rfl

/-- **Two applications have one username exactly if one is the abbreviation of the other.** -/
theorem username_eq_iff :
    app.username = other.username ↔
      app = other ∨ app.Abbreviates other ∨ other.Abbreviates app := by
  refine ⟨fun h => ?_, ?_⟩
  · by_cases happ : ∃ rest, app.text ++ usernameEnding = scheduledMark ++ rest <;>
      by_cases hother : ∃ rest, other.text ++ usernameEnding = scheduledMark ++ rest
    · obtain ⟨rest, happ⟩ := happ
      obtain ⟨rest', hother⟩ := hother
      rw [username_of_scheduled happ, username_of_scheduled hother, String.append_right_inj] at h
      subst h
      exact .inl (eq_of_text_append (happ.trans hother.symm))
    · obtain ⟨rest, happ⟩ := happ
      rw [username_of_scheduled happ, username_of_not_scheduled (not_exists.1 hother)] at h
      exact .inr (.inr ⟨rest, h.symm, happ⟩)
    · obtain ⟨rest, hother⟩ := hother
      rw [username_of_not_scheduled (not_exists.1 happ), username_of_scheduled hother] at h
      exact .inr (.inl ⟨rest, h, hother⟩)
    · rw [username_of_not_scheduled (not_exists.1 happ),
        username_of_not_scheduled (not_exists.1 hother)] at h
      exact .inl (eq_of_text_append h)
  · rintro (rfl | h | h)
    · rfl
    · exact h.username_eq
    · exact h.username_eq.symm

/-- The accounts of two applications in the cluster are one only if their namespaces are. -/
theorem clusterAccount_inj {space space' : NamespaceName}
    (husername : app.username = other.username)
    (h : app.clusterAccount space = other.clusterAccount space') : space = space' := by
  have htext := congrArg Name.text h
  rw [clusterAccount, clusterAccount, husername] at htext
  simp only [String.append_left_inj] at htext
  cases space; cases space'; cases htext; rfl

end AppName

end GrantCompiler
