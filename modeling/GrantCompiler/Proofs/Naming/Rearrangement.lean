import GrantCompiler.Proofs.Document.Alike
import GrantCompiler.Proofs.Naming.Exactness

/-!
# Names from documents that list the same

The names of a run are entered into maps in which the last entry wins, so the order of a document
could show in them.  It does not, as long as the keys stay where they are: an application belongs to
the greatest namespace that lists it, a queue to its greatest owner, and neither depends on a list's
order or repetitions (`Names.of_congr`).

The findings are another matter, for every change of hands names the namespace that held the
application before.  What saves them is that all names of one list stand in one namespace: two
neighbours of a list may be swapped, whoever held them before (`conflicts_perm`).  So the findings
are reordered with the lists (`namingFindings_perm`).  They do depend on repetitions.
-/

set_option autoImplicit false

namespace GrantCompiler

/-! ## Names -/

section Names

variable {apps apps' : Apps} {resources resources' : Resources} {locators : Locators}

theorem Apps.Alike.homes_eq (h : apps.Alike SameNames apps') : apps.homes = apps'.homes := by
  refine OrderedMap.ext_get? fun app => Option.ext fun space => ?_
  rw [Apps.get?_homes_eq_some_iff, Apps.get?_homes_eq_some_iff]
  simp only [h.lists_iff]

theorem Resources.Alike.greatestOwner_iff (h : resources.Alike SameNames resources') (kind : Kind)
    (name : ResourceName) (owner : OwnerKey) :
    resources.GreatestOwner kind name owner ↔ resources'.GreatestOwner kind name owner := by
  simp only [Resources.GreatestOwner, h.declares_iff]

theorem Names.populated_fullNames_of (apps : Apps) (resources : Resources) (locators : Locators) :
    (of apps resources locators).fullNames.Populated :=
  (FullNames.populated_empty.insertAll (resources.entries locators)).insertAll
    (locators.accountEntries (apps.cloudAccounts locators))

theorem Names.ext {names names' : Names}
    (hclusters : names.clusterAccounts = names'.clusterAccounts)
    (hclouds : names.cloudAccounts = names'.cloudAccounts)
    (hfullNames : names.fullNames = names'.fullNames) : names = names' := by
  cases names
  cases names'
  cases hclusters
  cases hclouds
  cases hfullNames
  rfl

/-- **The order of a list does not show in the names.** -/
theorem Names.of_congr (happs : apps.Alike SameNames apps')
    (hresources : resources.Alike SameNames resources') :
    of apps resources locators = of apps' resources' locators := by
  have hhomes : apps.homes = apps'.homes := happs.homes_eq
  have hget : ∀ kind name, (of apps resources locators).fullNames.get? kind name =
      (of apps' resources' locators).fullNames.get? kind name := by
    intro kind name
    refine Option.ext fun path => ?_
    by_cases hkind : kind = .serviceAccounts
    · subst hkind
      rw [get?_fullNames_of_serviceAccounts_eq_some_iff,
        get?_fullNames_of_serviceAccounts_eq_some_iff]
      simp only [happs.declares_iff]
    · rw [get?_fullNames_of_eq_some_iff hkind, get?_fullNames_of_eq_some_iff hkind]
      simp only [hresources.greatestOwner_iff]
  have hfullNames : (of apps resources locators).fullNames =
      (of apps' resources' locators).fullNames :=
    (populated_fullNames_of apps resources locators).eq_of_get?_eq
      (populated_fullNames_of apps' resources' locators) hget
  have hclusters : (of apps resources locators).clusterAccounts =
      (of apps' resources' locators).clusterAccounts :=
    congrArg GrantCompiler.clusterAccounts hhomes
  have hclouds : (of apps resources locators).cloudAccounts =
      (of apps' resources' locators).cloudAccounts := by
    show apps.cloudAccounts locators = apps'.cloudAccounts locators
    rw [Apps.cloudAccounts, Apps.cloudAccounts, hhomes]
  exact Names.ext hclusters hclouds hfullNames

end Names

/-! ## Changes of hands -/

section Conflicts

variable {homes : Homes} {space : NamespaceName} {app other : AppName} {names names' : List AppName}

/-- What is reported when a namespace lists an application that has the given homes so far. -/
def takeover (homes : Homes) (space : NamespaceName) (app : AppName) : Diagnostics :=
  match homes.get? app with
  | some previous => if previous = space then [] else [.duplicateApp app space previous]
  | none => []

theorem conflicts_cons (homes : Homes) (space : NamespaceName) (app : AppName)
    (rest : List (NamespaceName × AppName)) :
    conflicts homes ((space, app) :: rest) =
      takeover homes space app ++ conflicts (homes.insert app space) rest := by
  rw [conflicts, takeover]
  cases homes.get? app with
  | none => rfl
  | some previous => by_cases h : previous = space <;> simp [h]

theorem conflicts_append (homes : Homes) (l l' : List (NamespaceName × AppName)) :
    conflicts homes (l ++ l') = conflicts homes l ++ conflicts (homesAfter homes l) l' := by
  induction l generalizing homes with
  | nil => rfl
  | cons listing rest ih =>
    obtain ⟨space, app⟩ := listing
    have hhomes : homesAfter homes ((space, app) :: rest) =
        homesAfter (homes.insert app space) rest := rfl
    rw [List.cons_append, conflicts_cons, conflicts_cons, ih, hhomes, List.append_assoc]

/-- An application is taken over from where it was, whatever else has moved. -/
theorem takeover_insert (h : app ≠ other) (homes : Homes) (space space' : NamespaceName) :
    takeover (homes.insert other space') space app = takeover homes space app := by
  rw [takeover, takeover, OrderedMap.get?_insert, if_neg h]

/-- The applications of one namespace find their home there in any order. -/
theorem homesAfter_perm (h : names.Perm names') (homes : Homes) (space : NamespaceName) :
    homesAfter homes (names.map fun app => (space, app)) =
      homesAfter homes (names'.map fun app => (space, app)) := by
  rw [homesAfter, homesAfter, List.foldl_map, List.foldl_map]
  refine h.foldl_eq' (fun app _ other _ homes => ?_) homes
  by_cases happ : app = other
  · rw [happ]
  · exact homes.insert_comm happ space space

/-- **Within a namespace the order does not show in the changes of hands**, for none of them is
between two names of one list. -/
theorem conflicts_perm (h : names.Perm names') (homes : Homes) (space : NamespaceName) :
    (conflicts homes (names.map fun app => (space, app))).Perm
      (conflicts homes (names'.map fun app => (space, app))) := by
  induction h generalizing homes with
  | nil => exact .nil
  | cons app _ ih =>
    rw [List.map_cons, List.map_cons, conflicts_cons, conflicts_cons]
    exact (ih (homes.insert app space)).append_left _
  | swap app other rest =>
    by_cases happ : app = other
    · rw [happ]
    · simp only [List.map_cons, conflicts_cons]
      rw [takeover_insert happ, takeover_insert (Ne.symm happ), homes.insert_comm happ]
      exact List.perm_append_comm_assoc _ _ _
  | trans _ _ ih ih' => exact (ih homes).trans (ih' homes)

theorem Apps.conflicts_perm_of_forall₂ {l l' : List (NamespaceName × List AppName)}
    (h : List.Forall₂ (fun e e' => e.1 = e'.1 ∧ e.2.Perm e'.2) l l') (homes : Homes) :
    (GrantCompiler.conflicts homes (l.flatMap fun e => e.2.map fun app => (e.1, app))).Perm
      (GrantCompiler.conflicts homes (l'.flatMap fun e => e.2.map fun app => (e.1, app))) := by
  induction h generalizing homes with
  | nil => exact .nil
  | @cons e e' rest rest' hhead _ ih =>
    obtain ⟨space, names⟩ := e
    obtain ⟨space', names'⟩ := e'
    obtain ⟨rfl, hnames⟩ : space = space' ∧ names.Perm names' := hhead
    rw [List.flatMap_cons, List.flatMap_cons, conflicts_append, conflicts_append,
      homesAfter_perm hnames homes space]
    exact (conflicts_perm hnames homes space).append (ih _)

theorem Apps.Alike.conflicts_perm {apps apps' : Apps} (h : apps.Alike Reordered apps') :
    apps.conflicts.Perm apps'.conflicts :=
  Apps.conflicts_perm_of_forall₂ h .empty

end Conflicts

/-! ## All findings -/

/-- **Findings are reordered with the lists.** -/
theorem namingFindings_perm {apps apps' : Apps} {resources resources' : Resources}
    (hhomes : apps.homes = apps'.homes) (happs : apps.Alike Reordered apps')
    (hresources : resources.Alike Reordered resources') :
    (namingFindings apps resources).Perm (namingFindings apps' resources') := by
  rw [namingFindings, namingFindings, hhomes]
  have hdeclarations : (resources.declarations.flatMap fun d => d.1.findings).Perm
      (resources'.declarations.flatMap fun d => d.1.findings) :=
    hresources.declarations_perm.flatMap_right _
  exact happs.conflicts_perm.append (hdeclarations.append_left _)

end GrantCompiler
