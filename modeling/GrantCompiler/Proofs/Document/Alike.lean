import GrantCompiler.Proofs.Aggregation.Grants
import GrantCompiler.Proofs.Naming.Derivation
import Mathlib.Data.List.Forall2

/-!
# Documents that list the same

A document is maps of maps down to its lists of names.  Two documents are alike if they have the
same keys all the way down and differ in their lists only, and there no more than a relation on
lists allows.  Two relations are of interest: `SameNames` forgets the order of a list and how often
a name stands in it, and `Reordered` forgets the order alone.

What a document says is said through `Apps.Lists`, `Resources.Declares`, `Permissions.roles` and
`Usage.Lists`, and none of these can tell documents apart that list the same names.  What a document
is walked for (`Resources.declarations`, `AppUsage.occurrences`) is reordered with its lists.
-/

set_option autoImplicit false

namespace GrantCompiler

universe u v w

/-! ## Maps -/

namespace OrderedMap

variable {K : Type u} {V : Type v} [Ord K] {R : V → V → Prop} {m n : OrderedMap K V}

/-- Two maps have the same keys, and what they hold under a key is related. -/
def Alike (R : V → V → Prop) (m n : OrderedMap K V) : Prop :=
  List.Forall₂ (fun e e' => e.1 = e'.1 ∧ R e.2 e'.2) m.toList n.toList

theorem exists_find?_iff {l l' : List (K × V)}
    (h : List.Forall₂ (fun e e' => e.1 = e'.1 ∧ R e.2 e'.2) l l') {p q : V → Prop}
    (hpq : ∀ x y, R x y → (p x ↔ q y)) (k : K) :
    (∃ x, find? k l = some x ∧ p x) ↔ ∃ y, find? k l' = some y ∧ q y := by
  induction h with
  | nil => simp [find?]
  | @cons e e' _ _ hhead _ ih =>
    obtain ⟨k₁, x⟩ := e
    obtain ⟨k₂, y⟩ := e'
    obtain ⟨rfl, hvalue⟩ : k₁ = k₂ ∧ R x y := hhead
    by_cases hk : compare k k₁ = .eq
    · simp [find?, hk, hpq x y hvalue]
    · simpa [find?, hk] using ih

/-- What related values cannot be told apart by, look-ups in maps that are alike cannot either. -/
theorem Alike.exists_get?_iff (h : m.Alike R n) {p q : V → Prop}
    (hpq : ∀ x y, R x y → (p x ↔ q y)) (k : K) :
    (∃ x, m.get? k = some x ∧ p x) ↔ ∃ y, n.get? k = some y ∧ q y :=
  exists_find?_iff h hpq k

/-- Maps that are alike hold something under the same keys. -/
theorem Alike.isSome_get?_iff (h : m.Alike R n) (k : K) :
    (∃ x, m.get? k = some x) ↔ ∃ y, n.get? k = some y := by
  have hany : (∃ x, m.get? k = some x ∧ True) ↔ ∃ y, n.get? k = some y ∧ True :=
    h.exists_get?_iff (fun _ _ _ => Iff.rfl) k
  simpa only [and_true] using hany

theorem Alike.imp {S : V → V → Prop} (himp : ∀ x y, R x y → S x y) :
    m.Alike R n → m.Alike S n :=
  List.Forall₂.imp fun _ _ hentry => ⟨hentry.1, himp _ _ hentry.2⟩

omit [Ord K] in
theorem flatMap_perm_of_forall₂ {α : Type w} {l l' : List (K × V)}
    (h : List.Forall₂ (fun e e' => e.1 = e'.1 ∧ R e.2 e'.2) l l') {f g : K × V → List α}
    (hfg : ∀ k x y, R x y → (f (k, x)).Perm (g (k, y))) :
    (l.flatMap f).Perm (l'.flatMap g) := by
  induction h with
  | nil => exact .nil
  | @cons e e' _ _ hhead _ ih =>
    obtain ⟨k, x⟩ := e
    obtain ⟨k', y⟩ := e'
    obtain ⟨rfl, hvalue⟩ : k = k' ∧ R x y := hhead
    rw [List.flatMap_cons, List.flatMap_cons]
    exact (hfg k x y hvalue).append ih

/-- Maps that are alike are walked alike. -/
theorem Alike.flatMap_perm (h : m.Alike R n) {α : Type w} {f g : K × V → List α}
    (hfg : ∀ k x y, R x y → (f (k, x)).Perm (g (k, y))) :
    (m.toList.flatMap f).Perm (n.toList.flatMap g) :=
  flatMap_perm_of_forall₂ h hfg

end OrderedMap

/-! ## Documents -/

/-- How two lists of names are alike. -/
abbrev ListRelation := ∀ sort : NameSort, List (Name sort) → List (Name sort) → Prop

/-- The same names, in any order and any number of times. -/
def SameNames : ListRelation := fun _ l l' => ∀ a, a ∈ l ↔ a ∈ l'

/-- The same names as often, in any order. -/
def Reordered : ListRelation := fun _ l l' => l.Perm l'

variable {R : ListRelation}

/-- The same namespaces with related lists of applications. -/
def Apps.Alike (R : ListRelation) (apps apps' : Apps) : Prop :=
  OrderedMap.Alike (R .app) apps apps'

/-- The same kinds and owners with related lists of short names. -/
def Resources.Alike (R : ListRelation) (resources resources' : Resources) : Prop :=
  OrderedMap.Alike (OrderedMap.Alike (R .resource)) resources resources'

/-- The same kinds and operations with related lists of roles. -/
def Permissions.Alike (R : ListRelation) (p p' : Permissions) : Prop :=
  OrderedMap.Alike (OrderedMap.Alike (R .role)) p.kinds p'.kinds

/-- The same kinds and operations with related lists of short names. -/
def AppUsage.Alike (R : ListRelation) (usage usage' : AppUsage) : Prop :=
  OrderedMap.Alike (OrderedMap.Alike (R .resource)) usage usage'

/-- The same applications with usage that is alike. -/
def Usage.Alike (R : ListRelation) (usage usage' : Usage) : Prop :=
  OrderedMap.Alike (AppUsage.Alike R) usage usage'

/-- Two documents on resources and their use are alike in every section. -/
structure UsageDocument.Alike (R : ListRelation) (d d' : UsageDocument) : Prop where
  resources : d.resources.Alike R d'.resources
  permissions : d.permissions.Alike R d'.permissions
  usage : d.usage.Alike R d'.usage

/-! ### A reordered list lists the same -/

theorem Reordered.sameNames {sort : NameSort} {l l' : List (Name sort)} (h : Reordered sort l l') :
    SameNames sort l l' :=
  fun _ => h.mem_iff

theorem Apps.Alike.sameNames {apps apps' : Apps} (h : apps.Alike Reordered apps') :
    apps.Alike SameNames apps' :=
  OrderedMap.Alike.imp (fun _ _ hnames => hnames.sameNames) h

theorem UsageDocument.Alike.sameNames {d d' : UsageDocument} (h : d.Alike Reordered d') :
    d.Alike SameNames d' where
  resources := OrderedMap.Alike.imp
    (fun _ _ => OrderedMap.Alike.imp fun _ _ hnames => hnames.sameNames) h.resources
  permissions := OrderedMap.Alike.imp
    (fun _ _ => OrderedMap.Alike.imp fun _ _ hroles => hroles.sameNames) h.permissions
  usage := OrderedMap.Alike.imp
    (fun _ _ => OrderedMap.Alike.imp
      fun _ _ => OrderedMap.Alike.imp fun _ _ hnames => hnames.sameNames) h.usage

/-! ## What documents with the same names say -/

section SameNames

theorem Apps.Alike.lists_iff {apps apps' : Apps} (h : apps.Alike SameNames apps')
    (space : NamespaceName) (app : AppName) : apps.Lists space app ↔ apps'.Lists space app :=
  h.exists_get?_iff (fun _ _ hsame => hsame app) space

theorem Apps.Alike.declares_iff {apps apps' : Apps} (h : apps.Alike SameNames apps')
    (app : AppName) : apps.Declares app ↔ apps'.Declares app :=
  exists_congr fun space => h.lists_iff space app

theorem Resources.Alike.declares_iff {resources resources' : Resources}
    (h : resources.Alike SameNames resources') (kind : Kind) (owner : OwnerKey)
    (name : ResourceName) :
    resources.Declares kind owner name ↔ resources'.Declares kind owner name := by
  simp only [Resources.Declares, exists_and_left]
  refine h.exists_get?_iff (fun owned owned' howned => ?_) kind
  exact howned.exists_get?_iff (fun _ _ hsame => hsame name) owner

theorem Permissions.mem_roles {p : Permissions} {kind : Kind} {operation : OperationName}
    {role : RoleName} :
    role ∈ p.roles kind operation ↔ ∃ held, p.kinds.get? kind = some held ∧
      ∃ roles, held.get? operation = some roles ∧ role ∈ roles := by
  rw [roles, lookup]
  cases p.kinds.get? kind with
  | none => simp
  | some held =>
    show role ∈ (held.get? operation).getD [] ↔ _
    cases hroles : held.get? operation <;> simp [hroles]

theorem Permissions.defines_iff {p : Permissions} {kind : Kind} {operation : OperationName} :
    p.defines kind operation = true ↔ ∃ held, p.kinds.get? kind = some held ∧
      ∃ roles, held.get? operation = some roles := by
  rw [defines, lookup]
  cases p.kinds.get? kind with
  | none => simp
  | some held =>
    show (held.get? operation).isSome = true ↔ _
    cases hroles : held.get? operation <;> simp [hroles]

theorem Permissions.Alike.mem_roles_iff {p p' : Permissions} (h : p.Alike SameNames p')
    (kind : Kind) (operation : OperationName) (role : RoleName) :
    role ∈ p.roles kind operation ↔ role ∈ p'.roles kind operation := by
  rw [mem_roles, mem_roles]
  refine OrderedMap.Alike.exists_get?_iff h (fun held held' hheld => ?_) kind
  exact hheld.exists_get?_iff (fun _ _ hsame => hsame role) operation

/-- Whether an operation is defined does not depend on its list of roles at all. -/
theorem Permissions.Alike.defines_eq {p p' : Permissions} (h : p.Alike R p') (kind : Kind)
    (operation : OperationName) : p.defines kind operation = p'.defines kind operation := by
  rw [Bool.eq_iff_iff, defines_iff, defines_iff]
  refine OrderedMap.Alike.exists_get?_iff h (fun held held' hheld => ?_) kind
  exact hheld.isSome_get?_iff operation

theorem Usage.Alike.lists_iff {usage usage' : Usage} (h : usage.Alike SameNames usage')
    (app : AppName) (o : Occurrence) : usage.Lists app o ↔ usage'.Lists app o := by
  simp only [Usage.Lists, exists_and_left]
  refine h.exists_get?_iff (fun u u' hu => ?_) app
  refine OrderedMap.Alike.exists_get?_iff hu (fun operations operations' hoperations => ?_) o.kind
  exact hoperations.exists_get?_iff (fun _ _ hsame => hsame o.name) o.operation

end SameNames

/-! ## How reordered documents are walked -/

section Reordered

theorem Resources.Alike.declarations_perm {resources resources' : Resources}
    (h : resources.Alike Reordered resources') :
    resources.declarations.Perm resources'.declarations := by
  refine h.flatMap_perm fun kind owned owned' howned => ?_
  exact howned.flatMap_perm fun owner names names' hnames => hnames.map _

theorem AppUsage.Alike.occurrences_perm {usage usage' : AppUsage}
    (h : usage.Alike Reordered usage') : usage.occurrences.Perm usage'.occurrences := by
  refine h.flatMap_perm fun kind operations operations' hoperations => ?_
  exact hoperations.flatMap_perm fun operation names names' hnames => hnames.map _

end Reordered

end GrantCompiler
