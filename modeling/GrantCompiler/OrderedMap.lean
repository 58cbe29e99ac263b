/-!
# Finite maps in key order

Every document, table and result of the compiler is a finite map that is walked in ascending key
order.  `OrderedMap K V` is the list of its entries together with the proof that the keys strictly
ascend, so a map *is* its sequence of entries and two maps with the same look-ups are equal.

## What is here

* `OrderedMap.update` — the one way to write: it replaces the value of a key, given the value held
  so far.  `insert`, `ofList` and `unionWith` are all phrased through it.
* `OrderedMap.get?` — the view that every law is stated through: `get?_update`, `get?_insert`,
  `get?_empty`.
* `OrderedMap.mem_toList` and `OrderedMap.ext_get?` — the entries are exactly the look-ups, and
  the look-ups determine the map.
* `OrderedSet α` — a map that keeps keys only.
-/

set_option autoImplicit false

namespace GrantCompiler

open Std (TransOrd LawfulEqOrd OrientedOrd OrientedCmp TransCmp LawfulEqCmp)

universe u v w

/-- A finite map, held as its entries in strictly ascending key order. -/
structure OrderedMap (K : Type u) (V : Type v) [Ord K] where
  toList : List (K × V)
  ascending : toList.Pairwise fun a b => compare a.1 b.1 = .lt

namespace OrderedMap

variable {K : Type u} {V : Type v} [Ord K]

/-! ## Entries -/

/-- The value that a list of entries holds under a key. -/
def find? (k : K) : List (K × V) → Option V
  | [] => none
  | (k', v) :: rest => if compare k k' = .eq then some v else find? k rest

/-- Replaces the entry of `k`, or puts a new one where the order wants it. -/
def updateEntries (k : K) (f : Option V → V) : List (K × V) → List (K × V)
  | [] => [(k, f none)]
  | (k', v) :: rest =>
    match compare k k' with
    | .lt => (k, f none) :: (k', v) :: rest
    | .eq => (k, f (some v)) :: rest
    | .gt => (k', v) :: updateEntries k f rest

theorem mem_updateEntries {k : K} {f : Option V → V} {e : K × V} :
    ∀ {l : List (K × V)}, e ∈ updateEntries k f l → e.1 = k ∨ e ∈ l
  | [], h => by simp [updateEntries] at h; exact .inl (by rw [h])
  | (k', v) :: rest, h => by
    unfold updateEntries at h
    split at h
    · rcases List.mem_cons.1 h with rfl | h
      · exact .inl rfl
      · exact .inr h
    · rcases List.mem_cons.1 h with rfl | h
      · exact .inl rfl
      · exact .inr (List.mem_cons_of_mem _ h)
    · rcases List.mem_cons.1 h with rfl | h
      · exact .inr List.mem_cons_self
      · exact (mem_updateEntries h).imp_right (List.mem_cons_of_mem _)

theorem updateEntries_ascending [TransOrd K] [LawfulEqOrd K] (k : K) (f : Option V → V) :
    ∀ {l : List (K × V)}, l.Pairwise (fun a b => compare a.1 b.1 = .lt) →
      (updateEntries k f l).Pairwise (fun a b => compare a.1 b.1 = .lt)
  | [], _ => by simp [updateEntries]
  | (k', v) :: rest, h => by
    obtain ⟨hhead, htail⟩ := List.pairwise_cons.1 h
    unfold updateEntries
    split
    next hlt =>
      refine List.pairwise_cons.2 ⟨fun e he => ?_, h⟩
      rcases List.mem_cons.1 he with rfl | he
      · exact hlt
      · exact TransCmp.lt_trans hlt (hhead e he)
    next heq =>
      refine List.pairwise_cons.2 ⟨fun e he => ?_, htail⟩
      have hk : k = k' := LawfulEqCmp.eq_of_compare heq
      exact hk ▸ hhead e he
    next hgt =>
      refine List.pairwise_cons.2 ⟨fun e he => ?_, updateEntries_ascending k f htail⟩
      rcases mem_updateEntries he with rfl | he
      · exact OrientedCmp.lt_of_gt hgt
      · exact hhead e he

/-! ## Maps -/

/-- The map without entries. -/
def empty : OrderedMap K V := ⟨[], .nil⟩

instance : EmptyCollection (OrderedMap K V) := ⟨empty⟩
instance : Inhabited (OrderedMap K V) := ⟨empty⟩

/-- The value of a key, if the map has it. -/
def get? (m : OrderedMap K V) (k : K) : Option V := find? k m.toList

/-- Whether the map has a key. -/
def contains (m : OrderedMap K V) (k : K) : Bool := (m.get? k).isSome

/-- The keys, ascending. -/
def keys (m : OrderedMap K V) : List K := m.toList.map Prod.fst

/-- The values, in the order of their keys. -/
def values (m : OrderedMap K V) : List V := m.toList.map Prod.snd

/-- The number of entries. -/
def size (m : OrderedMap K V) : Nat := m.toList.length

/-- Whether there is no entry. -/
def isEmpty (m : OrderedMap K V) : Bool := m.toList.isEmpty

instance [BEq K] [BEq V] : BEq (OrderedMap K V) := ⟨fun m n => m.toList == n.toList⟩

theorem ext_toList {m n : OrderedMap K V} (h : m.toList = n.toList) : m = n := by
  cases m; cases n; cases h; rfl

instance [DecidableEq K] [DecidableEq V] : DecidableEq (OrderedMap K V) := fun m n =>
  decidable_of_iff (m.toList = n.toList) ⟨ext_toList, fun h => h ▸ rfl⟩

section Writing

variable [TransOrd K] [LawfulEqOrd K]

/-- Replaces the value of `k` by `f` of the value held so far. -/
def update (m : OrderedMap K V) (k : K) (f : Option V → V) : OrderedMap K V :=
  ⟨updateEntries k f m.toList, updateEntries_ascending k f m.ascending⟩

/-- Enters a value over any earlier one of the key. -/
def insert (m : OrderedMap K V) (k : K) (x : V) : OrderedMap K V := m.update k fun _ => x

/-- Enters the pairs from left to right; the last value given to a key stays. -/
def insertAll (m : OrderedMap K V) (pairs : List (K × V)) : OrderedMap K V :=
  pairs.foldl (fun m e => m.insert e.1 e.2) m

/-- The map that pairs come to; of several values for a key the last one stays. -/
def ofList (pairs : List (K × V)) : OrderedMap K V := empty.insertAll pairs

/-- The entries of both maps; where both hold a key, `f` joins the two values. -/
def unionWith (f : V → V → V) (m n : OrderedMap K V) : OrderedMap K V :=
  n.toList.foldl (fun m e => m.update e.1 fun x => (x.map (f · e.2)).getD e.2) m

end Writing

/-! ## Look-ups -/

@[simp] theorem get?_empty (k : K) : (empty : OrderedMap K V).get? k = none := rfl

section Laws

variable [TransOrd K] [LawfulEqOrd K]

omit [TransOrd K] [LawfulEqOrd K] in
/-- Nothing is held below the first key. -/
theorem find?_eq_none {k : K} : ∀ {l : List (K × V)}, (∀ e ∈ l, compare k e.1 = .lt) →
    find? k l = none
  | [], _ => rfl
  | (k', v) :: rest, h => by
    have hk : compare k k' = .lt := h _ List.mem_cons_self
    rw [find?, if_neg (by rw [hk]; decide)]
    exact find?_eq_none fun e he => h e (List.mem_cons_of_mem _ he)

theorem find?_updateEntries [DecidableEq K] (k k' : K) (f : Option V → V) :
    ∀ (l : List (K × V)), l.Pairwise (fun a b => compare a.1 b.1 = .lt) →
      find? k' (updateEntries k f l) = if k' = k then some (f (find? k l)) else find? k' l
  | [], _ => by
    by_cases h : k' = k
    · subst h; simp [updateEntries, find?]
    · simp [updateEntries, find?, h]
  | (k₁, v) :: rest, hasc => by
    obtain ⟨hhead, htail⟩ := List.pairwise_cons.1 hasc
    have ih := find?_updateEntries k k' f rest htail
    unfold updateEntries
    split
    next hlt =>
      have hne : ¬ compare k k₁ = .eq := by rw [hlt]; decide
      have habs : find? k rest = none :=
        find?_eq_none fun e he => TransCmp.lt_trans hlt (hhead e he)
      by_cases h : k' = k
      · subst h; simp [find?, hne, habs]
      · simp [find?, h]
    next heq =>
      have hk : k = k₁ := LawfulEqCmp.eq_of_compare heq
      subst hk
      by_cases h : k' = k
      · subst h; simp [find?]
      · simp [find?, h]
    next hgt =>
      have hne : ¬ compare k k₁ = .eq := by rw [hgt]; decide
      by_cases h : k' = k
      · subst h
        simp only [find?, if_neg hne, ih, if_true]
      · by_cases h1 : compare k' k₁ = .eq
        · simp [find?, h1, h]
        · simp only [find?, if_neg h1, ih, if_neg h]

/-- An update is seen under its own key and nowhere else. -/
theorem get?_update [DecidableEq K] (m : OrderedMap K V) (k k' : K) (f : Option V → V) :
    (m.update k f).get? k' = if k' = k then some (f (m.get? k)) else m.get? k' :=
  find?_updateEntries k k' f m.toList m.ascending

theorem get?_insert [DecidableEq K] (m : OrderedMap K V) (k k' : K) (x : V) :
    (m.insert k x).get? k' = if k' = k then some x else m.get? k' :=
  get?_update m k k' _

omit [TransOrd K] in
theorem find?_eq_some_iff {k : K} {x : V} :
    ∀ {l : List (K × V)}, l.Pairwise (fun a b => compare a.1 b.1 = .lt) →
      (find? k l = some x ↔ (k, x) ∈ l)
  | [], _ => by simp [find?]
  | (k', v) :: rest, hasc => by
    obtain ⟨hhead, htail⟩ := List.pairwise_cons.1 hasc
    by_cases h : compare k k' = .eq
    · have hk : k = k' := LawfulEqCmp.eq_of_compare h
      subst hk
      simp only [find?, h, if_true, Option.some.injEq, List.mem_cons, Prod.mk.injEq, true_and]
      constructor
      · rintro rfl; exact .inl rfl
      · rintro (rfl | hmem)
        · rfl
        · exact absurd (hhead _ hmem) (by simp)
    · have hk : k ≠ k' := fun e => h (by simp [e])
      simp only [find?, if_neg h, find?_eq_some_iff htail, List.mem_cons, Prod.mk.injEq, hk,
        false_and, false_or]

omit [TransOrd K] in
/-- The entries of a map are exactly what its look-ups return. -/
theorem mem_toList {m : OrderedMap K V} {k : K} {x : V} :
    (k, x) ∈ m.toList ↔ m.get? k = some x :=
  (find?_eq_some_iff m.ascending).symm

theorem eq_of_find?_eq : ∀ {l l' : List (K × V)},
    l.Pairwise (fun a b => compare a.1 b.1 = .lt) →
    l'.Pairwise (fun a b => compare a.1 b.1 = .lt) → (∀ k, find? k l = find? k l') → l = l'
  | [], [], _, _, _ => rfl
  | [], (k, v) :: _, _, _, h => by simpa [find?] using h k
  | (k, v) :: _, [], _, _, h => by simpa [find?] using h k
  | (k, v) :: rest, (k', v') :: rest', hl, hl', h => by
    obtain ⟨hhead, htail⟩ := List.pairwise_cons.1 hl
    obtain ⟨hhead', htail'⟩ := List.pairwise_cons.1 hl'
    have below : ∀ {x y : K} {e e' : V} {r r' : List (K × V)}, compare x y = .lt →
        (∀ p ∈ r', compare y p.1 = .lt) → find? x ((x, e) :: r) ≠ find? x ((y, e') :: r') := by
      intro x y e e' r r' hxy hr'
      have habs : find? x ((y, e') :: r') = none := find?_eq_none fun p hp => by
        rcases List.mem_cons.1 hp with rfl | hp
        · exact hxy
        · exact TransCmp.lt_trans hxy (hr' p hp)
      rw [habs]
      simp [find?]
    cases hc : compare k k' with
    | lt => exact absurd (h k) (below hc hhead')
    | gt => exact absurd (h k').symm (below (OrientedCmp.lt_of_gt hc) hhead)
    | eq =>
      have hk : k = k' := LawfulEqCmp.eq_of_compare hc
      subst hk
      have hv : v = v' := by simpa [find?] using h k
      subst hv
      refine congrArg _ (eq_of_find?_eq htail htail' fun x => ?_)
      by_cases hx : compare x k = .eq
      · have hxk : x = k := LawfulEqCmp.eq_of_compare hx
        subst hxk
        rw [find?_eq_none hhead, find?_eq_none hhead']
      · simpa [find?, hx] using h x

/-- A map is determined by its look-ups. -/
theorem ext_get? {m n : OrderedMap K V} (h : ∀ k, m.get? k = n.get? k) : m = n :=
  ext_toList (eq_of_find?_eq m.ascending n.ascending h)

end Laws

end OrderedMap

/-! ## Sets -/

/-- A finite set, held as a map that keeps keys only. -/
structure OrderedSet (α : Type u) [Ord α] where
  members : OrderedMap α Unit

namespace OrderedSet

variable {α : Type u} [Ord α]

/-- The set without members. -/
def empty : OrderedSet α := ⟨.empty⟩

instance : EmptyCollection (OrderedSet α) := ⟨empty⟩
instance : Inhabited (OrderedSet α) := ⟨empty⟩

instance [DecidableEq α] : DecidableEq (OrderedSet α) := fun s t =>
  decidable_of_iff (s.members = t.members)
    ⟨fun h => by cases s; cases t; cases h; rfl, fun h => h ▸ rfl⟩

/-- The members, ascending. -/
def toList (s : OrderedSet α) : List α := s.members.keys

/-- Whether something is a member. -/
def contains (s : OrderedSet α) (a : α) : Bool := s.members.contains a

/-- The number of members. -/
def size (s : OrderedSet α) : Nat := s.members.size

/-- Whether there is no member. -/
def isEmpty (s : OrderedSet α) : Bool := s.members.isEmpty

variable [TransOrd α] [LawfulEqOrd α]

/-- Makes something a member, if it is none yet. -/
def insert (s : OrderedSet α) (a : α) : OrderedSet α := ⟨s.members.insert a ()⟩

/-- The members of either set. -/
def union (s t : OrderedSet α) : OrderedSet α := ⟨s.members.unionWith (fun _ _ => ()) t.members⟩

end OrderedSet

end GrantCompiler
