import GrantCompiler.OrderedMap

/-!
# Look-ups in maps that were put together

The compiler builds its maps in three ways: it enters a list of pairs, it joins two maps, and it
drops entries.  Each is described here by what a look-up then finds, and sets by what they contain,
so that nothing further on walks a list of entries.

* `lastValue` — what a list of pairs says about a key, the last pair having the last word;
  `get?_insertAll` ties it to the map.
* `lastValue_greatest` — when the pairs of one key come in ascending order of something, the last
  word belongs to the greatest.  This is how an application that several namespaces list, or a
  queue that several owners declare, gets its one value.
* `exists_toList_insert` — an insertion happens in one place.
* `insert_comm` — pairs of different keys may be entered in either order.
* `ext_values` — when values name their keys, the values alone determine the map.
* `get?_unionWith`, `get?_filter` — joining and dropping, key by key.
* `OrderedSet.mem_insert`, `OrderedSet.mem_union`, `OrderedSet.ext_mem` — sets by membership.
-/

set_option autoImplicit false

namespace GrantCompiler

open Std (TransOrd LawfulEqOrd OrientedCmp TransCmp LawfulEqCmp)

universe u v w u'

namespace OrderedMap

variable {K : Type u} {V : Type v} [Ord K]

/-! ## Keys and entries -/

theorem mem_keys [LawfulEqOrd K] {m : OrderedMap K V} {k : K} :
    k ∈ m.keys ↔ ∃ x, m.get? k = some x := by
  simp only [keys, List.mem_map, Prod.exists, exists_and_right, exists_eq_right, mem_toList]

theorem mem_values [LawfulEqOrd K] {m : OrderedMap K V} {x : V} :
    x ∈ m.values ↔ ∃ k, m.get? k = some x := by
  simp only [values, List.mem_map, Prod.exists, exists_eq_right, mem_toList]

theorem keys_ascending (m : OrderedMap K V) : m.keys.Pairwise fun a b => compare a b = .lt :=
  List.pairwise_map.2 m.ascending

theorem nodup_keys [LawfulEqOrd K] (m : OrderedMap K V) : m.keys.Nodup := by
  refine List.nodup_iff_pairwise_ne.2 (m.keys_ascending.imp ?_)
  rintro k _ hlt rfl
  simp at hlt

theorem nodup_toList [LawfulEqOrd K] (m : OrderedMap K V) : m.toList.Nodup := by
  refine List.nodup_iff_pairwise_ne.2 ((List.pairwise_map.1 m.nodup_keys).imp ?_)
  intro e e' hkey heq
  exact hkey (congrArg Prod.fst heq)

theorem isEmpty_iff [LawfulEqOrd K] {m : OrderedMap K V} :
    m.isEmpty = true ↔ ∀ k, m.get? k = none := by
  rw [isEmpty, List.isEmpty_iff]
  refine ⟨fun h k => ?_, fun h => ?_⟩
  · rw [get?, h, find?]
  · refine List.eq_nil_iff_forall_not_mem.2 fun e he => ?_
    have hget : m.get? e.1 = some e.2 := mem_toList.1 he
    rw [h e.1] at hget
    cases hget

/-- The entries that pass a test. -/
def filter (m : OrderedMap K V) (p : K → V → Bool) : OrderedMap K V :=
  ⟨m.toList.filter fun e => p e.1 e.2, m.ascending.filter _⟩

theorem get?_filter [LawfulEqOrd K] (m : OrderedMap K V) (p : K → V → Bool) (k : K) :
    (m.filter p).get? k = (m.get? k).filter (p k) := by
  ext x
  rw [← mem_toList, filter, List.mem_filter, mem_toList, Option.filter_eq_some_iff]

/-! ## Values that name their keys -/

section Named

variable [LawfulEqOrd K] {m n : OrderedMap K V} {name : V → K}

theorem map_values_eq_keys (hm : ∀ k x, m.get? k = some x → name x = k) :
    m.values.map name = m.keys := by
  rw [values, keys, List.map_map]
  exact List.map_congr_left fun e he => hm e.1 e.2 (mem_toList.1 he)

/-- Where values name their keys, the sequence of values determines the map. -/
theorem ext_values (hm : ∀ k x, m.get? k = some x → name x = k)
    (hn : ∀ k x, n.get? k = some x → name x = k) (h : m.values = n.values) : m = n := by
  have hkeys : m.keys = n.keys := by
    rw [← map_values_eq_keys hm, ← map_values_eq_keys hn, h]
  refine ext_toList ?_
  rw [← List.zip_unzip m.toList, ← List.zip_unzip n.toList, List.unzip_eq_map, List.unzip_eq_map]
  show List.zip m.keys m.values = List.zip n.keys n.values
  rw [hkeys, h]

end Named

/-! ## Entering pairs -/

section LastValue

variable [DecidableEq K]

/-- The value that the last pair of a key gives it. -/
def lastValue (k : K) : List (K × V) → Option V
  | [] => none
  | (k', x) :: rest => (lastValue k rest).or (if k' = k then some x else none)

omit [Ord K] in
theorem lastValue_eq_none_iff {k : K} {pairs : List (K × V)} :
    lastValue k pairs = none ↔ ∀ p ∈ pairs, p.1 ≠ k := by
  induction pairs with
  | nil => simp [lastValue]
  | cons p rest ih => simp [lastValue, Option.or_eq_none_iff, ih, and_comm]

omit [Ord K] in
/-- Of two lists the second has the last word. -/
theorem lastValue_append (k : K) (pairs pairs' : List (K × V)) :
    lastValue k (pairs ++ pairs') = (lastValue k pairs').or (lastValue k pairs) := by
  induction pairs with
  | nil => simp [lastValue]
  | cons p rest ih => rw [List.cons_append, lastValue, ih, lastValue, Option.or_assoc]

omit [Ord K] in
theorem lastValue_filterMap_cons {α : Type w} (k : K) (f : α → Option (K × V)) (a : α)
    (rest : List α) :
    lastValue k ((a :: rest).filterMap f) =
      (lastValue k (rest.filterMap f)).or (lastValue k (f a).toList) := by
  rw [← lastValue_append, List.filterMap_cons]
  cases f a <;> rfl

omit [Ord K] in
/-- A list that gives every key a value of the key's own. -/
theorem lastValue_map_self (f : K → V) (k : K) (l : List K) :
    lastValue k (l.map fun a => (a, f a)) = if k ∈ l then some (f k) else none := by
  induction l with
  | nil => simp [lastValue]
  | cons a rest ih =>
    by_cases hrest : k ∈ rest
    · simp [lastValue, ih, hrest]
    · by_cases ha : a = k
      · subst ha; simp [lastValue, ih, hrest]
      · simp [lastValue, ih, hrest, ha, Ne.symm ha]

omit [Ord K] in
/-- **The last word belongs to the greatest.**  If of two items with one key the later is never
below the earlier, the value that stays is that of an item below which all others of its key are. -/
theorem lastValue_greatest {α : Type w} (key : α → K) (val : α → V) (le : α → α → Prop)
    (hrefl : ∀ a, le a a) {l : List α} (hl : l.Pairwise fun a b => key a = key b → le a b)
    {k : K} (hk : ∃ a ∈ l, key a = k) :
    ∃ b ∈ l, key b = k ∧ lastValue k (l.map fun a => (key a, val a)) = some (val b) ∧
      ∀ c ∈ l, key c = k → le c b := by
  induction l with
  | nil => simp at hk
  | cons a rest ih =>
    obtain ⟨hhead, htail⟩ := List.pairwise_cons.1 hl
    by_cases hrest : ∃ a ∈ rest, key a = k
    · obtain ⟨b, hb, hbk, hlast, hle⟩ := ih htail hrest
      refine ⟨b, List.mem_cons_of_mem _ hb, hbk, by simp [lastValue, hlast], fun c hc hck => ?_⟩
      rcases List.mem_cons.1 hc with rfl | hc
      · exact hhead b hb (hck.trans hbk.symm)
      · exact hle c hc hck
    · have hnone : lastValue k (rest.map fun a => (key a, val a)) = none := by
        refine lastValue_eq_none_iff.2 fun p hp => ?_
        obtain ⟨c, hc, rfl⟩ := List.mem_map.1 hp
        exact fun h => hrest ⟨c, hc, h⟩
      have hak : key a = k := by
        obtain ⟨c, hc, hck⟩ := hk
        rcases List.mem_cons.1 hc with rfl | hc
        · exact hck
        · exact absurd ⟨c, hc, hck⟩ hrest
      refine ⟨a, List.mem_cons_self, hak, by simp [lastValue, hnone, hak], fun c hc hck => ?_⟩
      rcases List.mem_cons.1 hc with rfl | hc
      · exact hrefl c
      · exact absurd ⟨c, hc, hck⟩ hrest

omit [Ord K] in
/-- The last word is that of a pair after which its key does not come back. -/
theorem lastValue_eq_some_iff {k : K} {x : V} {pairs : List (K × V)} :
    lastValue k pairs = some x ↔
      ∃ before after, pairs = before ++ (k, x) :: after ∧ ∀ p ∈ after, p.1 ≠ k := by
  refine ⟨fun h => ?_, ?_⟩
  · induction pairs with
    | nil => cases h
    | cons p rest ih =>
      rw [lastValue, Option.or_eq_some_iff] at h
      rcases h with h | ⟨hnone, h⟩
      · obtain ⟨before, after, rfl, hafter⟩ := ih h
        exact ⟨p :: before, after, rfl, hafter⟩
      · split at h
        next hp => cases h; exact ⟨[], rest, by rw [← hp]; rfl, lastValue_eq_none_iff.1 hnone⟩
        next => cases h
  · rintro ⟨before, after, rfl, hafter⟩
    rw [lastValue_append, lastValue, lastValue_eq_none_iff.2 hafter]
    simp

omit [Ord K] in
theorem mem_of_lastValue_eq_some {k : K} {x : V} {pairs : List (K × V)}
    (h : lastValue k pairs = some x) : (k, x) ∈ pairs := by
  obtain ⟨before, after, rfl, -⟩ := lastValue_eq_some_iff.1 h
  exact List.mem_append_right _ List.mem_cons_self

omit [DecidableEq K] in
/-- The entries of a map, under keys that stand for its own. -/
theorem lastValue_toList_map [LawfulEqOrd K] {J : Type w} [DecidableEq J] {W : Type u'}
    (m : OrderedMap K V) {ι : K → J} (hι : ∀ a b, ι a = ι b → a = b) (f : K → V → W) (k : K) :
    lastValue (ι k) (m.toList.map fun e => (ι e.1, f e.1 e.2)) = (m.get? k).map (f k) := by
  cases hk : m.get? k with
  | none =>
    refine lastValue_eq_none_iff.2 fun p hp hpk => ?_
    obtain ⟨e, he, rfl⟩ := List.mem_map.1 hp
    have hget : m.get? e.1 = some e.2 := mem_toList.1 he
    rw [hι _ _ hpk, hk] at hget
    cases hget
  | some x =>
    have hx : (k, x) ∈ m.toList := mem_toList.2 hk
    obtain ⟨b, hb, hbk, hlast, -⟩ :=
      lastValue_greatest (fun e => ι e.1) (fun e => f e.1 e.2) (fun _ _ => True) (fun _ => trivial)
        (List.pairwise_of_forall fun _ _ _ => trivial) ⟨(k, x), hx, rfl⟩
    have hbk : b.1 = k := hι _ _ hbk
    have hget : m.get? b.1 = some b.2 := mem_toList.1 hb
    rw [hbk, hk] at hget
    rw [hlast, hbk, ← Option.some_inj.1 hget, Option.map_some]

/-- The entries of a map that pass through a partial function. -/
theorem lastValue_filterMap_toList [LawfulEqOrd K] {W : Type w} (m : OrderedMap K V)
    (f : V → Option W) (k : K) :
    lastValue k (m.toList.filterMap fun e => (f e.2).map (e.1, ·)) = (m.get? k).bind f := by
  obtain ⟨entries, hascending⟩ := m
  induction entries with
  | nil => rfl
  | cons e rest ih =>
    obtain ⟨hhead, htail⟩ := List.pairwise_cons.1 hascending
    have hrest := ih htail
    simp only [get?, find?] at hrest ⊢
    by_cases hk : k = e.1
    · subst hk
      -- the key does not come back further on
      rw [find?_eq_none hhead, Option.bind_none] at hrest
      cases hf : f e.2 <;> simp [hf, lastValue, hrest]
    · have hne : ¬ compare k e.1 = .eq := fun h => hk (LawfulEqCmp.eq_of_compare h)
      cases hf : f e.2 <;> simp [hf, lastValue, hrest, hne, Ne.symm hk]

end LastValue

section Writing

variable [TransOrd K] [LawfulEqOrd K] [DecidableEq K]

omit [DecidableEq K] in
theorem insertAll_append (m : OrderedMap K V) (pairs pairs' : List (K × V)) :
    m.insertAll (pairs ++ pairs') = (m.insertAll pairs).insertAll pairs' :=
  List.foldl_append

theorem get?_insertAll (m : OrderedMap K V) (pairs : List (K × V)) (k : K) :
    (m.insertAll pairs).get? k = (lastValue k pairs).or (m.get? k) := by
  induction pairs generalizing m with
  | nil => simp [insertAll, lastValue]
  | cons p rest ih =>
    have hstep : m.insertAll (p :: rest) = (m.insert p.1 p.2).insertAll rest := rfl
    rw [hstep, ih, get?_insert, lastValue, Option.or_assoc]
    by_cases hk : k = p.1
    · simp [hk]
    · simp [hk, Ne.symm hk]

omit [DecidableEq K] in
/-- An update rewrites the entry of its key where it stands, or puts one there. -/
theorem exists_updateEntries {k : K} (f : Option V → V) :
    ∀ {l : List (K × V)}, l.Pairwise (fun a b => compare a.1 b.1 = .lt) → ∃ before after,
      l = before ++ ((find? k l).map fun x => (k, x)).toList ++ after ∧
        updateEntries k f l = before ++ (k, f (find? k l)) :: after
  | [], _ => ⟨[], [], rfl, rfl⟩
  | (k', v) :: rest, hl => by
    obtain ⟨hhead, htail⟩ := List.pairwise_cons.1 hl
    cases hc : compare k k' with
    | lt =>
      have hnone : find? k ((k', v) :: rest) = none := by
        refine find?_eq_none fun e he => ?_
        rcases List.mem_cons.1 he with rfl | he
        · exact hc
        · exact TransCmp.lt_trans hc (hhead e he)
      rw [updateEntries, hc, hnone]
      exact ⟨[], (k', v) :: rest, rfl, rfl⟩
    | eq =>
      obtain rfl : k = k' := LawfulEqCmp.eq_of_compare hc
      rw [updateEntries, find?, hc, if_pos rfl]
      exact ⟨[], rest, rfl, rfl⟩
    | gt =>
      obtain ⟨before, after, hentries, hupdated⟩ := exists_updateEntries f htail
      have hrest : find? k ((k', v) :: rest) = find? k rest := by
        rw [find?, hc, if_neg (by decide)]
      rw [updateEntries, hc, hrest]
      exact ⟨(k', v) :: before, after, congrArg ((k', v) :: ·) hentries,
        congrArg ((k', v) :: ·) hupdated⟩

omit [DecidableEq K] in
theorem exists_toList_insert (m : OrderedMap K V) (k : K) (x : V) : ∃ before after,
    m.toList = before ++ ((m.get? k).map fun y => (k, y)).toList ++ after ∧
      (m.insert k x).toList = before ++ (k, x) :: after :=
  exists_updateEntries (fun _ => x) m.ascending

/-- Two keys are entered in either order. -/
theorem insert_comm (m : OrderedMap K V) {k k' : K} (h : k ≠ k') (x y : V) :
    (m.insert k x).insert k' y = (m.insert k' y).insert k x := by
  refine ext_get? fun j => ?_
  simp only [get?_insert]
  by_cases hk : j = k
  · have hk' : j ≠ k' := hk ▸ h
    simp [hk, h]
  · simp [hk]

theorem get?_ofList (pairs : List (K × V)) (k : K) :
    (ofList pairs).get? k = lastValue k pairs := by
  rw [ofList, get?_insertAll, get?_empty, Option.or_none]

/-- Rewriting every value of a map, with its key at hand. -/
theorem get?_ofList_map {W : Type w} (m : OrderedMap K V) (f : K → V → W) (k : K) :
    (ofList (m.toList.map fun e => (e.1, f e.1 e.2))).get? k = (m.get? k).map (f k) := by
  rw [get?_ofList]
  exact lastValue_toList_map m (fun _ _ h => h) f k

/-- Joining a list of entries into a map, for `get?_unionWith`. -/
theorem get?_foldl_update (f : V → V → V) (k : K) :
    ∀ (l : List (K × V)) (m : OrderedMap K V), l.Pairwise (fun a b => compare a.1 b.1 = .lt) →
      (l.foldl (fun m e => m.update e.1 fun x => (x.map (f · e.2)).getD e.2) m).get? k =
        Option.merge f (m.get? k) (find? k l)
  | [], m, _ => by simp [find?]
  | (k', y) :: rest, m, hl => by
    obtain ⟨hhead, htail⟩ := List.pairwise_cons.1 hl
    rw [List.foldl_cons, get?_foldl_update f k rest _ htail, get?_update]
    by_cases hk : k = k'
    · subst hk
      rw [find?_eq_none hhead]
      cases m.get? k <;> simp [find?]
    · have hne : ¬ compare k k' = .eq := fun h => hk (LawfulEqCmp.eq_of_compare h)
      simp [find?, hk, hne]

theorem get?_unionWith (f : V → V → V) (m n : OrderedMap K V) (k : K) :
    (m.unionWith f n).get? k = Option.merge f (m.get? k) (n.get? k) :=
  get?_foldl_update f k n.toList m n.ascending

end Writing

end OrderedMap

/-! ## Sets -/

namespace OrderedSet

variable {α : Type u} [Ord α]

instance : Membership α (OrderedSet α) := ⟨fun s a => s.contains a = true⟩

instance (a : α) (s : OrderedSet α) : Decidable (a ∈ s) :=
  inferInstanceAs (Decidable (s.contains a = true))

theorem mem_iff_get? {a : α} {s : OrderedSet α} : a ∈ s ↔ s.members.get? a = some () :=
  Option.isSome_iff_exists.trans ⟨fun ⟨_, h⟩ => h, fun h => ⟨(), h⟩⟩

@[simp] theorem not_mem_empty (a : α) : ¬ a ∈ (empty : OrderedSet α) := by
  rw [mem_iff_get?, empty, OrderedMap.get?_empty]
  simp

theorem mem_toList [LawfulEqOrd α] {a : α} {s : OrderedSet α} : a ∈ s.toList ↔ a ∈ s := by
  rw [toList, OrderedMap.mem_keys, mem_iff_get?]
  exact ⟨fun ⟨_, h⟩ => h, fun h => ⟨(), h⟩⟩

variable [TransOrd α] [LawfulEqOrd α]

/-- A set is determined by its members. -/
theorem ext_mem {s t : OrderedSet α} (h : ∀ a, a ∈ s ↔ a ∈ t) : s = t := by
  have hget : ∀ a, s.members.get? a = t.members.get? a := by
    intro a
    refine Option.ext fun _ => ?_
    rw [← mem_iff_get?, ← mem_iff_get?, h a]
  cases s; cases t
  exact congrArg mk (OrderedMap.ext_get? hget)

variable [DecidableEq α]

@[simp] theorem mem_insert {s : OrderedSet α} {a b : α} : b ∈ s.insert a ↔ b = a ∨ b ∈ s := by
  rw [mem_iff_get?, mem_iff_get?, insert, OrderedMap.get?_insert]
  by_cases h : b = a <;> simp [h]

@[simp] theorem mem_union {s t : OrderedSet α} {a : α} : a ∈ s.union t ↔ a ∈ s ∨ a ∈ t := by
  rw [mem_iff_get?, mem_iff_get?, mem_iff_get?, union, OrderedMap.get?_unionWith]
  cases s.members.get? a <;> cases t.members.get? a <;> simp

end OrderedSet

end GrantCompiler
