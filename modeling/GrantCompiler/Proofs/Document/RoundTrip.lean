import GrantCompiler.Document.Form
import GrantCompiler.Proofs.OrderedMap

/-!
# Documents are read as they were written

Writing a document gives a tree, and reading that tree gives the document.  This is shown form by
form, for lists (`Tree.asList?_ofList`) and for maps (`Tree.asMap?_ofMap`), and then from the names
upwards to `UsageDocument.ofTree?_toTree`.  A map asks for one thing more than its values do: that
its keys come back from their texts, which for kinds is `Kind.ofText_text`.

In the other direction it is the texts that must not be lost.  Where different texts are different
keys, a map holds under each key the last tree written under that very text
(`Tree.get?_of_asMap?_fields`).  Kinds are such keys, so no two of them are merged.
-/

set_option autoImplicit false

namespace GrantCompiler

open Std (TransOrd LawfulEqOrd)

/-! ## Reading item by item -/

section Items

variable {α β γ : Type}

theorem mapM_map_eq_some {f : β → Option γ} {g : α → β} {h : α → γ}
    (hfg : ∀ a, f (g a) = some (h a)) (l : List α) : (l.map g).mapM f = some (l.map h) := by
  induction l with
  | nil => rfl
  | cons a rest ih => rw [List.map_cons, List.mapM_cons, hfg, ih]; rfl

theorem mapM_cons_eq_some_iff {f : α → Option β} {a : α} {rest : List α} {l : List β} :
    (a :: rest).mapM f = some l ↔ ∃ b rest', f a = some b ∧ rest.mapM f = some rest' ∧
      l = b :: rest' := by
  simp only [List.mapM_cons, Option.bind_eq_bind, Option.bind_eq_some_iff, Option.pure_def,
    Option.some.injEq, eq_comm (b := l), exists_and_left]

end Items

/-! ## Trees -/

namespace Tree

theorem asList?_ofList {α : Type} {item : Tree → Option α} {write : α → Tree}
    (hitem : ∀ a, item (write a) = some a) (l : List α) :
    (ofList write l).asList? item = some l := by
  show (l.map write).mapM item = some l
  rw [mapM_map_eq_some hitem, List.map_id']

section Maps

variable {K V : Type} [Ord K] [TransOrd K] [LawfulEqOrd K] {key : String → K}
  {value : Tree → Option V}

/-- How an entry of a map is read. -/
def readEntry (key : String → K) (value : Tree → Option V) (e : Tree × Tree) : Option (K × V) := do
  return (key (← e.1.asText?), ← value e.2)

omit [Ord K] [TransOrd K] [LawfulEqOrd K] in
theorem readEntry_eq_some_iff {e : Tree × Tree} {p : K × V} :
    readEntry key value e = some p ↔
      ∃ text, e.1.asText? = some text ∧ p.1 = key text ∧ value e.2 = some p.2 := by
  obtain ⟨k, x⟩ := p
  simp only [readEntry, Option.bind_eq_bind, Option.bind_eq_some_iff, Option.pure_def,
    Option.some.injEq, Prod.mk.injEq]
  refine ⟨?_, ?_⟩
  · rintro ⟨text, htext, _, hx, rfl, rfl⟩
    exact ⟨text, htext, rfl, hx⟩
  · rintro ⟨text, htext, rfl, hx⟩
    exact ⟨text, htext, x, hx, rfl, rfl⟩

theorem asMap?_fields (entries : List (Tree × Tree)) :
    (fields entries).asMap? key value =
      (entries.mapM (readEntry key value)).map OrderedMap.ofList := by
  show (entries.mapM (readEntry key value)).bind (some ∘ OrderedMap.ofList) = _
  rw [Option.map_eq_bind]

/-- A map is read from its entries, whatever holds them. -/
theorem asMap?_congr {t t' : Tree} (h : t.asEntries? = t'.asEntries?) :
    t.asMap? key value = t'.asMap? key value := by
  rw [asMap?, h, asMap?]

theorem asMap?_ofMap [DecidableEq K] {text : K → String} {write : V → Tree}
    (hkey : ∀ k, key (text k) = k) (hvalue : ∀ x, value (write x) = some x) (m : OrderedMap K V) :
    (ofMap text write m).asMap? key value = some m := by
  have hentry : ∀ e : K × V, readEntry key value (.text (text e.1), write e.2) = some (e.1, e.2) :=
    fun e => readEntry_eq_some_iff.2 ⟨text e.1, rfl, (hkey e.1).symm, hvalue e.2⟩
  rw [ofMap, asMap?_fields, mapM_map_eq_some hentry, Option.map_some]
  refine congrArg some (OrderedMap.ext_get? fun k => ?_)
  rw [OrderedMap.get?_ofList_map m (fun _ x => x), Option.map_id']

/-- The last tree that is written under a text. -/
def lastUnder (text : String) (entries : List (Tree × Tree)) : Option Tree :=
  (entries.reverse.find? fun e => e.1.asText? = some text).map Prod.snd

theorem lastUnder_cons (text : String) (e : Tree × Tree) (rest : List (Tree × Tree)) :
    lastUnder text (e :: rest) =
      (lastUnder text rest).or (if e.1.asText? = some text then some e.2 else none) := by
  rw [lastUnder, List.reverse_cons, List.find?_append, Option.map_or]
  by_cases he : e.1.asText? = some text <;> simp [lastUnder, he]

omit [Ord K] [TransOrd K] [LawfulEqOrd K] in
/-- Every tree among the entries is read, and the last word stays the last word. -/
theorem map_lastUnder [DecidableEq K] (hkey : ∀ a b, key a = key b → a = b)
    {entries : List (Tree × Tree)} {pairs : List (K × V)}
    (h : entries.mapM (readEntry key value) = some pairs) (text : String) :
    (lastUnder text entries).map value = (OrderedMap.lastValue (key text) pairs).map some := by
  -- the pairs keep step with the entries, so both searches stop at the same place
  induction entries generalizing pairs with
  | nil => cases h; rfl
  | cons e rest ih =>
    obtain ⟨p, pairs, hp, hrest, rfl⟩ := mapM_cons_eq_some_iff.1 h
    obtain ⟨own, hown, hk, hx⟩ := readEntry_eq_some_iff.1 hp
    have hsame : key own = key text ↔ own = text := ⟨hkey own text, congrArg key⟩
    rw [lastUnder_cons, OrderedMap.lastValue, Option.map_or, Option.map_or, ih hrest]
    by_cases htext : own = text <;> simp [hown, hk, hsame, htext, hx]

/-- **No keys are merged.**  Where different texts are different keys, a map holds under a key what
was written last under its text. -/
theorem get?_of_asMap?_fields [DecidableEq K] (hkey : ∀ a b, key a = key b → a = b)
    {entries : List (Tree × Tree)} {m : OrderedMap K V}
    (h : (fields entries).asMap? key value = some m) (text : String) :
    m.get? (key text) = (lastUnder text entries).bind value := by
  rw [asMap?_fields] at h
  obtain ⟨pairs, hpairs, rfl⟩ := Option.map_eq_some_iff.1 h
  have hlast := map_lastUnder hkey hpairs text
  rw [OrderedMap.get?_ofList]
  cases hunder : lastUnder text entries with
  | none =>
    rw [hunder, Option.map_none] at hlast
    exact Option.map_eq_none_iff.1 hlast.symm
  | some t =>
    rw [hunder, Option.map_some] at hlast
    obtain ⟨x, hx, heq⟩ := Option.map_eq_some_iff.1 hlast.symm
    rw [hx, Option.bind_some, heq]

end Maps

end Tree

/-! ## Documents -/

section Names

variable {sort sort' : NameSort}

@[simp] theorem Name.ofTree?_toTree (n : Name sort) : Name.ofTree? n.toTree = some n := rfl

@[simp] theorem namesOfTree?_namesToTree (names : List (Name sort)) :
    namesOfTree? (namesToTree names) = some names :=
  Tree.asList?_ofList Name.ofTree?_toTree names

@[simp] theorem nameListsOfTree?_nameListsToTree
    (m : OrderedMap (Name sort) (List (Name sort'))) :
    nameListsOfTree? (nameListsToTree m) = some m :=
  Tree.asMap?_ofMap (fun _ => rfl) namesOfTree?_namesToTree m

end Names

@[simp] theorem Resources.ofTree?_toTree (resources : Resources) :
    Resources.ofTree? resources.toTree = some resources :=
  Tree.asMap?_ofMap Kind.ofText_text nameListsOfTree?_nameListsToTree resources

@[simp] theorem Permissions.ofTree?_toTree (p : Permissions) :
    Permissions.ofTree? p.toTree = some p := by
  rw [ofTree?, toTree, Tree.asMap?_ofMap Kind.ofText_text nameListsOfTree?_nameListsToTree]
  rfl

@[simp] theorem AppUsage.ofTree?_toTree (usage : AppUsage) :
    AppUsage.ofTree? usage.toTree = some usage :=
  Tree.asMap?_ofMap Kind.ofText_text nameListsOfTree?_nameListsToTree usage

@[simp] theorem Usage.ofTree?_toTree (usage : Usage) :
    Usage.ofTree? usage.toTree = some usage :=
  Tree.asMap?_ofMap (fun _ => rfl) AppUsage.ofTree?_toTree usage

theorem UsageDocument.ofTree?_toTree (d : UsageDocument) :
    UsageDocument.ofTree? d.toTree = some d := by
  show (do return {
    resources := ← Resources.ofTree? d.resources.toTree
    permissions := ← Permissions.ofTree? d.permissions.toTree
    usage := ← Usage.ofTree? d.usage.toTree }) = some d
  simp

/-! ## Kinds -/

theorem Kind.ofText_inj {a b : String} (h : ofText a = ofText b) : a = b := by
  rw [← text_ofText a, h, text_ofText]

end GrantCompiler
