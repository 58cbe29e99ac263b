import GrantCompiler.Proofs.Document.RoundTrip
import Mathlib.Data.List.Find
import Mathlib.Data.List.Nodup

/-!
# The sections of the document on usage

A document is read if all its keys are texts and no two of them open the same section
(`Sections.ofEntries?_eq_some_iff`), and then it means what its sections hold.  So there are many
ways to write one document, and `Restyled` has them: a section's key may be spelled either way, the
entries may stand in any order, keys without meaning may be added, and a section without content
may be left out.  `Restyled.ofTree?_eq` says that none of it matters.

`UsageDocument.survives_writing` puts this together with what is known about written documents.
-/

set_option autoImplicit false

namespace GrantCompiler

/-! ## Keys -/

namespace Section

/-- The texts that a section may stand under. -/
def spellings (s : Section) : List String := [s.key, s.capitalKey]

theorem ofKey?_eq_some_iff {text : String} {s : Section} :
    ofKey? text = some s ↔ text ∈ s.spellings := by
  refine ⟨fun h => ?_, fun h => ?_⟩
  · simpa [spellings] using List.find?_some h
  · simp only [spellings, List.mem_cons, List.not_mem_nil, or_false] at h
    cases s <;> rcases h with rfl | rfl <;> rfl

theorem ofKey?_eq_none_iff {text : String} :
    ofKey? text = none ↔ ∀ s : Section, text ∉ s.spellings := by
  simp only [Option.eq_none_iff_forall_ne_some, ne_eq, ofKey?_eq_some_iff]

/-- The section that an entry of a document opens. -/
def opened? (e : Tree × Tree) : Option Section := e.1.asText?.bind ofKey?

end Section

/-! ## What a document gives -/

namespace Sections

/-- The entries that open a section. -/
def given (entries : List (Tree × Tree)) : Sections :=
  entries.filterMap fun e => (Section.opened? e).map (·, e.2)

/-- The keys are texts, and no section is opened twice. -/
structure Readable (entries : List (Tree × Tree)) : Prop where
  texts : ∀ e ∈ entries, ∃ text, e.1.asText? = some text
  once : (entries.filterMap Section.opened?).Nodup

theorem readable_nil : Readable [] := ⟨by simp, by simp⟩

theorem readable_cons_iff {e : Tree × Tree} {rest : List (Tree × Tree)} :
    Readable (e :: rest) ↔ (∃ text, e.1.asText? = some text) ∧ Readable rest ∧
      ∀ s, Section.opened? e = some s → s ∉ rest.filterMap Section.opened? := by
  have honce : ((e :: rest).filterMap Section.opened?).Nodup ↔
      (∀ s, Section.opened? e = some s → s ∉ rest.filterMap Section.opened?) ∧
        (rest.filterMap Section.opened?).Nodup := by
    rw [List.filterMap_cons]
    cases Section.opened? e <;> simp
  refine ⟨fun h => ?_, ?_⟩
  · obtain ⟨htext, htexts⟩ := List.forall_mem_cons.1 h.texts
    obtain ⟨hfirst, hrest⟩ := honce.1 h.once
    exact ⟨htext, ⟨htexts, hrest⟩, hfirst⟩
  · rintro ⟨htext, hrest, hfirst⟩
    exact ⟨List.forall_mem_cons.2 ⟨htext, hrest.texts⟩, honce.2 ⟨hfirst, hrest.once⟩⟩

theorem given_cons_of_eq_none {e : Tree × Tree} (h : Section.opened? e = none)
    (rest : List (Tree × Tree)) : given (e :: rest) = given rest := by
  rw [given, List.filterMap_cons, h]
  rfl

theorem given_cons_of_eq_some {e : Tree × Tree} {s : Section} (h : Section.opened? e = some s)
    (rest : List (Tree × Tree)) : given (e :: rest) = (s, e.2) :: given rest := by
  rw [given, List.filterMap_cons, h]
  rfl

theorem map_fst_given (entries : List (Tree × Tree)) :
    (given entries).map Prod.fst = entries.filterMap Section.opened? := by
  rw [given, List.map_filterMap]
  simp [Option.map_map, Function.comp_def]

theorem isSome_get?_given_iff {entries : List (Tree × Tree)} {s : Section} :
    ((given entries).get? s).isSome = true ↔ s ∈ entries.filterMap Section.opened? := by
  rw [← map_fst_given]
  simp [get?]

/-- A document is read exactly if it is readable, and then for the sections it gives. -/
theorem ofEntries?_eq_some_iff {entries : List (Tree × Tree)} {sections : Sections} :
    ofEntries? entries = some sections ↔ Readable entries ∧ given entries = sections := by
  induction entries generalizing sections with
  | nil => simp [ofEntries?, readable_nil, given]
  | cons e rest ih =>
    obtain ⟨k, v⟩ := e
    rw [readable_cons_iff]
    cases hk : k.asText? with
    | none => simp [ofEntries?, hk]
    | some text =>
      cases hkey : Section.ofKey? text with
      | none =>
        -- a key without meaning is passed over, whatever stands under it
        have hopened : Section.opened? (k, v) = none := by simp [Section.opened?, hk, hkey]
        simp [ofEntries?, hk, hkey, hopened, given_cons_of_eq_none hopened, ih]
      | some s =>
        have hopened : Section.opened? (k, v) = some s := by simp [Section.opened?, hk, hkey]
        simp only [ofEntries?, hk, hkey, given_cons_of_eq_some hopened, Option.bind_eq_bind,
          Option.bind_some, Option.bind_eq_some_iff, ih, hopened, Option.some.injEq, exists_eq',
          true_and]
        -- the reader refuses what the rest opens already, which is the rest of `Readable`
        refine ⟨?_, ?_⟩
        · rintro ⟨_, ⟨hrest, rfl⟩, h⟩
          split at h
          · cases h
          next hnew =>
            cases h
            rw [isSome_get?_given_iff] at hnew
            exact ⟨⟨hrest, fun _ hs => hs ▸ hnew⟩, rfl⟩
        · rintro ⟨⟨hrest, hfirst⟩, rfl⟩
          refine ⟨given rest, ⟨hrest, rfl⟩, ?_⟩
          rw [if_neg fun hopen => hfirst s rfl (isSome_get?_given_iff.1 hopen)]
          rfl

theorem ofEntries?_eq_none {entries : List (Tree × Tree)} (h : ¬ Readable entries) :
    ofEntries? entries = none := by
  refine Option.eq_none_iff_forall_ne_some.2 fun sections hsections => ?_
  exact h (ofEntries?_eq_some_iff.1 hsections).1

/-- What is written in a section; a missing section has no content. -/
def content? (sections : Sections) (s : Section) : Option (List (Tree × Tree)) :=
  ((sections.get? s).getD .blank).asEntries?

theorem content?_cons_self (s : Section) (v : Tree) (sections : Sections) :
    content? ((s, v) :: sections) s = v.asEntries? := by
  simp [content?, get?]

theorem content?_cons_of_ne {s s' : Section} (h : s ≠ s') (v : Tree) (sections : Sections) :
    content? ((s, v) :: sections) s' = sections.content? s' := by
  simp [content?, get?, h]

theorem content?_of_not_mem {s : Section} {sections : Sections}
    (h : s ∉ sections.map Prod.fst) : sections.content? s = some [] := by
  have hnone : sections.get? s = none := by
    rw [← Option.not_isSome_iff_eq_none]
    simpa [get?] using h
  rw [content?, hnone]
  rfl

/-- Where no section is opened twice, their order does not matter. -/
theorem get?_perm {sections sections' : Sections} (h : sections.Perm sections')
    (honce : (sections.map Prod.fst).Nodup) (s : Section) : sections.get? s = sections'.get? s := by
  rw [get?, get?, List.find?_eq_find?_of_perm h]
  rintro p ⟨hp, hps⟩ q ⟨hq, hqs⟩
  have hkey : p.1 = q.1 := (beq_iff_eq.1 hps).trans (beq_iff_eq.1 hqs).symm
  exact List.inj_on_of_nodup_map honce hp hq hkey

end Sections

/-! ## Two ways to write one document -/

namespace UsageDocument

/-- One document is written as another, but for spelling, order, keys without meaning and sections
without content. -/
inductive Restyled : List (Tree × Tree) → List (Tree × Tree) → Prop
  | respelled {s : Section} {key key' : String} (hkey : key ∈ s.spellings)
      (hkey' : key' ∈ s.spellings) (v : Tree) (rest : List (Tree × Tree)) :
      Restyled ((.text key, v) :: rest) ((.text key', v) :: rest)
  | reordered {entries entries' : List (Tree × Tree)} (h : entries.Perm entries') :
      Restyled entries entries'
  | added {key : String} (hkey : ∀ s : Section, key ∉ s.spellings) (v : Tree)
      (rest : List (Tree × Tree)) : Restyled rest ((.text key, v) :: rest)
  /-- Only the section's own entry may be left out: with another one the document is refused. -/
  | omitted {s : Section} {key : String} (hkey : key ∈ s.spellings) {v : Tree}
      (hempty : v.asEntries? = some []) {rest : List (Tree × Tree)}
      (hown : ∀ e ∈ rest, ∀ text ∈ s.spellings, e.1.asText? ≠ some text) :
      Restyled ((.text key, v) :: rest) rest
  | symm {entries entries' : List (Tree × Tree)} (h : Restyled entries entries') :
      Restyled entries' entries
  | trans {entries entries' entries'' : List (Tree × Tree)} (h : Restyled entries entries')
      (h' : Restyled entries' entries'') : Restyled entries entries''

/-- A reader takes both documents or neither, and finds the same in their sections. -/
structure SameContent (entries entries' : List (Tree × Tree)) : Prop where
  readable_iff : Sections.Readable entries ↔ Sections.Readable entries'
  content?_eq : Sections.Readable entries → ∀ s,
    (Sections.given entries).content? s = (Sections.given entries').content? s

namespace SameContent

variable {entries entries' entries'' : List (Tree × Tree)}

theorem symm (h : SameContent entries entries') : SameContent entries' entries where
  readable_iff := h.readable_iff.symm
  content?_eq hread s := (h.content?_eq (h.readable_iff.2 hread) s).symm

theorem trans (h : SameContent entries entries') (h' : SameContent entries' entries'') :
    SameContent entries entries'' where
  readable_iff := h.readable_iff.trans h'.readable_iff
  content?_eq hread s :=
    (h.content?_eq hread s).trans (h'.content?_eq (h.readable_iff.1 hread) s)

theorem of_perm (h : entries.Perm entries') : SameContent entries entries' where
  readable_iff := by
    have honce := (h.filterMap Section.opened?).nodup_iff
    refine ⟨fun hread => ⟨fun e he => hread.texts e (h.mem_iff.2 he), honce.1 hread.once⟩,
      fun hread => ⟨fun e he => hread.texts e (h.mem_iff.1 he), honce.2 hread.once⟩⟩
  content?_eq hread s := by
    have honce : ((Sections.given entries).map Prod.fst).Nodup := by
      rw [Sections.map_fst_given]
      exact hread.once
    have hgiven : (Sections.given entries).Perm (Sections.given entries') := h.filterMap _
    rw [Sections.content?, Sections.get?_perm hgiven honce s, Sections.content?]

/-- The first entry matters for the section that it opens, whatever its key is. -/
theorem of_opened?_eq {k k' : Tree} {v : Tree} (hk : ∃ text, k.asText? = some text)
    (hk' : ∃ text, k'.asText? = some text)
    (h : Section.opened? (k, v) = Section.opened? (k', v)) (rest : List (Tree × Tree)) :
    SameContent ((k, v) :: rest) ((k', v) :: rest) where
  readable_iff := by
    simp only [Sections.readable_cons_iff, hk, hk', h, true_and]
  content?_eq _ s := by
    have hgiven : Sections.given ((k, v) :: rest) = Sections.given ((k', v) :: rest) := by
      rw [Sections.given, Sections.given, List.filterMap_cons, List.filterMap_cons, h]
    rw [hgiven]

theorem of_added {key : String} (hkey : ∀ s : Section, key ∉ s.spellings) (v : Tree)
    (rest : List (Tree × Tree)) : SameContent rest ((.text key, v) :: rest) := by
  have hopened : Section.opened? (.text key, v) = none := Section.ofKey?_eq_none_iff.2 hkey
  refine ⟨?_, fun _ s => by rw [Sections.given_cons_of_eq_none hopened]⟩
  rw [Sections.readable_cons_iff, hopened]
  exact ⟨fun hread => ⟨⟨key, rfl⟩, hread, by simp⟩, fun hread => hread.2.1⟩

theorem of_omitted {s : Section} {key : String} (hkey : key ∈ s.spellings) {v : Tree}
    (hempty : v.asEntries? = some []) {rest : List (Tree × Tree)}
    (hown : ∀ e ∈ rest, ∀ text ∈ s.spellings, e.1.asText? ≠ some text) :
    SameContent ((.text key, v) :: rest) rest := by
  have hopened : Section.opened? (.text key, v) = some s := Section.ofKey?_eq_some_iff.2 hkey
  have hmissing : s ∉ rest.filterMap Section.opened? := by
    intro hs
    obtain ⟨e, he, hes⟩ := List.mem_filterMap.1 hs
    obtain ⟨text, htext, hopen⟩ := Option.bind_eq_some_iff.1 hes
    exact hown e he text (Section.ofKey?_eq_some_iff.1 hopen) htext
  refine ⟨?_, fun _ s' => ?_⟩
  · rw [Sections.readable_cons_iff, hopened]
    exact ⟨fun hread => hread.2.1,
      fun hread => ⟨⟨key, rfl⟩, hread, fun s' hs' => Option.some_inj.1 hs' ▸ hmissing⟩⟩
  · -- a missing section reads like one without content
    rw [Sections.given_cons_of_eq_some hopened]
    by_cases hs : s = s'
    · subst hs
      rw [Sections.content?_cons_self, hempty, Sections.content?_of_not_mem]
      rwa [Sections.map_fst_given]
    · rw [Sections.content?_cons_of_ne hs]

end SameContent

/-- Restyling a document changes neither whether it is read nor what its sections hold. -/
theorem Restyled.sameContent {entries entries' : List (Tree × Tree)}
    (h : Restyled entries entries') : SameContent entries entries' := by
  induction h with
  | respelled hkey hkey' v rest =>
    refine .of_opened?_eq ⟨_, rfl⟩ ⟨_, rfl⟩ ?_ rest
    exact (Section.ofKey?_eq_some_iff.2 hkey).trans (Section.ofKey?_eq_some_iff.2 hkey').symm
  | reordered h => exact .of_perm h
  | added hkey v rest => exact .of_added hkey v rest
  | omitted hkey hempty hown => exact .of_omitted hkey hempty hown
  | symm _ ih => exact ih.symm
  | trans _ _ ih ih' => exact ih.trans ih'

/-! ## Reading a document -/

/-- The document that has the given sections. -/
def ofSections? (sections : Sections) : Option UsageDocument := do
  return {
    resources := ← sections.read .resources Resources.ofTree?
    permissions := ← sections.read .permissions Permissions.ofTree?
    usage := ← sections.read .usage Usage.ofTree? }

theorem ofTree?_fields (entries : List (Tree × Tree)) :
    ofTree? (.fields entries) = (Sections.ofEntries? entries).bind ofSections? := rfl

theorem ofSections?_congr {sections sections' : Sections}
    (h : ∀ s, sections.content? s = sections'.content? s) :
    ofSections? sections = ofSections? sections' := by
  have hresources : sections.read .resources Resources.ofTree? =
      sections'.read .resources Resources.ofTree? := Tree.asMap?_congr (h .resources)
  have hpermissions : sections.read .permissions Permissions.ofTree? =
      sections'.read .permissions Permissions.ofTree? :=
    congrArg (Option.map Permissions.mk) (Tree.asMap?_congr (h .permissions))
  have husage : sections.read .usage Usage.ofTree? = sections'.read .usage Usage.ofTree? :=
    Tree.asMap?_congr (h .usage)
  rw [ofSections?, hresources, hpermissions, husage, ofSections?]

theorem Restyled.ofTree?_eq {entries entries' : List (Tree × Tree)}
    (h : Restyled entries entries') : ofTree? (.fields entries) = ofTree? (.fields entries') := by
  have hsame := h.sameContent
  rw [ofTree?_fields, ofTree?_fields]
  by_cases hread : Sections.Readable entries
  · rw [Sections.ofEntries?_eq_some_iff.2 ⟨hread, rfl⟩,
      Sections.ofEntries?_eq_some_iff.2 ⟨hsame.readable_iff.1 hread, rfl⟩]
    exact ofSections?_congr (hsame.content?_eq hread)
  · rw [Sections.ofEntries?_eq_none hread,
      Sections.ofEntries?_eq_none fun hread' => hread (hsame.readable_iff.2 hread')]

/-- Two spellings of one section are two openings of it. -/
theorem not_readable_of_spelled_twice {entries : List (Tree × Tree)} {s : Section} {v v' : Tree}
    (h : (.text s.key, v) ∈ entries) (h' : (.text s.capitalKey, v') ∈ entries) :
    ¬ Sections.Readable entries := by
  intro hread
  obtain ⟨before, after, rfl⟩ := List.append_of_mem h
  have hother : (.text s.capitalKey, v') ∈ before ++ after := by
    have hne : (Tree.text s.capitalKey, v') ≠ (.text s.key, v) := by
      cases s <;> simp [Section.key, Section.capitalKey]
    simpa [hne] using h'
  have hfirst := (SameContent.of_perm List.perm_middle).readable_iff.1 hread
  refine (Sections.readable_cons_iff.1 hfirst).2.2 s ?_ (List.mem_filterMap.2 ⟨_, hother, ?_⟩)
  · exact Section.ofKey?_eq_some_iff.2 (by simp [Section.spellings])
  · exact Section.ofKey?_eq_some_iff.2 (by simp [Section.spellings])

theorem ofTree?_of_spelled_twice {entries : List (Tree × Tree)} {s : Section} {v v' : Tree}
    (h : (.text s.key, v) ∈ entries) (h' : (.text s.capitalKey, v') ∈ entries) :
    ofTree? (.fields entries) = none := by
  rw [ofTree?_fields, Sections.ofEntries?_eq_none (not_readable_of_spelled_twice h h')]
  rfl

/-- A map by kinds holds what was written, kind by kind: under each the last tree that stands under
the kind's own text. -/
def KeepsKinds {V : Type} (entries : List (Tree × Tree)) (value : Tree → Option V)
    (m : OrderedMap Kind V) : Prop :=
  ∀ text : String, m.get? (Kind.ofText text) = (Tree.lastUnder text entries).bind value

/-- **A document survives writing, and restyling.**  Each value, the document's and those of its
sections, is read back from the tree it is written as.  Different texts are different kinds, and no
section merges what stands under two of them.  A document means the same however it is restyled, but
written with both spellings of a section it is refused. -/
theorem survives_writing :
    ((∀ d : UsageDocument, ofTree? d.toTree = some d) ∧
      (∀ resources : Resources, Resources.ofTree? resources.toTree = some resources) ∧
      (∀ p : Permissions, Permissions.ofTree? p.toTree = some p) ∧
      ∀ usage : Usage, Usage.ofTree? usage.toTree = some usage) ∧
    (∀ a b : String, a ≠ b → Kind.ofText a ≠ Kind.ofText b) ∧
    (∀ entries : List (Tree × Tree),
      (∀ resources, Resources.ofTree? (.fields entries) = some resources →
        KeepsKinds entries nameListsOfTree? resources) ∧
      (∀ p, Permissions.ofTree? (.fields entries) = some p →
        KeepsKinds entries nameListsOfTree? p.kinds) ∧
      ∀ usage, AppUsage.ofTree? (.fields entries) = some usage →
        KeepsKinds entries nameListsOfTree? usage) ∧
    (∀ entries entries' : List (Tree × Tree), Restyled entries entries' →
      ofTree? (.fields entries) = ofTree? (.fields entries')) ∧
    ∀ (entries : List (Tree × Tree)) (s : Section) (v v' : Tree),
      (.text s.key, v) ∈ entries → (.text s.capitalKey, v') ∈ entries →
        ofTree? (.fields entries) = none := by
  refine ⟨⟨ofTree?_toTree, Resources.ofTree?_toTree, Permissions.ofTree?_toTree,
    Usage.ofTree?_toTree⟩, fun a b hne h => hne (Kind.ofText_inj h), fun entries => ?_,
    fun _ _ h => h.ofTree?_eq, fun _ _ _ _ h h' => ofTree?_of_spelled_twice h h'⟩
  have hkept : ∀ {V : Type} {value : Tree → Option V} {m : OrderedMap Kind V},
      (Tree.fields entries).asMap? Kind.ofText value = some m → KeepsKinds entries value m :=
    fun h => Tree.get?_of_asMap?_fields (fun _ _ => Kind.ofText_inj) h
  refine ⟨fun _ h => hkept h, fun p h => ?_, fun _ h => hkept h⟩
  obtain ⟨kinds, hkinds, rfl⟩ := Option.map_eq_some_iff.1 h
  exact hkept hkinds

/-! ### A document in two styles -/

namespace TwoStyles

/-- A kind of resource with content, and one without. -/
def declared : List (Tree × Tree) :=
  [(.text "queues", .fields [(.text "own1", .list [.text "events"])]),
    (.text "queues.topics", .fields [])]

/-- An application for whose operation nothing is listed. -/
def used : Tree :=
  .fields [(.text "billing", .fields [(.text "queues", .fields [(.text "send", .blank)])])]

/-- All three sections, in their order. -/
def plain : List (Tree × Tree) :=
  [(.text "resources", .fields declared), (.text "permissions", .fields []), (.text "usage", used)]

/-- The permissions are left out, a key without meaning is added, and the rest is turned around. -/
def styled : List (Tree × Tree) :=
  [(.text "Usage", used), (.text "comment", .list []), (.text "resources", .fields declared)]

theorem restyled : Restyled plain styled := by
  have hnoted : ∀ s : Section, "comment" ∉ s.spellings := by rintro (_ | _ | _) <;> decide
  have hown : ∀ e ∈ [(Tree.text "resources", Tree.fields declared), (.text "usage", used)],
      ∀ text ∈ Section.permissions.spellings, e.1.asText? ≠ some text := by
    decide
  exact (Restyled.reordered (.swap ..)).trans <|
    (Restyled.omitted (s := .permissions) (by decide) rfl hown).trans <|
    (Restyled.reordered (.swap ..)).trans <|
    (Restyled.respelled (s := .usage) (by decide) (by decide) _ _).trans <|
    (Restyled.added hnoted (.list []) _).trans <|
    Restyled.reordered (.swap ..)

theorem read_alike :
    (ofTree? (.fields plain)).isSome = true ∧
    ofTree? (.fields plain) = ofTree? (.fields styled) ∧
    ofTree? (.fields ((.text "Resources", .blank) :: plain)) = none ∧
    Kind.ofText "queues" ≠ Kind.ofText "queues.topics" ∧
    ∃ resources, Resources.ofTree? (.fields declared) = some resources ∧
      KeepsKinds declared nameListsOfTree? resources := by
  obtain ⟨-, hapart, hkept, hstyle, htwice⟩ := survives_writing
  obtain ⟨resources, hresources⟩ := Option.isSome_iff_exists.1
    (show (Resources.ofTree? (.fields declared)).isSome = true by decide +kernel)
  exact ⟨by decide +kernel, hstyle plain styled restyled,
    htwice _ .resources (.fields declared) .blank (by simp [plain, Section.key])
      (by simp [Section.capitalKey]),
    hapart _ _ (by decide), resources, hresources, (hkept declared).1 resources hresources⟩

end TwoStyles

end UsageDocument

end GrantCompiler
