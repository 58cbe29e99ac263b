import GrantCompiler.Proofs.Locator.Precedence

/-!
# Locators files

Reading a locators file goes through its entries in the order of their keys and binds them one by
one, and it can stop at any of them.  Seen from outside there is no such thing as a file that was
read in part: either every value is a text and the whole table lies over what was bound before, or
the first value that is none is reported and the builder is as it was.

* `Builder.bindTable_eq_foldlM` — the table as a whole and its entries one by one come to the same.
* `Builder.bindTable_eq_error` — the key that is reported is the least one with another value; what
  was bound on the way to it is lost with the run.
* `Builder.file_all_or_nothing` — both outcomes of the step, and that nothing later can tell a
  refused file from none.
-/

set_option autoImplicit false

namespace GrantCompiler

/-! ## Tables -/

namespace Toml.Table

/-- Every value at the top is a text. -/
def Plain (table : Table) : Prop :=
  ∀ key value, table.get? key = some value → ∃ content, value.text? = some content

/-- The least key, by code point, with a value that is no text. -/
structure LeastOther (table : Table) (key : String) : Prop where
  other : ∃ value, table.get? key = some value ∧ value.text? = none
  least : ∀ key' value, table.get? key' = some value → value.text? = none → key ≤ key'

theorem LeastOther.not_plain {table : Table} {key : String} (h : table.LeastOther key) :
    ¬ table.Plain := by
  intro hplain
  obtain ⟨value, hvalue, hnone⟩ := h.other
  obtain ⟨content, hcontent⟩ := hplain key value hvalue
  rw [hnone] at hcontent
  cases hcontent

theorem LeastOther.eq {table : Table} {key key' : String} (h : table.LeastOther key)
    (h' : table.LeastOther key') : key = key' := by
  obtain ⟨value, hvalue, hnone⟩ := h.other
  obtain ⟨value', hvalue', hnone'⟩ := h'.other
  exact String.le_antisymm (h.least key' value' hvalue' hnone') (h'.least key value hvalue hnone)

/-- The first entry that is no text is the one with the least key. -/
theorem leastOther_of_split {table : Table} {before after : List (String × Value)} {key : String}
    {value : Value} (hsplit : table.toList = before ++ (key, value) :: after)
    (hbefore : ∀ e ∈ before, ∃ content, e.2.text? = some content) (hvalue : value.text? = none) :
    table.LeastOther key where
  other := by
    refine ⟨value, OrderedMap.mem_toList.1 ?_, hvalue⟩
    rw [hsplit]
    exact List.mem_append_right _ List.mem_cons_self
  least key' value' hget hnone := by
    have hmem : (key', value') ∈ before ++ (key, value) :: after :=
      hsplit ▸ OrderedMap.mem_toList.2 hget
    have hascending := table.ascending
    rw [hsplit, List.pairwise_append, List.pairwise_cons] at hascending
    -- what stands before the split is a text, and what stands after it has a greater key
    rcases List.mem_append.1 hmem with hmem | hmem
    · obtain ⟨content, hcontent⟩ := hbefore _ hmem
      rw [hnone] at hcontent
      cases hcontent
    · rcases List.mem_cons.1 hmem with heq | hmem
      · cases heq
        exact String.le_refl key
      · have hlt : key < key' := compareOfLessAndEq_eq_lt.1 (hascending.2.1.1 _ hmem)
        exact String.not_lt.1 (String.lt_asymm hlt)

end Toml.Table

namespace Locator
namespace Builder

variable {b b' : Builder} {path : String} {table : Toml.Table}

/-! ## Entry by entry -/

/-- Binds one entry of a locators file. -/
def bindEntry (path : String) (b : Builder) (e : String × Toml.Value) : Except Failure Builder :=
  match e.2.text? with
  | some content => .ok (b.bind e.1 content)
  | none => .error (.notText e.1 path)

theorem bindEntry_eq_ok {e : String × Toml.Value} (h : bindEntry path b e = .ok b') :
    ∃ content, e.2.text? = some content := by
  rw [bindEntry] at h
  split at h
  next content hcontent => exact ⟨content, hcontent⟩
  next => cases h

theorem bindEntry_eq_error {e : String × Toml.Value} {f : Failure}
    (h : bindEntry path b e = .error f) : e.2.text? = none ∧ f = .notText e.1 path := by
  rw [bindEntry] at h
  split at h
  next => cases h
  next hnone => cases h; exact ⟨hnone, rfl⟩

/-- Where all entries are bound, all of them are texts. -/
theorem text?_of_foldlM {entries : List (String × Toml.Value)}
    (h : entries.foldlM (bindEntry path) b = .ok b') :
    ∀ e ∈ entries, ∃ content, e.2.text? = some content := by
  induction entries generalizing b with
  | nil => exact fun e he => absurd he List.not_mem_nil
  | cons e rest ih =>
    obtain ⟨t, he, hrest⟩ := foldlM_cons_eq_ok_iff.1 h
    exact List.forall_mem_cons.2 ⟨bindEntry_eq_ok he, ih hrest⟩

/-- The table at once, and its entries one by one. -/
theorem bindTable_eq_foldlM (b : Builder) (path : String) (table : Toml.Table) :
    b.bindTable path table = table.toList.foldlM (bindEntry path) b := by
  rw [bindTable, textsOf]
  generalize table.toList = entries
  induction entries generalizing b with
  | nil => rfl
  | cons e rest ih =>
    obtain ⟨key, value⟩ := e
    rw [List.mapM_cons, List.foldlM_cons]
    cases value with
    | text content =>
      -- the rest is read before anything is bound, but it is bound in the same order
      show _ = rest.foldlM (bindEntry path) (b.bind key content)
      rw [← ih (b.bind key content)]
      cases List.mapM (m := Except Failure) _ rest <;> rfl
    | scalar | list | table => rfl

/-! ## The table as a whole -/

theorem plain_of_bindTable (h : b.bindTable path table = .ok b') : table.Plain := by
  intro key value hget
  rw [bindTable_eq_foldlM] at h
  exact text?_of_foldlM h (key, value) (OrderedMap.mem_toList.2 hget)

/-- A table is refused over its least key with another value. -/
theorem bindTable_eq_error {f : Failure} (h : b.bindTable path table = .error f) :
    ∃ key, table.LeastOther key ∧ f = .notText key path := by
  rw [bindTable_eq_foldlM] at h
  obtain ⟨before, ⟨key, value⟩, after, t, hsplit, hbefore, hentry⟩ := foldlM_eq_error_iff.1 h
  obtain ⟨hvalue, rfl⟩ := bindEntry_eq_error hentry
  exact ⟨key, Toml.Table.leastOther_of_split hsplit (text?_of_foldlM hbefore) hvalue, rfl⟩

theorem exists_bindTable_iff : (∃ b', b.bindTable path table = .ok b') ↔ table.Plain := by
  refine ⟨fun ⟨b', h⟩ => plain_of_bindTable h, fun hplain => ?_⟩
  cases h : b.bindTable path table with
  | ok b' => exact ⟨b', rfl⟩
  | error f =>
    obtain ⟨key, hleast, -⟩ := bindTable_eq_error h
    exact absurd hplain hleast.not_plain

/-- Everything in a table lies over what was bound before, and nothing else is changed. -/
structure Overlaid (b : Builder) (table : Toml.Table) (b' : Builder) : Prop where
  provider : b'.provider = b.provider
  region : b'.region = b.region
  stage : b'.stage = b.stage
  get?_bindings : ∀ key, b'.bindings.get? key =
    ((table.get? key).bind Toml.Value.text?).or (b.bindings.get? key)

theorem overlaid_of_bindTable (h : b.bindTable path table = .ok b') : b.Overlaid table b' := by
  obtain ⟨pairs, hpairs, h⟩ := bind_eq_ok_iff.1 h
  cases h
  rw [textsOf_eq_ok hpairs]
  have hcoordinate := b.coordinate_bindAll (texts table)
  refine ⟨hcoordinate .provider, hcoordinate .region, hcoordinate .stage, fun key => ?_⟩
  rw [bindings_bindAll, OrderedMap.get?_insertAll, lastValue_texts]

/-! ## The step -/

theorem apply_file {text : String} (hparse : Toml.parse? text = some table) (b : Builder)
    (path : String) : b.apply (.file path (.ok text)) = b.bindTable path table := by
  rw [apply, hparse]

/-- The builder to go on with: after a step that fails it is the former one. -/
def after (b : Builder) (step : Step) : Builder := (b.apply step).toOption.getD b

theorem after_of_error {step : Step} {f : Failure} (h : b.apply step = .error f) :
    b.after step = b := by
  rw [after, h]
  rfl

/-- **A locators file is applied entirely or not at all.**  A file that holds a table is taken if
all values are texts, and then exactly the table lies over the former bindings.  Otherwise the least
key with another value is reported, and whoever goes on with the former builder, by whatever steps,
settles what they would have settled without the file. -/
theorem file_all_or_nothing {text : String} (hparse : Toml.parse? text = some table) (b : Builder)
    (path : String) :
    ((∃ b', b.apply (.file path (.ok text)) = .ok b') ↔ table.Plain) ∧
    (∀ b', b.apply (.file path (.ok text)) = .ok b' → b.Overlaid table b') ∧
    (¬ table.Plain → ∃ key, table.LeastOther key ∧
      b.apply (.file path (.ok text)) = .error (.notText key path) ∧
      ∀ later : List Step,
        ((.file path (.ok text) :: later).foldl after b).build = (later.foldl after b).build) := by
  rw [apply_file hparse]
  refine ⟨exists_bindTable_iff, fun b' h => overlaid_of_bindTable h, fun hplain => ?_⟩
  cases h : b.bindTable path table with
  | ok b' => exact absurd (plain_of_bindTable h) hplain
  | error f =>
    obtain ⟨key, hleast, rfl⟩ := bindTable_eq_error h
    refine ⟨key, hleast, rfl, fun later => ?_⟩
    rw [List.foldl_cons, after_of_error ((apply_file hparse b path).trans h)]

/-! ### A file with two numbers -/

namespace TwoNumbers

/-- In the order of keys a company stands before the first number and a unit after it. -/
def mixed : String := "zone = 3\nunit = \"y\"\ncount = 4\ncompany = \"acme\"\n"

/-- The same without the numbers. -/
def plain : String := "unit = \"y\"\ncompany = \"acme\"\n"

/-- A builder that has a unit already. -/
def former : Builder := initial.bind "unit" "x"

/-- The number that the document names first is not the one that is reported. -/
theorem mixed_refused : ∃ table, Toml.parse? mixed = some table ∧ table.LeastOther "count" := by
  obtain ⟨table, hparse, hcheck⟩ : ∃ table, Toml.parse? mixed = some table ∧
      ((table.get? "count").any (·.text?.isNone) &&
        table.toList.all fun e => e.2.text?.isSome || decide ("count" ≤ e.1)) = true :=
    (Option.any_eq_true ..).1 (by decide +kernel)
  obtain ⟨hother, hleast⟩ := Bool.and_eq_true_iff.1 hcheck
  refine ⟨table, hparse, ?_, fun key value hget hnone => ?_⟩
  · simpa using (Option.any_eq_true ..).1 hother
  · simpa [hnone] using List.all_eq_true.1 hleast _ (OrderedMap.mem_toList.2 hget)

theorem plain_taken : ∃ table, Toml.parse? plain = some table ∧ table.Plain ∧
    (table.get? "unit").bind Toml.Value.text? = some "y" := by
  obtain ⟨table, hparse, hcheck⟩ : ∃ table, Toml.parse? plain = some table ∧
      ((table.toList.all fun e => e.2.text?.isSome) &&
        (table.get? "unit").bind Toml.Value.text? == some "y") = true :=
    (Option.any_eq_true ..).1 (by decide +kernel)
  obtain ⟨htexts, hunit⟩ := Bool.and_eq_true_iff.1 hcheck
  refine ⟨table, hparse, fun key value hget => ?_, eq_of_beq hunit⟩
  have htext := List.all_eq_true.1 htexts _ (OrderedMap.mem_toList.2 hget)
  exact Option.isSome_iff_exists.1 htext

theorem taken_or_refused :
    former.apply (.file "locators.toml" (.ok mixed)) = .error (.notText "count" "locators.toml") ∧
    ((former.after (.file "locators.toml" (.ok mixed))).after (.stage "prod")).build =
      (former.after (.stage "prod")).build ∧
    ∃ b', former.apply (.file "locators.toml" (.ok plain)) = .ok b' ∧
      b'.bindings.get? "unit" = some "y" ∧ b'.stage = "dev" := by
  obtain ⟨mixedTable, hmixed, hcount⟩ := mixed_refused
  obtain ⟨plainTable, hplain, htexts, hunit⟩ := plain_taken
  obtain ⟨-, -, hrefused⟩ := file_all_or_nothing hmixed former "locators.toml"
  obtain ⟨htaken, hoverlaid, -⟩ := file_all_or_nothing hplain former "locators.toml"
  obtain ⟨key, hkey, herror, hlater⟩ := hrefused hcount.not_plain
  obtain rfl : key = "count" := hkey.eq hcount
  obtain ⟨b', hb'⟩ := htaken.2 htexts
  refine ⟨herror, hlater [.stage "prod"], b', hb', ?_, (hoverlaid b' hb').stage⟩
  rw [(hoverlaid b' hb').get?_bindings, hunit, Option.some_or]

end TwoNumbers

end Builder
end Locator
end GrantCompiler
