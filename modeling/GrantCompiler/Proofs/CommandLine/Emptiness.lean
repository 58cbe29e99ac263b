import GrantCompiler.Proofs.CommandLine.Precedence
import GrantCompiler.Proofs.Locator.Binding
import GrantCompiler.Proofs.Naming.Substitution

/-!
# Empty locators

A binding on the command line has something on both sides of its equals sign, the coordinates are
supported ones, and no default is empty.  A locators file is held to none of this: the keys and the
texts in it may be empty, and an empty text is substituted like any other.

* `Settings.get?_eq_some_iff_leaves` — an entry with an empty side is in the finished set exactly if
  the file gives it and nothing is put over it.
* `emptiness_from_file` — so without such an entry in the file no locator is empty, and neither is
  the company or the unit of any name.
* `EmptyUnit.not_every_locator_filled` — with one, a locator is empty.
-/

set_option autoImplicit false

namespace GrantCompiler

open Locator (Binding Builder Coordinate collect unbound?)
open OrderedMap (lastValue lastValue_eq_none_iff mem_of_lastValue_eq_some)

/-! ## What cannot be empty -/

/-- Neither side of a binding that an argument spells is empty. -/
theorem Locator.Binding.ne_empty_of_parse? {argument : String} {b : Binding}
    (h : Binding.parse? argument = some b) : b.key ≠ "" ∧ b.value ≠ "" := by
  have hspells : b.Spells argument := Binding.parse?_eq_some_iff.1 h
  exact ⟨hspells.key_ne_empty, hspells.value_ne_empty⟩

theorem Locator.Coordinate.key_ne_empty (c : Coordinate) : c.key ≠ "" := by
  cases c <;> decide

/-- What is supported is not empty. -/
theorem Locators.ne_empty_of_get?_key {locators : Locators} {c : Coordinate} {value : String}
    (h : locators.get? c.key = some value) : value ≠ "" := by
  obtain ⟨hprovider, hregion, stage, hsupported, hstage⟩ := locators.supported_values
  cases c with
  | provider =>
    rw [Coordinate.key, hprovider] at h
    cases h
    decide
  | region =>
    rw [Coordinate.key, hregion] at h
    cases h
    decide
  | stage =>
    rw [Coordinate.key, hstage] at h
    cases h
    rintro rfl
    exact absurd hsupported (by decide)

theorem Locator.ne_empty_of_unbound? {key value : String} (h : unbound? key = some value) :
    key ≠ "" ∧ value ≠ "" := by
  rw [unbound?] at h
  split at h
  next hkey =>
    cases h
    subst hkey
    decide
  next => cases h

namespace CommandLine
namespace Settings

variable {s : Settings} {read : ReadFile} {locators : Locators} {key value : String}

theorem ne_empty_of_mem_bindings {arguments : List String} {environmentLevel : Option String}
    (hs : parse arguments environmentLevel = .ok s) {b : Binding} (hb : b ∈ s.bindings) :
    b.key ≠ "" ∧ b.value ≠ "" := by
  obtain ⟨uses, huses⟩ := exists_spelled_of_parse hs
  rw [bindings_of_parse hs huses] at hb
  obtain ⟨use, -, huse⟩ := List.mem_filterMap.1 hb
  unfold Use.binding? at huse
  split at huse
  next => exact Binding.ne_empty_of_parse? huse
  next => cases huse

/-! ## Where emptiness comes from -/

/-- What settings bind a key to that is no coordinate: the last binding, or else the file, or else
the default. -/
theorem get?_of_collect (h : collect (s.steps read) = .ok locators)
    (hkey : ∀ c : Coordinate, key ≠ c.key) :
    locators.get? key = ((lastValue key (s.bindings.map fun b => (b.key, b.value))).or
      (s.locatorsFile.bind fun path => inFile? (read path) key)).or (unbound? key) := by
  obtain ⟨b, hrun, hbuild⟩ := Locator.collect_eq_ok_iff.1 h
  rw [(Builder.settles hrun hbuild).get?_of_ne key hkey, s.lastValue_bound_steps read]

/-- The locators file gives a key a text, and nothing is put over it. -/
structure Leaves (s : Settings) (read : ReadFile) (key value : String) : Prop where
  inFile : ∃ path, s.locatorsFile = some path ∧ inFile? (read path) key = some value
  not_coordinate : ∀ c : Coordinate, key ≠ c.key
  not_bound : ∀ b ∈ s.bindings, b.key ≠ key

/-- An entry with an empty side is what the locators file leaves. -/
theorem get?_eq_some_iff_leaves (hbindings : ∀ b ∈ s.bindings, b.key ≠ "" ∧ b.value ≠ "")
    (h : collect (s.steps read) = .ok locators) (hempty : key = "" ∨ value = "") :
    locators.get? key = some value ↔ s.Leaves read key value := by
  constructor
  · intro hget
    have hkey : ∀ c : Coordinate, key ≠ c.key := by
      rintro c rfl
      rcases hempty with hempty | hempty
      · exact c.key_ne_empty hempty
      · exact Locators.ne_empty_of_get?_key hget hempty
    rw [get?_of_collect h hkey, Option.or_eq_some_iff, Option.or_eq_some_iff] at hget
    -- a binding and a default have both sides filled, which leaves the file
    rcases hget with (hbound | ⟨hfree, hfile⟩) | ⟨-, hdefault⟩
    · obtain ⟨b, hb, heq⟩ := List.mem_map.1 (mem_of_lastValue_eq_some hbound)
      cases heq
      exact absurd hempty (not_or.2 (hbindings b hb))
    · refine ⟨by simpa [Option.bind_eq_some_iff] using hfile, hkey, fun b hb => ?_⟩
      exact lastValue_eq_none_iff.1 hfree _ (List.mem_map_of_mem hb)
    · exact absurd hempty (not_or.2 (Locator.ne_empty_of_unbound? hdefault))
  · rintro ⟨⟨path, hpath, hfile⟩, hkey, hfree⟩
    have hnone : lastValue key (s.bindings.map fun b => (b.key, b.value)) = none := by
      refine lastValue_eq_none_iff.2 fun p hp => ?_
      obtain ⟨b, hb, rfl⟩ := List.mem_map.1 hp
      exact hfree b hb
    rw [get?_of_collect h hkey, hnone, hpath, Option.none_or, Option.bind_some, hfile,
      Option.some_or]

end Settings

/-- No locator is empty, and neither is the company or the unit that a name is given. -/
structure Filled (locators : Locators) : Prop where
  ne_empty : ∀ key value, locators.get? key = some value → key ≠ "" ∧ value ≠ ""
  bucket : ∀ site, Template.BucketSite.resolve locators = .ok site → site.company ≠ ""
  project : ∀ site, Template.ProjectSite.resolve locators = .ok site → site.unit ≠ ""
  account : ∀ template site, Template.SharedProject.resolve locators template = .ok site →
    site.unit ≠ ""

theorem filled_of_ne_empty {locators : Locators}
    (h : ∀ key value, locators.get? key = some value → key ≠ "" ∧ value ≠ "") :
    Filled locators := by
  have hvalue : ∀ key, (locators.get? key).isSome → locators.value key ≠ "" := by
    intro key hkey
    obtain ⟨value, hvalue⟩ := Option.isSome_iff_exists.1 hkey
    rw [Locators.value, hvalue]
    exact (h key value hvalue).2
  refine ⟨h, fun site hsite => ?_, fun site hsite => ?_, fun template site hsite => ?_⟩
  · rw [Template.BucketSite.resolve_eq] at hsite
    cases hsite
    exact hvalue _ locators.company_bound
  · rw [Template.ProjectSite.resolve_eq] at hsite
    split at hsite
    next hunit => cases hsite; exact hvalue _ hunit
    next => cases hsite
  · rw [Template.SharedProject.resolve_eq] at hsite
    split at hsite
    next hunit => cases hsite; exact hvalue _ hunit
    next => cases hsite

/-- **Only a locators file makes a locator empty.**  With accepted arguments the entries of the
finished set of which one side is empty are those that the locators file leaves there; if it leaves
none, no locator is empty, and no bucket, project or account is named after an empty company or
unit. -/
theorem emptiness_from_file {arguments : List String} {environmentLevel : Option String}
    {s : Settings} {read : ReadFile} {locators : Locators}
    (hs : Settings.parse arguments environmentLevel = .ok s)
    (h : collect (s.steps read) = .ok locators) :
    (∀ key value, key = "" ∨ value = "" →
      (locators.get? key = some value ↔ s.Leaves read key value)) ∧
    ((∀ key value, s.Leaves read key value → key ≠ "" ∧ value ≠ "") → Filled locators) := by
  have hleaves : ∀ key value, key = "" ∨ value = "" →
      (locators.get? key = some value ↔ s.Leaves read key value) := fun key value hempty =>
    Settings.get?_eq_some_iff_leaves (fun b hb => Settings.ne_empty_of_mem_bindings hs hb) h hempty
  refine ⟨hleaves, fun hfile => filled_of_ne_empty fun key value hget => not_or.1 fun hempty => ?_⟩
  have hne := hfile key value ((hleaves key value hempty).1 hget)
  exact not_or.2 hne hempty

/-! ### A file that empties the unit -/

namespace EmptyUnit

/-- The unit is left to the file. -/
def arguments : List String := ["--locators-file", "locators.toml", "-l", "company=acme"]

/-- What the arguments come to. -/
def settings : Settings :=
  ⟨none, none, none, none, [⟨"company", "acme"⟩], some "locators.toml", none, none, none, false,
    false⟩

/-- The company is put right by the binding, the unit is not. -/
def read : ReadFile := fun _ => .ok "unit = \"\"\ncompany = \"\"\n"

theorem accepted : Settings.parse arguments none = .ok settings := rfl

theorem exists_settled : ∃ locators, collect (settings.steps read) = .ok locators ∧
    locators.get? "unit" = some "" ∧
    Template.project "own1" locators.projectSite = "own1-dev-" := by
  have hcheck : ((collect (settings.steps read)).toOption.any fun locators =>
      locators.get? "unit" == some "" &&
        Template.project "own1" locators.projectSite == "own1-dev-") = true := by
    decide +kernel
  obtain ⟨locators, hcollect, hsettled⟩ := exists_of_any_toOption hcheck
  obtain ⟨hunit, hproject⟩ := Bool.and_eq_true_iff.1 hsettled
  exact ⟨locators, hcollect, eq_of_beq hunit, eq_of_beq hproject⟩

theorem unit_left_empty :
    Settings.parse arguments none = .ok settings ∧
    ∃ locators, collect (settings.steps read) = .ok locators ∧
      settings.Leaves read "unit" "" ∧ locators.get? "company" ≠ some "" ∧
      Template.project "own1" locators.projectSite = "own1-dev-" := by
  obtain ⟨locators, hcollect, hunit, hproject⟩ := exists_settled
  obtain ⟨hleaves, -⟩ := emptiness_from_file accepted hcollect
  refine ⟨accepted, locators, hcollect, (hleaves "unit" "" (.inr rfl)).1 hunit, ?_, hproject⟩
  rw [Ne, hleaves "company" "" (.inr rfl)]
  intro hcompany
  exact hcompany.not_bound ⟨"company", "acme"⟩ List.mem_cons_self rfl

/-- Arguments and a locators file that are accepted may well come to an empty locator. -/
theorem not_every_locator_filled :
    ¬ ∀ (arguments : List String) (environmentLevel : Option String) (s : Settings)
      (read : ReadFile) (locators : Locators),
      Settings.parse arguments environmentLevel = .ok s →
      collect (s.steps read) = .ok locators → Filled locators := by
  intro h
  obtain ⟨locators, hcollect, hunit, -⟩ := exists_settled
  have hfilled := h arguments none settings read locators accepted hcollect
  exact (hfilled.ne_empty "unit" "" hunit).2 rfl

end EmptyUnit

end CommandLine
end GrantCompiler
