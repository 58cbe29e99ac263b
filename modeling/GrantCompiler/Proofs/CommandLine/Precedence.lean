import GrantCompiler.CommandLine.Run
import GrantCompiler.Proofs.CommandLine.Uses
import GrantCompiler.Proofs.Locator.Precedence

/-!
# The last word on a locator, from the command line

The settings of a run are turned into steps that collect locators.  The coordinates are set first,
so a locators file cannot touch them; the file comes before the bindings, so a binding overrides
what the file says.  `Gives` is this order of precedence in terms of the uses that the arguments
spell, and `locators_by_precedence` says that all accepted arguments follow it.
-/

set_option autoImplicit false

namespace GrantCompiler

open Locator (Builder Coordinate Refused collect unbound?)
open Locator.Builder (Step Settles bound lastSet)
open OrderedMap (lastValue lastValue_append)

/-- The parameter that sets a coordinate. -/
def Locator.Coordinate.parameter : Coordinate → CommandLine.Parameter
  | .provider => .provider
  | .region => .region
  | .stage => .stage

namespace CommandLine

/-- The text that a locators file gives a key. -/
def inFile? (content : Except FileFailure String) (key : String) : Option String :=
  content.toOption.bind fun text =>
    (Toml.parse? text).bind fun table => (table.get? key).bind Toml.Value.text?

/-- The bindings among uses, in order. -/
def bindingsOf (uses : List Use) : List (String × String) :=
  (uses.filterMap Use.binding?).map fun b => (b.key, b.value)

theorem lastValue_pairs_file (path : String) (content : Except FileFailure String) (key : String) :
    lastValue key (Step.pairs (.file path content)) = inFile? content key := by
  cases content with
  | error cause => rfl
  | ok text =>
    rw [Step.pairs, inFile?]
    show _ = (Toml.parse? text).bind _
    cases Toml.parse? text with
    | none => rfl
    | some table =>
      rw [Option.toList_some, List.flatMap_singleton, Option.bind_some]
      exact Builder.lastValue_texts table key

namespace Settings

variable {s : Settings}

/-- The coordinates are set first, and nothing after that sets one. -/
theorem lastSet_steps (s : Settings) (read : ReadFile) (c : Coordinate) :
    lastSet (s.steps read) c = (s.text? c.parameter).getD c.default := by
  have hbindings : (s.bindings.map fun b => Step.binding b.key b.value).filterMap
      Step.coordinate? = [] := by
    simp [List.filterMap_map, Function.comp_def, Step.coordinate?]
  have hfile : (s.locatorsFile.toList.map fun path => Step.file path (read path)).filterMap
      Step.coordinate? = [] := by
    simp [List.filterMap_map, Function.comp_def, Step.coordinate?]
  rw [lastSet, steps, List.filterMap_append, List.filterMap_append, hbindings, hfile]
  cases c <;> rfl

/-- What is bound comes from the locators file, and then from the bindings. -/
theorem lastValue_bound_steps (s : Settings) (read : ReadFile) (key : String) :
    lastValue key (bound (s.steps read)) =
      (lastValue key (s.bindings.map fun b => (b.key, b.value))).or
        (s.locatorsFile.bind fun path => inFile? (read path) key) := by
  have hbindings : (s.bindings.map fun b => Step.binding b.key b.value).flatMap Step.pairs =
      s.bindings.map fun b => (b.key, b.value) := by
    simp [List.flatMap_map, Step.pairs, ← List.map_eq_flatMap]
  have hfile : lastValue key ((s.locatorsFile.toList.map fun path =>
      Step.file path (read path)).flatMap Step.pairs) =
        s.locatorsFile.bind fun path => inFile? (read path) key := by
    cases s.locatorsFile with
    | none => rfl
    | some path => simpa using lastValue_pairs_file path (read path) key
  rw [bound, steps, List.flatMap_append, List.flatMap_append, lastValue_append, hbindings,
    lastValue_append, hfile]
  exact congrArg _ Option.or_none

end Settings

/-- The order of precedence.  A coordinate has the value of its own option or its default, and any
other key what is bound to it last, or else what the locators file says, or else its default. -/
structure Gives (uses : List Use) (read : ReadFile) (locators : Locators) : Prop where
  get?_key : ∀ c : Coordinate,
    locators.get? c.key = some ((lastGiven c.parameter uses).getD c.default)
  get?_of_ne : ∀ key, (∀ c : Coordinate, key ≠ c.key) →
    locators.get? key = (lastValue key (bindingsOf uses)).or
      (((lastGiven .locatorsFile uses).bind fun path => inFile? (read path) key).or (unbound? key))

theorem gives {arguments : List String} {environmentLevel : Option String} {s : Settings}
    {uses : List Use} {read : ReadFile} {locators : Locators}
    (hs : Settings.parse arguments environmentLevel = .ok s) (huses : Spelled uses arguments)
    (h : collect (s.steps read) = .ok locators) : Gives uses read locators := by
  obtain ⟨b, hrun, hbuild⟩ := Locator.collect_eq_ok_iff.1 h
  have hsettles := Builder.settles hrun hbuild
  constructor
  · intro c
    have htext : s.text? c.parameter = lastGiven c.parameter uses :=
      Settings.text?_of_parse (by cases c <;> nofun) (by cases c <;> nofun) hs huses
    rw [hsettles.get?_key, s.lastSet_steps read, htext]
  · intro key hkey
    have hfile : s.locatorsFile = lastGiven .locatorsFile uses :=
      Settings.text?_of_parse (p := .locatorsFile) nofun nofun hs huses
    rw [hsettles.get?_of_ne key hkey, s.lastValue_bound_steps read,
      Settings.bindings_of_parse hs huses, hfile, Option.or_assoc, bindingsOf]

/-- **Precedence of locators.**  After any run of steps, coordinates that are not supported are
refused, the stage before the provider and that before the region; otherwise each coordinate is as
last set by its own steps and each other key as last bound, and it does not matter how steps on
different coordinates and steps that bind are interleaved.  For accepted arguments this makes a
default give way to the locators file and that to a binding, wherever the options stand. -/
theorem locators_by_precedence :
    (∀ (steps : List Step) (b : Builder), steps.foldlM Builder.apply Builder.initial = .ok b →
      (∀ e, b.build = .error e ↔ Refused (lastSet steps) e) ∧
      (∀ locators, b.build = .ok locators → Settles steps locators) ∧
      ∀ steps', SameStreams Step.channel steps steps' →
        steps'.foldlM Builder.apply Builder.initial = .ok b) ∧
    (∀ (arguments : List String) (environmentLevel : Option String) (s : Settings),
      Settings.parse arguments environmentLevel = .ok s →
      (∃ uses, Spelled uses arguments) ∧
      ∀ uses, Spelled uses arguments →
        (∀ read locators, collect (s.steps read) = .ok locators → Gives uses read locators) ∧
        ∀ uses' arguments', SameStreams Use.option uses uses' → Spelled uses' arguments' →
          Settings.parse arguments' environmentLevel = .ok s) := by
  constructor
  · intro steps b hrun
    refine ⟨fun e => ?_, fun locators hbuild => Builder.settles hrun hbuild, fun steps' hsame => ?_⟩
    · rw [Builder.build_eq_error_iff, Builder.coordinate_of_run hrun]
    · exact Builder.apply_commutes.foldlM_eq_ok hsame hrun
  · intro arguments environmentLevel s hs
    refine ⟨Settings.exists_spelled_of_parse hs, fun uses huses => ⟨?_, ?_⟩⟩
    · intro read locators hcollect
      exact gives hs huses hcollect
    · intro uses' arguments' hsame huses'
      exact Settings.parse_of_sameStreams hs huses huses' hsame

/-! ### A unit that is bound three times -/

namespace ThreeUnits

/-- The stage is set between two bindings of the unit. -/
def arguments : List String :=
  ["-l", "unit=first", "--stage=prod", "-lunit=second", "--locators-file", "locators.toml"]

/-- The unit is bound twice, and the file comes last. -/
def uses : List Use :=
  [.parameter .binding "unit=first", .parameter .stage "prod", .parameter .binding "unit=second",
    .parameter .locatorsFile "locators.toml"]

/-- The same uses in other spellings, with the file first. -/
def rearranged : List String :=
  ["--locators-file=locators.toml", "-lunit=first", "-l=unit=second", "-sprod"]

/-- What these spell: the bindings still stand in their order. -/
def rearrangedUses : List Use :=
  [.parameter .locatorsFile "locators.toml", .parameter .binding "unit=first",
    .parameter .binding "unit=second", .parameter .stage "prod"]

/-- What either spelling comes to. -/
def settings : Settings :=
  ⟨none, some "prod", none, none, [⟨"unit", "first"⟩, ⟨"unit", "second"⟩],
    some "locators.toml", none, none, none, false, false⟩

/-- The file binds a coordinate too, which has no effect. -/
def read : ReadFile := fun _ => .ok "unit = \"third\"\ncompany = \"acme\"\nstage = \"stg\"\n"

theorem spelled : Spelled uses arguments :=
  .cons (.shortApart (c := 'l') rfl (by nofun)) <|
    .cons (@Use.Spells.longAttached "stage" .stage "prod" rfl) <|
      .cons (@Use.Spells.shortAttached 'l' 'u' .binding _ rfl (by decide)) <|
        .cons (@Use.Spells.longApart "locators-file" .locatorsFile _ rfl (by nofun)) .nil

theorem rearranged_spelled : Spelled rearrangedUses rearranged :=
  .cons (@Use.Spells.longAttached "locators-file" .locatorsFile "locators.toml" rfl) <|
    .cons (@Use.Spells.shortAttached 'l' 'u' .binding _ rfl (by decide)) <|
      .cons (@Use.Spells.shortEquals 'l' .binding "unit=second" rfl) <|
        .cons (@Use.Spells.shortAttached 's' 'p' .stage _ rfl (by decide)) .nil

theorem sameStreams : SameStreams Use.option uses rearrangedUses := by
  rintro (p | x)
  · cases p <;> rfl
  · cases x <;> rfl

/-- A stage that a binding cannot make up for. -/
def badStage : List Step :=
  [.stage "prod", .binding "unit" "x", .stage "test", .binding "stage" "dev"]

theorem last_unit_wins :
    Settings.parse arguments none = .ok settings ∧ Settings.parse rearranged none = .ok settings ∧
    (∃ locators, collect (settings.steps read) = .ok locators ∧
      locators.get? "unit" = some "second" ∧ locators.get? "company" = some "acme" ∧
      locators.get? "stage" = some "prod") ∧
    ∃ b, badStage.foldlM Builder.apply Builder.initial = .ok b ∧
      b.build = .error (.unsupportedStage "test") := by
  obtain ⟨hsteps, harguments⟩ := locators_by_precedence
  have hs : Settings.parse arguments none = .ok settings := rfl
  obtain ⟨hgives, hrearranged⟩ := (harguments arguments none settings hs).2 uses spelled
  refine ⟨hs, hrearranged rearrangedUses rearranged sameStreams rearranged_spelled, ?_, ?_⟩
  · have hsettled : ((collect (settings.steps read)).toOption.any fun _ => true) = true := by
      decide +kernel
    obtain ⟨locators, hcollect, -⟩ := exists_of_any_toOption hsettled
    have h := hgives read locators hcollect
    refine ⟨locators, hcollect, ?_, ?_, h.get?_key .stage⟩
    · refine (h.get?_of_ne "unit" (by rintro (_ | _ | _) <;> decide)).trans ?_
      decide +kernel
    · refine (h.get?_of_ne "company" (by rintro (_ | _ | _) <;> decide)).trans ?_
      decide +kernel
  · obtain ⟨b, hrun⟩ : ∃ b, badStage.foldlM Builder.apply Builder.initial = .ok b := ⟨_, rfl⟩
    exact ⟨b, hrun, ((hsteps badStage b hrun).1 _).2 (.stage (by decide))⟩

end ThreeUnits

end CommandLine
end GrantCompiler
