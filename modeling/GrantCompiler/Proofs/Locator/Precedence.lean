import GrantCompiler.Locator.Builder
import GrantCompiler.Proofs.Interleaving
import GrantCompiler.Proofs.OrderedMap
import Mathlib.Data.List.Basic

/-!
# The last word on a locator

Steps write to a builder in two ways.  The provider, the region and the stage, its coordinates, have
steps of their own, and nothing else writes them; every other step binds keys.  `Step.coordinate?`
and `Step.pairs` say what a step writes.

* `Builder.apply_eq_ok` and `Builder.foldlM_apply_eq_ok` — what one step and a run of steps leave
  behind: each coordinate as last set, and everything bound in order.
* `Builder.apply_commutes` — steps on different coordinates, and steps on coordinates and bindings,
  may be swapped.
* `Builder.build_eq_error_iff` — a coordinate that is not supported is refused, the stage before the
  provider and that before the region.
* `Builder.settles` — otherwise the finished set has the coordinates under their keys, whatever is
  bound there, and under all other keys what was bound last.
-/

set_option autoImplicit false

namespace GrantCompiler

open OrderedMap (lastValue lastValue_filterMap_cons)

/-- The text a value of a locators file is, if it is one. -/
def Toml.Value.text? : Toml.Value → Option String
  | text content => some content
  | _ => none

namespace Locator

/-! ## Coordinates -/

/-- What has a step of its own. -/
inductive Coordinate
  | provider
  | region
  | stage
deriving DecidableEq

namespace Coordinate

/-- The key that a coordinate settles under. -/
def key : Coordinate → String
  | provider => Locator.provider
  | region => Locator.region
  | stage => Locator.stage

/-- The value of a coordinate while no other is set. -/
def default : Coordinate → String
  | provider => defaultProvider
  | region => defaultRegion
  | stage => defaultStage

end Coordinate

/-- Why coordinates are refused.  Only the first reason is given. -/
inductive Refused (value : Coordinate → String) : Failure → Prop
  | stage : value .stage ∉ supportedStages → Refused value (.unsupportedStage (value .stage))
  | provider : value .stage ∈ supportedStages → value .provider ∉ supportedProviders →
      Refused value (.unsupportedProvider (value .provider))
  | region : value .stage ∈ supportedStages → value .provider ∈ supportedProviders →
      value .region ∉ supportedRegions (value .provider) →
      Refused value (.unsupportedRegion (value .provider) (value .region))

/-- What a key that nothing binds is bound to. -/
def unbound? (key : String) : Option String :=
  if key = company then some defaultCompany else none

namespace Builder

variable {b b' : Builder}

/-- The value that a coordinate has so far. -/
def coordinate (b : Builder) : Coordinate → String
  | .provider => b.provider
  | .region => b.region
  | .stage => b.stage

/-- Sets a coordinate. -/
def withCoordinate (b : Builder) (value : String) : Coordinate → Builder
  | .provider => b.withProvider value
  | .region => b.withRegion value
  | .stage => b.withStage value

@[simp] theorem bindings_withCoordinate (b : Builder) (value : String) (c : Coordinate) :
    (b.withCoordinate value c).bindings = b.bindings := by
  cases c <;> rfl

theorem coordinate_withCoordinate (b : Builder) (value : String) (c d : Coordinate) :
    (b.withCoordinate value c).coordinate d = if c = d then value else b.coordinate d := by
  cases c <;> cases d <;> rfl

theorem withCoordinate_comm (b : Builder) (value value' : String) {c d : Coordinate} (h : c ≠ d) :
    (b.withCoordinate value c).withCoordinate value' d =
      (b.withCoordinate value' d).withCoordinate value c := by
  cases c <;> cases d <;> first | rfl | exact absurd rfl h

/-! ## What a step writes -/

/-- The texts of a locators file. -/
def texts (table : Toml.Table) : List (String × String) :=
  table.toList.filterMap fun e => e.2.text?.map (e.1, ·)

theorem lastValue_texts (table : Toml.Table) (key : String) :
    lastValue key (texts table) = (table.get? key).bind Toml.Value.text? :=
  OrderedMap.lastValue_filterMap_toList table Toml.Value.text? key

theorem textsOf_eq_ok {path : String} {table : Toml.Table} {pairs : List (String × String)}
    (h : textsOf path table = .ok pairs) : pairs = texts table := by
  have hmap := mapM_eq_ok_iff.1 h
  have hpairs : (pairs.map (@Except.ok Failure _)).filterMap Except.toOption = pairs := by
    simp [List.filterMap_map, Function.comp_def, Except.toOption]
  rw [← hpairs, ← hmap, List.filterMap_map, texts]
  refine List.filterMap_congr fun ⟨key, value⟩ _ => ?_
  cases value <;> rfl

/-- The coordinate that a step sets. -/
def Step.coordinate? : Step → Option (Coordinate × String)
  | .provider value => some (.provider, value)
  | .region value => some (.region, value)
  | .stage value => some (.stage, value)
  | _ => none

/-- The keys that a step binds, with their values. -/
def Step.pairs : Step → List (String × String)
  | .company value => [(Locator.company, value)]
  | .binding key value => [(key, value)]
  | .argument text => (Binding.parse? text).toList.map fun b => (b.key, b.value)
  | .file _ (.ok text) => (Toml.parse? text).toList.flatMap texts
  | _ => []

theorem bindings_bindAll (b : Builder) (pairs : List (String × String)) :
    (b.bindAll pairs).bindings = b.bindings.insertAll pairs := by
  induction pairs generalizing b with
  | nil => rfl
  | cons p rest ih => exact ih (b.bind p.1 p.2)

theorem bindAll_withCoordinate (b : Builder) (value : String) (c : Coordinate)
    (pairs : List (String × String)) :
    (b.withCoordinate value c).bindAll pairs = (b.bindAll pairs).withCoordinate value c := by
  induction pairs generalizing b with
  | nil => rfl
  | cons p rest ih =>
    have hhead : (b.withCoordinate value c).bind p.1 p.2 =
        (b.bind p.1 p.2).withCoordinate value c := by
      cases c <;> rfl
    show ((b.withCoordinate value c).bind p.1 p.2).bindAll rest = _
    rw [hhead, ih]
    rfl

theorem coordinate_bindAll (b : Builder) (pairs : List (String × String)) (c : Coordinate) :
    (b.bindAll pairs).coordinate c = b.coordinate c := by
  induction pairs generalizing b with
  | nil => rfl
  | cons p rest ih =>
    refine (ih (b.bind p.1 p.2)).trans ?_
    cases c <;> rfl

/-- A step that succeeds sets the coordinate it names and binds what it holds. -/
theorem apply_eq_ok {step : Step} (h : b.apply step = .ok b') :
    b' = (step.coordinate?.elim b fun p => b.withCoordinate p.2 p.1).bindAll step.pairs := by
  cases step with
  | provider | region | stage | company | binding => cases h; rfl
  | argument text =>
    obtain ⟨binding, hbinding, h⟩ := bind_eq_ok_iff.1 h
    cases h
    unfold Binding.parse at hbinding
    split at hbinding
    next hparse => cases hbinding; rw [Step.pairs, hparse]; rfl
    next => cases hbinding
  | file path content =>
    cases content with
    | error cause => cases h
    | ok text =>
      rw [apply] at h
      split at h
      next => cases h
      next table hparse =>
        obtain ⟨pairs, hpairs, h⟩ := bind_eq_ok_iff.1 h
        cases h
        rw [textsOf_eq_ok hpairs, Step.pairs, hparse]
        show b.bindAll _ = b.bindAll _
        simp

theorem bindings_of_apply {step : Step} (h : b.apply step = .ok b') :
    b'.bindings = b.bindings.insertAll step.pairs := by
  rw [apply_eq_ok h, bindings_bindAll]
  cases step.coordinate? with
  | none => rfl
  | some p => exact congrArg (·.insertAll step.pairs) (b.bindings_withCoordinate p.2 p.1)

theorem coordinate_of_apply {step : Step} (h : b.apply step = .ok b') (c : Coordinate) :
    b'.coordinate c = (lastValue c step.coordinate?.toList).getD (b.coordinate c) := by
  rw [apply_eq_ok h, coordinate_bindAll]
  cases step.coordinate? with
  | none => rfl
  | some p =>
    refine (b.coordinate_withCoordinate p.2 p.1 c).trans ?_
    rw [Option.toList_some, lastValue, lastValue, Option.none_or]
    split <;> rfl

/-! ## Runs of steps -/

/-- The value that a coordinate is given last, or else its default. -/
def lastSet (steps : List Step) (c : Coordinate) : String :=
  (lastValue c (steps.filterMap Step.coordinate?)).getD c.default

/-- What steps bind, in order. -/
def bound (steps : List Step) : List (String × String) := steps.flatMap Step.pairs

theorem bindings_of_foldlM {steps : List Step} (h : steps.foldlM apply b = .ok b') :
    b'.bindings = b.bindings.insertAll (bound steps) := by
  induction steps generalizing b with
  | nil => cases h; rfl
  | cons step rest ih =>
    obtain ⟨t, hstep, hrest⟩ := foldlM_cons_eq_ok_iff.1 h
    rw [ih hrest, bindings_of_apply hstep, bound, bound, List.flatMap_cons,
      OrderedMap.insertAll_append]

theorem coordinate_of_foldlM {steps : List Step} (h : steps.foldlM apply b = .ok b')
    (c : Coordinate) :
    b'.coordinate c =
      (lastValue c (steps.filterMap Step.coordinate?)).getD (b.coordinate c) := by
  induction steps generalizing b with
  | nil => cases h; rfl
  | cons step rest ih =>
    obtain ⟨t, hstep, hrest⟩ := foldlM_cons_eq_ok_iff.1 h
    rw [ih hrest, coordinate_of_apply hstep, lastValue_filterMap_cons, Option.getD_or]

/-- A run from the defaults leaves each coordinate as it was last set. -/
theorem coordinate_of_run {steps : List Step} (h : steps.foldlM apply initial = .ok b) :
    b.coordinate = lastSet steps := by
  funext c
  rw [coordinate_of_foldlM h, lastSet]
  cases c <;> rfl

/-! ## Steps that may be swapped -/

/-- The coordinate that a step sets; all steps that bind share one channel. -/
def Step.channel (step : Step) : Option Coordinate := step.coordinate?.map Prod.fst

theorem apply_of_coordinate?_eq_some {step : Step} {c : Coordinate} {value : String}
    (h : step.coordinate? = some (c, value)) (b : Builder) :
    b.apply step = .ok (b.withCoordinate value c) := by
  cases step <;> cases h <;> rfl

/-- A step that binds does not look at the coordinates. -/
theorem apply_withCoordinate {step : Step} (h : step.coordinate? = none) (b : Builder)
    (value : String) (c : Coordinate) :
    (b.withCoordinate value c).apply step = (b.apply step).map (·.withCoordinate value c) := by
  have hbind : ∀ pairs, (b.withCoordinate value c).bindAll pairs =
      (b.bindAll pairs).withCoordinate value c := b.bindAll_withCoordinate value c
  cases step with
  | provider | region | stage => cases h
  | company new => exact congrArg Except.ok (hbind [(Locator.company, new)])
  | binding key new => exact congrArg Except.ok (hbind [(key, new)])
  | argument text =>
    rw [apply, apply]
    cases Binding.parse text with
    | error e => rfl
    | ok binding => exact congrArg Except.ok (hbind [(binding.key, binding.value)])
  | file path content =>
    cases content with
    | error cause => rfl
    | ok text =>
      rw [apply, apply]
      cases Toml.parse? text with
      | none => rfl
      | some table =>
        simp only [bindTable]
        cases textsOf path table with
        | error e => rfl
        | ok pairs => exact congrArg Except.ok (hbind pairs)

theorem apply_commutes : Commutes apply Step.channel := by
  intro b b₁ b₂ i j hne hi hj
  cases hci : i.coordinate? with
  | none =>
    cases hcj : j.coordinate? with
    | none => exact absurd (by rw [Step.channel, Step.channel, hci, hcj]) hne
    | some q =>
      rw [apply_of_coordinate?_eq_some hcj] at hj
      refine ⟨_, apply_of_coordinate?_eq_some hcj b, ?_⟩
      rw [apply_withCoordinate hci, hi]
      exact hj
  | some p =>
    rw [apply_of_coordinate?_eq_some hci] at hi
    cases hi
    cases hcj : j.coordinate? with
    | none =>
      rw [apply_withCoordinate hcj] at hj
      obtain ⟨t, ht, rfl⟩ := map_eq_ok_iff.1 hj
      exact ⟨t, ht, apply_of_coordinate?_eq_some hci t⟩
    | some q =>
      have hpq : p.1 ≠ q.1 := fun heq => hne (by
        rw [Step.channel, Step.channel, hci, hcj, Option.map_some, Option.map_some, heq])
      rw [apply_of_coordinate?_eq_some hcj] at hj
      refine ⟨_, apply_of_coordinate?_eq_some hcj b, ?_⟩
      rw [apply_of_coordinate?_eq_some hci, ← withCoordinate_comm b p.2 q.2 hpq]
      exact hj

/-! ## Settling -/

theorem build_eq_error_iff {e : Failure} : b.build = .error e ↔ Refused b.coordinate e := by
  unfold build
  refine ⟨fun h => ?_, fun h => ?_⟩
  · split at h
    next hstage =>
      split at h
      next hprovider =>
        split at h
        next => cases h
        next hregion => cases h; exact .region hstage hprovider hregion
      next hprovider => cases h; exact .provider hstage hprovider
    next hstage => cases h; exact .stage hstage
  · cases h with
    | stage hstage => exact dif_neg hstage
    | provider hstage hprovider => exact (dif_pos hstage).trans (dif_neg hprovider)
    | region hstage hprovider hregion =>
      exact (dif_pos hstage).trans ((dif_pos hprovider).trans (dif_neg hregion))

theorem values_of_build {locators : Locators} (h : b.build = .ok locators) :
    locators.values = b.settled := by
  unfold build at h
  split at h
  next =>
    split at h
    next =>
      split at h
      next => cases h; rfl
      next => cases h
    next => cases h
  next => cases h

theorem get?_settled_key (b : Builder) (c : Coordinate) :
    b.settled.get? c.key = some (b.coordinate c) := by
  cases c <;> simp [settled, OrderedMap.get?_insert, Coordinate.key, coordinate, Locator.provider,
    Locator.region, Locator.stage]

theorem get?_settled_of_ne (b : Builder) {key : String} (h : ∀ c : Coordinate, key ≠ c.key) :
    b.settled.get? key = b.bindings.get? key := by
  have hprovider : key ≠ Locator.provider := h .provider
  have hregion : key ≠ Locator.region := h .region
  have hstage : key ≠ Locator.stage := h .stage
  simp [settled, OrderedMap.get?_insert, hprovider, hregion, hstage]

theorem get?_initial (key : String) : initial.bindings.get? key = unbound? key := by
  rw [initial, OrderedMap.get?_insert, OrderedMap.get?_empty, unbound?]

/-- What a finished set holds: the coordinates under their keys, and under every other key what was
bound to it last. -/
structure Settles (steps : List Step) (locators : Locators) : Prop where
  get?_key : ∀ c : Coordinate, locators.get? c.key = some (lastSet steps c)
  get?_of_ne : ∀ key, (∀ c : Coordinate, key ≠ c.key) →
    locators.get? key = (lastValue key (bound steps)).or (unbound? key)

/-- **The last word.**  Steps settle to the coordinates as last set and the keys as last bound. -/
theorem settles {steps : List Step} {locators : Locators}
    (hrun : steps.foldlM apply initial = .ok b) (h : b.build = .ok locators) :
    Settles steps locators where
  get?_key c := by
    rw [Locators.get?, values_of_build h, get?_settled_key, coordinate_of_run hrun]
  get?_of_ne key hkey := by
    rw [Locators.get?, values_of_build h, b.get?_settled_of_ne hkey, bindings_of_foldlM hrun,
      OrderedMap.get?_insertAll, get?_initial]

end Builder

theorem collect_eq_ok_iff {steps : List Builder.Step} {locators : Locators} :
    collect steps = .ok locators ↔
      ∃ b, steps.foldlM Builder.apply Builder.initial = .ok b ∧ b.build = .ok locators := by
  rw [collect, bind_eq_ok_iff]

end Locator
end GrantCompiler
