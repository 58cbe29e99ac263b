import GrantCompiler.Locator.Builder

/-!
# Settled locators

`Locators.initial` is what settles when nothing is bound: all defaults, and no unit.
`Locators.withUnit` is the smallest set of locators that every name can be rendered with: all
defaults, and a unit.  `collect_unit` says that binding the unit and nothing else settles to it.
`Locators.forStage` is the same for any other stage that is supported.
-/

set_option autoImplicit false

namespace GrantCompiler

open Locator (Builder)

/-- The default locators. -/
def Locators.initial : Locators := (Locator.collect []).toOption.get rfl

/-- The default locators with a unit. -/
def Locators.withUnit (unit : String) : Locators where
  values := (Builder.initial.bind Locator.unit unit).settled
  company_bound := by
    simpa [Builder.settled, OrderedMap.get?_insert, Locator.company, Locator.provider,
      Locator.region, Locator.stage] using (Builder.initial.bind Locator.unit unit).company_bound
  supported := ⟨Locator.defaultProvider, Locator.defaultRegion, Locator.defaultStage,
    ⟨by decide, by decide, by decide⟩, by
      simp [Builder.settled, Builder.bind, Builder.initial, OrderedMap.get?_insert,
        Locator.provider, Locator.region, Locator.stage]⟩

/-- The default locators for another stage, with a unit. -/
def Locators.forStage (stage unit : String) (h : stage ∈ Locator.supportedStages) : Locators where
  values := ((Builder.initial.withStage stage).bind Locator.unit unit).settled
  company_bound := by
    simpa [Builder.settled, OrderedMap.get?_insert, Locator.company, Locator.provider,
      Locator.region, Locator.stage] using
      ((Builder.initial.withStage stage).bind Locator.unit unit).company_bound
  supported := ⟨Locator.defaultProvider, Locator.defaultRegion, stage,
    ⟨h, by decide, by decide⟩, by
      simp [Builder.settled, Builder.bind, Builder.withStage, Builder.initial,
        OrderedMap.get?_insert, Locator.provider, Locator.region, Locator.stage]⟩

theorem Locator.collect_stage_unit {stage : String} (unit : String)
    (h : stage ∈ Locator.supportedStages) :
    Locator.collect [.stage stage, .binding Locator.unit unit] = .ok (.forStage stage unit h) :=
  dif_pos h

theorem Locator.collect_nil : Locator.collect [] = .ok .initial := rfl

theorem Locator.collect_unit (unit : String) :
    Locator.collect [.binding Locator.unit unit] = .ok (Locators.withUnit unit) := rfl

end GrantCompiler
