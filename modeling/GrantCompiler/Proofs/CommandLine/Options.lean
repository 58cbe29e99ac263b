import GrantCompiler.CommandLine.Arguments
import GrantCompiler.Proofs.Reported

/-!
# What belongs to an option

Every option has a part of the settings of its own.  Setting an option neither looks at what belongs
to the others nor changes it: `Settings.set_withOption` and `Settings.switch_withOption` say that it
comes to the same to change the part of another option before or after.
-/

set_option autoImplicit false

namespace GrantCompiler
namespace CommandLine

open Locator (Binding)

deriving instance DecidableEq for Parameter
deriving instance DecidableEq for Switch

section Steps

variable {ε α β : Type} {x : Except ε α} {t : α → α} {u : β → β} {f g : α → Except ε β}

theorem bind_eq_map_bind (h : ∀ a, g a = (f a).map u) : x >>= g = (x >>= f).map u := by
  cases x with
  | error e => rfl
  | ok a => exact h a

/-- A change made before a step is a change of its result, if the next step commutes with it. -/
theorem map_bind_eq_map_bind (h : ∀ a, f (t a) = (f a).map u) :
    x.map t >>= f = (x >>= f).map u := by
  cases x with
  | error e => rfl
  | ok a => exact h a

end Steps

namespace Settings

/-- The settings, with what belongs to an option taken from others. -/
def withOption (s t : Settings) : Parameter ⊕ Switch → Settings
  | .inl .logLevel => { s with logLevel := t.logLevel }
  | .inl .stage => { s with stage := t.stage }
  | .inl .region => { s with region := t.region }
  | .inl .provider => { s with provider := t.provider }
  | .inl .binding => { s with bindings := t.bindings }
  | .inl .locatorsFile => { s with locatorsFile := t.locatorsFile }
  | .inl .appsFile => { s with appsFile := t.appsFile }
  | .inl .usageFile => { s with usageFile := t.usageFile }
  | .inl .outputFile => { s with outputFile := t.outputFile }
  | .inr .pretty => { s with pretty := t.pretty }
  | .inr .strict => { s with strict := t.strict }
  | .inr .help => s
  | .inr .version => s

theorem withOption_comm (s t t' : Settings) {o o' : Parameter ⊕ Switch} (h : o ≠ o') :
    (s.withOption t o).withOption t' o' = (s.withOption t' o').withOption t o := by
  rcases o with p | x <;> rcases o' with q | y
  · cases p <;> cases q <;> first | rfl | exact absurd rfl h
  · cases p <;> cases y <;> rfl
  · cases x <;> cases q <;> rfl
  · cases x <;> cases y <;> first | rfl | exact absurd rfl h

/-- A use of another option does not look at what belongs to this one. -/
theorem set_withOption (s t : Settings) {p : Parameter} {o : Parameter ⊕ Switch}
    (h : o ≠ .inl p) (value : String) :
    (s.withOption t o).set p value = (s.set p value).map (·.withOption t o) := by
  cases p with
  | logLevel =>
    rw [set, set]
    cases LogLevel.ofText? value with
    | none => rfl
    | some level =>
      rcases o with q | x
      · cases q <;> first | exact absurd rfl h | exact bind_eq_map_bind fun _ => rfl
      · cases x <;> exact bind_eq_map_bind fun _ => rfl
  | binding =>
    rw [set, set]
    cases Binding.parse? value with
    | none => rfl
    | some b =>
      rcases o with q | x
      · cases q <;> first | exact absurd rfl h | rfl
      · cases x <;> rfl
  | stage | region | provider | locatorsFile | appsFile | usageFile | outputFile =>
    rcases o with q | x
    · cases q <;> first | exact absurd rfl h | exact bind_eq_map_bind fun _ => rfl
    · cases x <;> exact bind_eq_map_bind fun _ => rfl

theorem switch_withOption (s t : Settings) {x : Switch} {o : Parameter ⊕ Switch}
    (h : o ≠ .inr x) : (s.withOption t o).switch x = (s.switch x).map (·.withOption t o) := by
  obtain ⟨_, _, _, _, _, _, _, _, _, pretty, strict⟩ := s
  cases x with
  | help | version => rfl
  | pretty =>
    rcases o with q | y
    · cases q <;> cases pretty <;> rfl
    · cases y <;> first | exact absurd rfl h | (cases pretty <;> rfl)
  | strict =>
    rcases o with q | y
    · cases q <;> cases strict <;> rfl
    · cases y <;> first | exact absurd rfl h | (cases strict <;> rfl)

end Settings

end CommandLine
end GrantCompiler
