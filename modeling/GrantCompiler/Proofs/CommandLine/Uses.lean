import GrantCompiler.Proofs.CommandLine.Spelling
import GrantCompiler.Proofs.OrderedMap

/-!
# What uses of options set

Every use of an option reads and writes a part of the settings of its own, so uses of different
options may be swapped.  Only bindings may be given several times, and their order is kept.

* `Settings.use_withOption` and `Settings.eq_withOption_of_use` — a use neither looks at what
  belongs to other options nor changes it.
* `Settings.use_commutes`, `Settings.parse_of_sameStreams` — options may stand in any order.
* `Settings.text?_of_parse`, `Settings.bindings_of_parse` — what accepted arguments set, in terms of
  the uses that they spell.
-/

set_option autoImplicit false

namespace GrantCompiler
namespace CommandLine

open Locator (Binding)
open OrderedMap (lastValue lastValue_filterMap_cons)

/-! ## Options -/

/-- The option that is used. -/
def Use.option : Use → Parameter ⊕ Switch
  | .parameter p _ => .inl p
  | .switch x => .inr x

namespace Settings

variable {s s' t : Settings}

theorem use_withOption (s t : Settings) {u : Use} {o : Parameter ⊕ Switch} (h : o ≠ u.option) :
    (s.withOption t o).use u = (s.use u).map (·.withOption t o) := by
  cases u with
  | parameter p value => exact s.set_withOption t h value
  | switch x => exact s.switch_withOption t h

/-- A use changes nothing but what belongs to its option. -/
theorem eq_withOption_of_use {u : Use} (h : s.use u = .ok s') :
    s' = s.withOption s' u.option := by
  cases u with
  | parameter p value =>
    cases p with
    | logLevel =>
      rw [use, set] at h
      split at h
      next => cases h
      next =>
        obtain ⟨_, -, h⟩ := bind_eq_ok_iff.1 h
        cases h
        rfl
    | binding =>
      rw [use, set] at h
      split at h
      next => cases h
      next => cases h; rfl
    | stage | region | provider | locatorsFile | appsFile | usageFile | outputFile =>
      obtain ⟨_, -, h⟩ := bind_eq_ok_iff.1 h
      cases h
      rfl
  | switch x =>
    cases x with
    | help | version => cases h
    | pretty | strict =>
      rw [use, switch] at h
      split at h
      next => cases h
      next => cases h; rfl

/-- Uses of different options may be swapped. -/
theorem use_commutes : Commutes use Use.option := by
  intro s s₁ s₂ u v hne hu hv
  have hs₁ := eq_withOption_of_use hu
  rw [hs₁, s.use_withOption s₁ hne] at hv
  obtain ⟨t, ht, rfl⟩ := map_eq_ok_iff.1 hv
  have htv := eq_withOption_of_use ht
  refine ⟨t, ht, ?_⟩
  rw [htv, s.use_withOption t (Ne.symm hne), hu, ← htv]
  show Except.ok (s₁.withOption t v.option) = Except.ok (t.withOption s₁ u.option)
  refine congrArg Except.ok ?_
  calc s₁.withOption t v.option
      = (s.withOption s₁ u.option).withOption t v.option := congrArg (·.withOption t v.option) hs₁
    _ = (s.withOption t v.option).withOption s₁ u.option := s.withOption_comm s₁ t hne
    _ = t.withOption s₁ u.option := congrArg (·.withOption s₁ u.option) htv.symm

end Settings

/-! ## What uses leave behind -/

/-- The value that a use gives a parameter. -/
def Use.given? : Use → Option (Parameter × String)
  | .parameter p value => some (p, value)
  | .switch _ => none

/-- The binding that a use adds. -/
def Use.binding? : Use → Option Binding
  | .parameter .binding value => Binding.parse? value
  | _ => none

/-- The value that a parameter is given last. -/
def lastGiven (p : Parameter) (uses : List Use) : Option String :=
  lastValue p (uses.filterMap Use.given?)

namespace Settings

variable {s s' : Settings}

/-- The text that is set for a parameter.  A log level and bindings are not kept as texts. -/
def text? (s : Settings) : Parameter → Option String
  | .stage => s.stage
  | .region => s.region
  | .provider => s.provider
  | .locatorsFile => s.locatorsFile
  | .appsFile => s.appsFile
  | .usageFile => s.usageFile
  | .outputFile => s.outputFile
  | .logLevel | .binding => none

theorem text?_withOption (s t : Settings) {p : Parameter} {o : Parameter ⊕ Switch}
    (h : o ≠ .inl p) : (s.withOption t o).text? p = s.text? p := by
  rcases o with q | x
  · cases q <;> cases p <;> first | rfl | exact absurd rfl h
  · cases x <;> cases p <;> rfl

theorem bindings_withOption (s t : Settings) {o : Parameter ⊕ Switch} (h : o ≠ .inl .binding) :
    (s.withOption t o).bindings = s.bindings := by
  rcases o with q | x
  · cases q <;> first | rfl | exact absurd rfl h
  · cases x <;> rfl

theorem once_eq_ok {α : Type} {held taken : Option α} {value : α}
    (h : once held value = .ok taken) : taken = some value := by
  cases held with
  | none => cases h; rfl
  | some _ => cases h

theorem oncePath_eq_ok {held taken : Option String} {path : String}
    (h : oncePath held path = .ok taken) : taken = some path := by
  rw [oncePath] at h
  split at h
  next => cases h
  next => exact once_eq_ok h

theorem text?_of_set {p : Parameter} {value : String} (hlevel : p ≠ .logLevel)
    (hbinding : p ≠ .binding) (h : s.set p value = .ok s') : s'.text? p = some value := by
  cases p with
  | logLevel => exact absurd rfl hlevel
  | binding => exact absurd rfl hbinding
  | stage | region | provider =>
    obtain ⟨_, honce, h⟩ := bind_eq_ok_iff.1 h
    cases h
    exact once_eq_ok honce
  | locatorsFile | appsFile | usageFile | outputFile =>
    obtain ⟨_, honce, h⟩ := bind_eq_ok_iff.1 h
    cases h
    exact oncePath_eq_ok honce

theorem text?_of_use {u : Use} {p : Parameter} (hlevel : p ≠ .logLevel) (hbinding : p ≠ .binding)
    (h : s.use u = .ok s') : s'.text? p = (lastValue p u.given?.toList).or (s.text? p) := by
  by_cases hown : u.option = .inl p
  · cases u with
    | switch x => cases hown
    | parameter q value =>
      cases hown
      rw [text?_of_set hlevel hbinding h]
      simp [Use.given?, lastValue]
  · have hnone : lastValue p u.given?.toList = none := by
      cases u with
      | switch x => rfl
      | parameter q value =>
        have hne : q ≠ p := fun heq => hown (congrArg Sum.inl heq)
        simp [Use.given?, lastValue, hne]
    rw [eq_withOption_of_use h, text?_withOption s s' hown, hnone, Option.none_or]

theorem bindings_of_use {u : Use} (h : s.use u = .ok s') :
    s'.bindings = s.bindings ++ u.binding?.toList := by
  by_cases hown : u.option = .inl .binding
  · cases u with
    | switch x => cases hown
    | parameter q value =>
      cases hown
      rw [use, set] at h
      split at h
      next => cases h
      next b hparse =>
        cases h
        rw [Use.binding?, hparse]
        rfl
  · have hnone : u.binding? = none := by
      cases u with
      | switch x => rfl
      | parameter q value =>
        cases q <;> first | rfl | exact absurd rfl hown
    rw [eq_withOption_of_use h, bindings_withOption s s' hown, hnone, Option.toList_none,
      List.append_nil]

theorem text?_of_foldlM {uses : List Use} {p : Parameter} (hlevel : p ≠ .logLevel)
    (hbinding : p ≠ .binding) (h : uses.foldlM use s = .ok s') :
    s'.text? p = (lastGiven p uses).or (s.text? p) := by
  induction uses generalizing s with
  | nil => cases h; rfl
  | cons u rest ih =>
    obtain ⟨t, hu, hrest⟩ := foldlM_cons_eq_ok_iff.1 h
    rw [ih hrest, text?_of_use hlevel hbinding hu, lastGiven, lastGiven, lastValue_filterMap_cons,
      Option.or_assoc]

theorem bindings_of_foldlM {uses : List Use} (h : uses.foldlM use s = .ok s') :
    s'.bindings = s.bindings ++ uses.filterMap Use.binding? := by
  induction uses generalizing s with
  | nil => cases h; exact (List.append_nil _).symm
  | cons u rest ih =>
    obtain ⟨t, hu, hrest⟩ := foldlM_cons_eq_ok_iff.1 h
    rw [ih hrest, bindings_of_use hu, List.append_assoc, List.filterMap_cons]
    cases u.binding? <;> rfl

/-! ## Accepted arguments -/

variable {environmentLevel : Option String} {arguments : List String} {uses : List Use}

/-- The environment sets the log level and nothing else. -/
theorem eq_withOption_of_completeLevel (h : completeLevel environmentLevel s = .ok s') :
    s' = s.withOption s' (.inl .logLevel) := by
  unfold completeLevel at h
  split at h
  next =>
    split at h
    next => cases h
    next => cases h; rfl
  next => cases h; rfl

theorem parse_eq_ok_iff (huses : Spelled uses arguments) :
    parse arguments environmentLevel = .ok s ↔
      ∃ t, uses.foldlM use .initial = .ok t ∧ completeLevel environmentLevel t = .ok s := by
  rw [parse_eq, bind_eq_ok_iff]
  simp only [huses.all_eq_ok_iff]

theorem exists_spelled_of_parse (h : parse arguments environmentLevel = .ok s) :
    ∃ uses, Spelled uses arguments := by
  obtain ⟨t, ht, -⟩ := bind_eq_ok_iff.1 h
  exact Reading.exists_spelled ht

/-- **Options may stand in any order.**  Arguments that spell the same uses, option by option, ask
for the same. -/
theorem parse_of_sameStreams {uses' : List Use} {arguments' : List String}
    (h : parse arguments environmentLevel = .ok s) (huses : Spelled uses arguments)
    (huses' : Spelled uses' arguments') (hsame : SameStreams Use.option uses uses') :
    parse arguments' environmentLevel = .ok s := by
  obtain ⟨t, ht, hlevel⟩ := (parse_eq_ok_iff huses).1 h
  exact (parse_eq_ok_iff huses').2 ⟨t, use_commutes.foldlM_eq_ok hsame ht, hlevel⟩

theorem text?_of_parse {p : Parameter} (hlevel : p ≠ .logLevel) (hbinding : p ≠ .binding)
    (h : parse arguments environmentLevel = .ok s) (huses : Spelled uses arguments) :
    s.text? p = lastGiven p uses := by
  obtain ⟨t, ht, hcomplete⟩ := (parse_eq_ok_iff huses).1 h
  have hother : (Sum.inl .logLevel : Parameter ⊕ Switch) ≠ .inl p := fun heq =>
    hlevel (Sum.inl.inj heq).symm
  rw [eq_withOption_of_completeLevel hcomplete, text?_withOption t s hother,
    text?_of_foldlM hlevel hbinding ht]
  cases p <;> exact Option.or_none

theorem bindings_of_parse (h : parse arguments environmentLevel = .ok s)
    (huses : Spelled uses arguments) : s.bindings = uses.filterMap Use.binding? := by
  obtain ⟨t, ht, hcomplete⟩ := (parse_eq_ok_iff huses).1 h
  rw [eq_withOption_of_completeLevel hcomplete, bindings_withOption t s (by decide),
    bindings_of_foldlM ht]
  rfl

end Settings
end CommandLine
end GrantCompiler
