import GrantCompiler.Proofs.Locator.Precedence
import GrantCompiler.Proofs.Separator

/-!
# Bindings and the texts that spell them

Joining a key and a value with an equals sign gives a text in which the sign may stand many times
over, and all but the first belong to the value.  Which sign was the one that joined can be told
from the text alone as long as the key has none; and since neither side may be empty, the signs at
the ends of a text decide whether it is taken at all.

* `Binding.Spells` and `Malformed` — the texts that spell a binding, and those that spell none,
  neither in terms of how a text is read.
* `Binding.argument_inj` — a text is joined in one way only.
* `Binding.parse?_eq_some_iff` and `Binding.parse?_eq_none_iff` — reading takes the former apart
  and refuses the latter.
* `Builder.rebound_bind` — what binding a key changes in the set that is built.
* `Binding.parse_inverts_argument` — reading undoes joining, alone and as a step of a builder.
-/

set_option autoImplicit false

namespace GrantCompiler
namespace Locator

/-! ## Texts -/

/-- A text spells a binding: the two sides stand around the first equals sign of the text, and
neither is empty. -/
structure Binding.Spells (b : Binding) (text : String) : Prop where
  eq_argument : text = b.argument
  key_ne_empty : b.key ≠ ""
  not_mem_key : '=' ∉ b.key.toList
  value_ne_empty : b.value ≠ ""

/-- Why a text spells no binding. -/
inductive Malformed : String → Prop
  | noSign {text : String} : '=' ∉ text.toList → Malformed text
  /-- The text begins with its first equals sign. -/
  | noKey (value : String) : Malformed ("=" ++ value)
  /-- The text ends with its first equals sign. -/
  | noValue {key : String} : '=' ∉ key.toList → Malformed (key ++ "=")

namespace Binding

variable {b b' : Binding} {text : String}

instance (b : Binding) (text : String) : Decidable (b.Spells text) :=
  decidable_of_iff (text = b.argument ∧ b.key ≠ "" ∧ '=' ∉ b.key.toList ∧ b.value ≠ "")
    ⟨fun ⟨htext, hkey, hsign, hvalue⟩ => ⟨htext, hkey, hsign, hvalue⟩,
      fun h => ⟨h.eq_argument, h.key_ne_empty, h.not_mem_key, h.value_ne_empty⟩⟩

theorem toList_argument (b : Binding) :
    b.argument.toList = b.key.toList ++ '=' :: b.value.toList := by
  simp [argument, String.toList_append]

/-- A text with an equals sign is joined at the first. -/
theorem exists_eq_argument (h : '=' ∈ text.toList) :
    ∃ b : Binding, '=' ∉ b.key.toList ∧ text = b.argument := by
  obtain ⟨key, value, htext, hkey⟩ := List.eq_append_cons_of_mem h
  refine ⟨⟨String.ofList key, String.ofList value⟩, by rwa [String.toList_ofList], ?_⟩
  rw [← String.toList_inj, toList_argument, String.toList_ofList, String.toList_ofList, htext]

theorem argument_inj (h : '=' ∉ b.key.toList) (h' : '=' ∉ b'.key.toList) :
    b.argument = b'.argument ↔ b = b' := by
  refine ⟨fun heq => ?_, congrArg argument⟩
  rw [← String.toList_inj, toList_argument, toList_argument, sides_inj h h', String.toList_inj,
    String.toList_inj] at heq
  exact congrArg₂ mk heq.1 heq.2

/-- A text spells one binding at most. -/
theorem Spells.eq (h : b.Spells text) (h' : b'.Spells text) : b = b' :=
  (argument_inj h.not_mem_key h'.not_mem_key).1 (h.eq_argument.symm.trans h'.eq_argument)

/-! ## Reading -/

theorem parse?_of_not_mem (h : '=' ∉ text.toList) : parse? text = none := by
  rw [parse?, List.dropWhile_eq_nil_iff.2 (ne_of_not_mem h)]

/-- What was joined falls apart at the same place; whether that is a binding is decided after. -/
theorem parse?_argument (h : '=' ∉ b.key.toList) :
    parse? b.argument = if b.key = "" ∨ b.value = "" then none else some b := by
  rw [parse?, toList_argument, takeWhile_side h, dropWhile_side h]
  simp only [Bool.or_eq_true, List.isEmpty_iff, String.toList_eq_nil_iff, String.ofList_toList]

theorem parse?_eq_some_iff : parse? text = some b ↔ b.Spells text := by
  constructor
  · intro hparse
    by_cases hsign : '=' ∈ text.toList
    · obtain ⟨joined, hkey, rfl⟩ := exists_eq_argument hsign
      rw [parse?_argument hkey, Option.ite_none_left_eq_some, not_or] at hparse
      obtain ⟨⟨hkeyNe, hvalueNe⟩, heq⟩ := hparse
      cases heq
      exact ⟨rfl, hkeyNe, hkey, hvalueNe⟩
    · rw [parse?_of_not_mem hsign] at hparse
      cases hparse
  · rintro ⟨rfl, hkeyNe, hkey, hvalueNe⟩
    rw [parse?_argument hkey, if_neg (not_or.2 ⟨hkeyNe, hvalueNe⟩)]

theorem parse?_eq_none_iff : parse? text = none ↔ Malformed text := by
  constructor
  · intro hparse
    by_cases hsign : '=' ∈ text.toList
    · obtain ⟨⟨key, value⟩, hkey, rfl⟩ := exists_eq_argument hsign
      rw [parse?_argument hkey, ite_eq_left_iff] at hparse
      -- it was refused, so one of the sides is empty
      have hempty : key = "" ∨ value = "" := by
        by_contra hfilled
        cases hparse hfilled
      rcases hempty with rfl | rfl
      · rw [argument, String.empty_append]
        exact .noKey value
      · rw [argument, String.append_empty]
        exact .noValue hkey
    · exact .noSign hsign
  · intro hmalformed
    cases hmalformed with
    | noSign hsign => exact parse?_of_not_mem hsign
    | noKey value =>
      have hrefused : parse? (argument ⟨"", value⟩) = none := by
        rw [parse?_argument (by simp), if_pos (.inl rfl)]
      rwa [argument, String.empty_append] at hrefused
    | noValue hkey =>
      have hrefused := parse?_argument (b := ⟨_, ""⟩) hkey
      rwa [argument, String.append_empty, if_pos (.inr rfl)] at hrefused

example : ["unit", "=x", "unit=", "=", ""].filterMap parse? = [] := by decide

theorem parse_eq_ok_iff : parse text = .ok b ↔ b.Spells text := by
  rw [← parse?_eq_some_iff, parse]
  cases parse? text <;> simp

theorem parse_eq_error_iff {f : Failure} :
    parse text = .error f ↔ Malformed text ∧ f = .malformedBinding text := by
  rw [← parse?_eq_none_iff, parse]
  cases parse? text <;> simp [eq_comm]

end Binding

/-! ## Builders -/

/-- A new set of locators differs from the former one by a binding.  If its key is that of a
coordinate, the coordinate wins over it. -/
structure Rebinds (former : Locators) (key value : String) (new : Locators) : Prop where
  get?_key : (∀ c : Coordinate, key ≠ c.key) → new.get? key = some value
  get?_coordinate : ∀ c : Coordinate, new.get? c.key = former.get? c.key
  get?_of_ne : ∀ key', key' ≠ key → new.get? key' = former.get? key'

/-- The same where the sets may be refused: a binding does not change that, nor the reason. -/
inductive Rebound (key value : String) : Except Failure Locators → Except Failure Locators → Prop
  | refused (f : Failure) : Rebound key value (.error f) (.error f)
  | built {former new : Locators} : Rebinds former key value new →
      Rebound key value (.ok former) (.ok new)

theorem Rebound.exists_built {key value : String} {former : Locators}
    {outcome : Except Failure Locators} (h : Rebound key value (.ok former) outcome) :
    ∃ new, outcome = .ok new ∧ Rebinds former key value new := by
  cases h with
  | built h => exact ⟨_, rfl, h⟩

namespace Builder

theorem coordinate_bind (b : Builder) (key value : String) :
    (b.bind key value).coordinate = b.coordinate :=
  funext (b.coordinate_bindAll [(key, value)])

theorem rebinds_of_build {b : Builder} {key value : String} {former new : Locators}
    (h : b.build = .ok former) (hnew : (b.bind key value).build = .ok new) :
    Rebinds former key value new := by
  have hget? : ∀ k, former.get? k = b.settled.get? k := fun k => by
    rw [Locators.get?, values_of_build h]
  have hget?New : ∀ k, new.get? k = (b.bind key value).settled.get? k := fun k => by
    rw [Locators.get?, values_of_build hnew]
  have hcoordinate : ∀ c : Coordinate, new.get? c.key = former.get? c.key := fun c => by
    rw [hget?, hget?New, get?_settled_key, get?_settled_key, coordinate_bind]
  refine ⟨fun hkey => ?_, hcoordinate, fun k hk => ?_⟩
  · rw [hget?New, get?_settled_of_ne _ hkey, bind, OrderedMap.get?_insert, if_pos rfl]
  · by_cases hfree : ∀ c : Coordinate, k ≠ c.key
    · rw [hget?, hget?New, get?_settled_of_ne _ hfree, get?_settled_of_ne _ hfree, bind,
        OrderedMap.get?_insert, if_neg hk]
    · obtain ⟨c, hc⟩ := not_forall.1 hfree
      rw [not_not.1 hc]
      exact hcoordinate c

/-- Binding a key changes neither whether a set is built nor anything in it but that key. -/
theorem rebound_bind (b : Builder) (key value : String) :
    Rebound key value b.build (b.bind key value).build := by
  have hrefused : ∀ f, (b.bind key value).build = .error f ↔ b.build = .error f := fun f => by
    rw [build_eq_error_iff, build_eq_error_iff, coordinate_bind]
  cases h : b.build with
  | error f =>
    rw [(hrefused f).2 h]
    exact .refused f
  | ok former =>
    cases hnew : (b.bind key value).build with
    | error f =>
      rw [(hrefused f).1 hnew] at h
      cases h
    | ok new => exact .built (rebinds_of_build h hnew)

theorem apply_argument {binding : Binding} {text : String} (h : binding.Spells text)
    (b : Builder) : b.apply (.argument text) = .ok (b.bind binding.key binding.value) := by
  rw [apply, Binding.parse_eq_ok_iff.2 h]
  rfl

end Builder

/-- **Reading undoes joining.**  Exactly the bindings that a text spells are read from it, of which
there is at most one; a text without an equals sign, or with its first one at either end, is refused
with the text, and no other is.  To a builder a text is the binding it spells, which changes nothing
but its own key in the set that is built. -/
theorem Binding.parse_inverts_argument (text : String) :
    (∀ b, parse text = .ok b ↔ b.Spells text) ∧
    (∀ b b' : Binding, b.Spells text → b'.Spells text → b = b') ∧
    (∀ f, parse text = .error f ↔ Malformed text ∧ f = .malformedBinding text) ∧
    (∀ b : Binding, b.Spells text → ∀ builder : Builder,
      builder.apply (.argument text) = builder.apply (.binding b.key b.value) ∧
      ∃ builder', builder.apply (.argument text) = .ok builder' ∧
        Rebound b.key b.value builder.build builder'.build) := by
  refine ⟨fun b => parse_eq_ok_iff, fun b b' h h' => h.eq h', fun f => parse_eq_error_iff,
    fun b h builder => ?_⟩
  have happly := builder.apply_argument h
  exact ⟨happly, builder.bind b.key b.value, happly, builder.rebound_bind b.key b.value⟩

/-! ### Many signs -/

namespace ManySigns

/-- All signs after the first belong to the value. -/
def condition : Binding := ⟨"expr", "=a="⟩

theorem condition_spelled : condition.Spells "expr==a=" := by decide

/-- A builder to which only the unit was given. -/
def former : Builder := Builder.initial.bind unit "x"

theorem former_built : ∃ locators, former.build = .ok locators ∧ locators.get? unit = some "x" :=
  ⟨_, rfl, rfl⟩

/-- Of three signs the first one joins.  Where it stands in front, further ones do not help. -/
theorem first_sign_joins :
    Binding.parse "expr==a=" = .ok condition ∧
    Binding.parse "expr==a=" ≠ .ok ⟨"expr=", "a="⟩ ∧
    Binding.parse "=a=b" = .error (.malformedBinding "=a=b") ∧
    ∃ b new, former.apply (.argument "expr==a=") = .ok b ∧ b.build = .ok new ∧
      new.get? "expr" = some "=a=" ∧ new.get? unit = some "x" := by
  obtain ⟨hread, -, -, hbuilder⟩ := Binding.parse_inverts_argument "expr==a="
  obtain ⟨-, -, hrefused, -⟩ := Binding.parse_inverts_argument "=a=b"
  obtain ⟨locators, hformer, hunit⟩ := former_built
  obtain ⟨-, b, hb, hrebound⟩ := hbuilder condition condition_spelled former
  rw [hformer] at hrebound
  obtain ⟨new, hnew, hrebinds⟩ := hrebound.exists_built
  refine ⟨(hread _).2 condition_spelled, fun h => absurd ((hread _).1 h) (by decide),
    (hrefused _).2 ⟨.noKey "a=b", rfl⟩, b, new, hb, hnew, hrebinds.get?_key ?_, ?_⟩
  · intro c
    cases c <;> decide
  · rw [hrebinds.get?_of_ne unit (by decide), hunit]

end ManySigns

end Locator
end GrantCompiler
