import GrantCompiler.Proofs.CommandLine.Arguments
import GrantCompiler.Proofs.Interleaving

/-!
# What arguments spell

Options are used one after the other, and each use is spelled by one argument or two.  `Spelled`
says which arguments spell which uses, and does not say how they are read.

* `Use.Spells` — the spellings of one use.
* `Spelled.all_eq_ok_iff` — reading a spelling comes to the uses, taken in order.
* `Reading.exists_spelled` — there is no other way for arguments to be accepted.
-/

set_option autoImplicit false

namespace GrantCompiler
namespace CommandLine

/-! ## Uses of options -/

/-- One use of an option. -/
inductive Use
  | parameter (p : Parameter) (value : String)
  | switch (switch : Switch)

/-- Sets what a use asks for. -/
def Settings.use (s : Settings) : Use → Except Stop Settings
  | .parameter p value => s.set p value
  | .switch switch => s.switch switch

/-- The arguments that spell a use.  The switches with a letter are left out: they end everything,
so that arguments with one of them are never accepted. -/
inductive Use.Spells : Use → List String → Prop
  | longApart {name : String} {p : Parameter} {value : String} : parameterOfName? name = some p →
      IsValue value → Spells (.parameter p value) ["--" ++ name, value]
  | longAttached {name : String} {p : Parameter} {value : String} :
      parameterOfName? name = some p → Spells (.parameter p value) ["--" ++ name ++ "=" ++ value]
  | shortApart {c : Char} {p : Parameter} {value : String} : parameterOfLetter? c = some p →
      IsValue value → Spells (.parameter p value) ["-" ++ c.toString, value]
  | shortEquals {c : Char} {p : Parameter} {value : String} : parameterOfLetter? c = some p →
      Spells (.parameter p value) ["-" ++ c.toString ++ "=" ++ value]
  | shortAttached {c first : Char} {p : Parameter} {rest : List Char} :
      parameterOfLetter? c = some p → first ≠ '=' →
      Spells (.parameter p (String.ofList (first :: rest)))
        ["-" ++ c.toString ++ String.ofList (first :: rest)]
  | switch {name : String} {x : Switch} : switchOfName? name = some x →
      Spells (.switch x) ["--" ++ name]

/-- The arguments that spell uses in order.  Two dashes may end them. -/
inductive Spelled : List Use → List String → Prop
  | nil : Spelled [] []
  | dashes : Spelled [] ["--"]
  | cons {u : Use} {group : List String} {uses : List Use} {rest : List String} :
      u.Spells group → Spelled uses rest → Spelled (u :: uses) (group ++ rest)

/-! ## Names of options -/

theorem not_mem_of_parameterOfName? {name : String} {p : Parameter}
    (h : parameterOfName? name = some p) : '=' ∉ name.toList := by
  unfold parameterOfName? at h
  split at h <;> first | decide | cases h

theorem not_mem_of_switchOfName? {name : String} {x : Switch} (h : switchOfName? name = some x) :
    '=' ∉ name.toList := by
  unfold switchOfName? at h
  split at h <;> first | decide | cases h

theorem parameterOfName?_of_switchOfName? {name : String} {x : Switch}
    (h : switchOfName? name = some x) : parameterOfName? name = none := by
  unfold switchOfName? at h
  split at h <;> first | rfl | cases h

namespace Reading

variable {r r' : Reading} {s s' : Settings}

/-! ## Reading a spelling -/

theorem long_apart {name : String} {p : Parameter} (h : parameterOfName? name = some p)
    (r : Reading) : r.long name.toList = r.parameter p none := by
  have hname := ne_of_not_mem (not_mem_of_parameterOfName? h)
  rw [long, List.takeWhile_eq_self_iff.2 hname, List.dropWhile_eq_nil_iff.2 hname,
    String.ofList_toList, h]

theorem long_attached {name : String} {p : Parameter} (h : parameterOfName? name = some p)
    (r : Reading) (value : String) :
    r.long (name.toList ++ '=' :: value.toList) = r.parameter p (some value) := by
  have hname := not_mem_of_parameterOfName? h
  rw [long, takeWhile_side hname, dropWhile_side hname, String.ofList_toList, h]
  simp only [String.ofList_toList]

theorem long_switch {name : String} {x : Switch} (h : switchOfName? name = some x)
    (r : Reading) : r.long name.toList = r.switch x := by
  have hname := ne_of_not_mem (not_mem_of_switchOfName? h)
  rw [long, List.takeWhile_eq_self_iff.2 hname, List.dropWhile_eq_nil_iff.2 hname,
    String.ofList_toList, h, parameterOfName?_of_switchOfName? h]

theorem argument_long (r : Reading) (word : String) :
    r.argument ("--" ++ word) = r.long word.toList := by
  rw [Reading.argument, String.toList_append]
  rfl

theorem argument_short (r : Reading) {c : Char} (hc : c ≠ '-') (letters : String) :
    r.argument ("-" ++ c.toString ++ letters) = r.short (c :: letters.toList) := by
  have hword : ("-" ++ c.toString ++ letters).toList = '-' :: c :: letters.toList := by
    simp [String.toList_append]
  rw [Reading.argument, hword]
  split
  next heq => simp only [List.cons.injEq, true_and] at heq; exact absurd heq.1 hc
  next heq => simp only [List.cons.injEq, true_and] at heq; rw [heq.1, heq.2]
  next hno => exact absurd rfl (hno c letters.toList)

/-- Takes up a use that is spelled by one argument. -/
def takeUp (r : Reading) : Use → Except Stop Reading
  | .parameter p value => r.parameter p (some value)
  | .switch x => r.switch x

theorem takeUp_settled (s : Settings) (u : Use) :
    (⟨s, none⟩ : Reading).takeUp u = (s.use u).map (⟨·, none⟩) := by
  cases u with
  | parameter p value =>
    show (s.set p value >>= fun t => _) = (s.set p value).map _
    cases s.set p value <;> rfl
  | switch x =>
    show (s.switch x >>= fun t => _) = (s.switch x).map _
    cases s.switch x <;> rfl

end Reading

theorem ne_dash_of_parameterOfLetter? {c : Char} {p : Parameter}
    (h : parameterOfLetter? c = some p) : c ≠ '-' := by
  rintro rfl
  cases h

theorem long_ne_dashes {word : String} (h : word ≠ "") : "--" ++ word ≠ "--" := by
  intro heq
  have hnil : word.toList = [] := by simpa [String.toList_append] using congrArg String.toList heq
  exact h (String.toList_inj.1 hnil)

theorem short_ne_dashes {c : Char} (h : c ≠ '-') (letters : String) :
    "-" ++ c.toString ++ letters ≠ "--" := by
  intro heq
  have hlist := congrArg String.toList heq
  simp [String.toList_append, h] at hlist

/-- A use is spelled by an argument of its own or by one before its value. -/
theorem Use.Spells.cases {u : Use} {group : List String} (h : u.Spells group) :
    (∃ a, group = [a] ∧ a ≠ "--" ∧ ∀ r : Reading, r.argument a = r.takeUp u) ∨
      ∃ a p value, group = [a, value] ∧ u = .parameter p value ∧ a ≠ "--" ∧ IsValue value ∧
        ∀ r : Reading, r.argument a = r.parameter p none := by
  cases h with
  | longApart hname hvalue =>
    refine .inr ⟨_, _, _, rfl, rfl, long_ne_dashes ?_, hvalue, fun r => ?_⟩
    · rintro rfl; cases hname
    · rw [r.argument_long, Reading.long_apart hname]
  | @longAttached name p value hname =>
    refine .inl ⟨_, rfl, ?_, fun r => ?_⟩
    · rw [String.append_assoc, String.append_assoc]
      refine long_ne_dashes fun heq => ?_
      have hlist := congrArg String.toList heq
      simp [String.toList_append] at hlist
    · rw [String.append_assoc, String.append_assoc, r.argument_long, String.toList_append,
        String.toList_append]
      exact Reading.long_attached hname r value
  | @shortApart c p value hletter hvalue =>
    have hc := ne_dash_of_parameterOfLetter? hletter
    refine .inr ⟨_, _, _, rfl, rfl, ?_, hvalue, fun r => ?_⟩
    · simpa using short_ne_dashes hc ""
    · have hread := r.argument_short hc ""
      rw [String.append_empty] at hread
      rw [hread, String.toList_empty, Reading.short, hletter]
  | @shortEquals c p value hletter =>
    have hc := ne_dash_of_parameterOfLetter? hletter
    refine .inl ⟨_, rfl, ?_, fun r => ?_⟩
    · rw [String.append_assoc]
      exact short_ne_dashes hc _
    · rw [String.append_assoc, r.argument_short hc, String.toList_append]
      show r.short (c :: '=' :: value.toList) = _
      rw [Reading.short, hletter]
      simp only [String.ofList_toList]
      rfl
  | @shortAttached c first p rest hletter hfirst =>
    have hc := ne_dash_of_parameterOfLetter? hletter
    refine .inl ⟨_, rfl, short_ne_dashes hc _, fun r => ?_⟩
    rw [r.argument_short hc, String.toList_ofList, Reading.short, hletter]
    simp only
    split
    next heq => cases heq
    next heq => cases heq; exact absurd rfl hfirst
    next => rfl
  | switch hname =>
    refine .inl ⟨_, rfl, long_ne_dashes ?_, fun r => ?_⟩
    · rintro rfl; cases hname
    · rw [r.argument_long, Reading.long_switch hname]
      rfl

/-! ## Reading on -/

namespace Reading

variable {r r' : Reading} {s s' : Settings}

theorem exists_settle_of_parameter {p : Parameter} {attached : Option String}
    (h : r.parameter p attached = .ok r') : ∃ t, r.settle = .ok t := by
  obtain ⟨t, ht, -⟩ := bind_eq_ok_iff.1 h
  exact ⟨t, ht⟩

theorem exists_settle_of_switch {x : Switch} (h : r.switch x = .ok r') :
    ∃ t, r.settle = .ok t := by
  obtain ⟨t, ht, -⟩ := bind_eq_ok_iff.1 h
  exact ⟨t, ht⟩

theorem exists_settle_of_long {word : List Char} (h : r.long word = .ok r') :
    ∃ t, r.settle = .ok t := by
  rw [long] at h
  split at h
  next => exact exists_settle_of_parameter h
  next => exact exists_settle_of_switch h
  next => cases h

theorem exists_settle_of_short {c : Char} {letters : List Char}
    (h : r.short (c :: letters) = .ok r') : ∃ t, r.settle = .ok t := by
  rw [short] at h
  split at h
  next => split at h <;> exact exists_settle_of_parameter h
  next =>
    obtain ⟨t, ht, -⟩ := bind_eq_ok_iff.1 h
    exact exists_settle_of_switch ht
  next => cases h

/-- Where an option is taken up, the value before it has been judged and accepted. -/
theorem exists_settle_of_argument {argument : String} (hoption : ¬ IsValue argument)
    (h : r.argument argument = .ok r') : ∃ t, r.settle = .ok t := by
  rw [Reading.argument] at h
  split at h
  next => exact exists_settle_of_long h
  next => exact exists_settle_of_short h
  next hshape => exact absurd hshape hoption

/-- A value that has come is judged in the end. -/
theorem exists_settle_of_all {p : Parameter} {value : String} {arguments : List String}
    (hpending : r.pending = some (p, some value)) (h : r.all arguments = .ok s') :
    ∃ t, r.settle = .ok t ∧ (⟨t, none⟩ : Reading).all arguments = .ok s' := by
  cases arguments with
  | nil => exact ⟨s', h, rfl⟩
  | cons argument rest =>
    by_cases hdashes : argument = "--"
    · subst hdashes
      rw [all_dashes] at h
      split at h
      next hrest => exact ⟨s', h, by rw [all_dashes, if_pos hrest]; rfl⟩
      next => cases h
    · rw [all_cons _ rest hdashes] at h
      obtain ⟨r', hr', h⟩ := bind_eq_ok_iff.1 h
      by_cases hvalue : IsValue argument
      · -- there is a value already
        rw [r.argument_value hvalue, Reading.value, hpending] at hr'
        cases hr'
      · obtain ⟨t, ht⟩ := exists_settle_of_argument hvalue hr'
        refine ⟨t, ht, ?_⟩
        rw [all_cons _ rest hdashes, ← argument_settled hvalue ht, hr']
        exact h

/-- A value in an argument of its own may as well be judged at once. -/
theorem all_pending_eq_ok_iff {p : Parameter} {value : String} {arguments : List String} :
    (⟨s, some (p, some value)⟩ : Reading).all arguments = .ok s' ↔
      ∃ t, s.set p value = .ok t ∧ (⟨t, none⟩ : Reading).all arguments = .ok s' := by
  refine ⟨exists_settle_of_all rfl, ?_⟩
  rintro ⟨t, ht, h⟩
  exact all_of_settle ht h

/-- Reading the spelling of a use sets what it asks for. -/
theorem all_append_eq_ok_iff {u : Use} {group rest : List String} (h : u.Spells group) :
    (⟨s, none⟩ : Reading).all (group ++ rest) = .ok s' ↔
      ∃ t, s.use u = .ok t ∧ (⟨t, none⟩ : Reading).all rest = .ok s' := by
  rcases h.cases with ⟨a, rfl, hne, hread⟩ | ⟨a, p, value, rfl, rfl, hne, hvalue, hread⟩
  · rw [List.singleton_append, all_cons _ rest hne, hread, takeUp_settled, bind_eq_ok_iff]
    simp only [map_eq_ok_iff]
    refine ⟨?_, ?_⟩
    · rintro ⟨-, ⟨t, ht, rfl⟩, h⟩
      exact ⟨t, ht, h⟩
    · rintro ⟨t, ht, h⟩
      exact ⟨_, ⟨t, ht, rfl⟩, h⟩
  · have hdashes : value ≠ "--" := by
      rintro rfl
      exact hvalue '-' [] rfl
    have hpair : (⟨s, none⟩ : Reading).all ([a, value] ++ rest) =
        (⟨s, some (p, some value)⟩ : Reading).all rest := by
      rw [List.cons_append, List.singleton_append, all_cons _ _ hne, hread]
      show (⟨s, some (p, none)⟩ : Reading).all (value :: rest) = _
      rw [all_cons _ rest hdashes, argument_value _ hvalue]
      rfl
    rw [hpair]
    exact all_pending_eq_ok_iff

end Reading

/-- **Reading a spelling.**  Arguments are accepted if the uses that they spell can be made in
order, and ask for what these set. -/
theorem Spelled.all_eq_ok_iff {uses : List Use} {arguments : List String}
    (h : Spelled uses arguments) {s s' : Settings} :
    (⟨s, none⟩ : Reading).all arguments = .ok s' ↔ uses.foldlM Settings.use s = .ok s' := by
  induction h generalizing s with
  | nil => rfl
  | dashes => rfl
  | cons hspells _ ih =>
    rw [Reading.all_append_eq_ok_iff hspells, foldlM_cons_eq_ok_iff]
    simp only [ih]

/-! ## Arguments that are accepted -/

/-- Where an argument leads that is taken up as an option: it spells a use, or it awaits a value. -/
inductive Opens (s : Settings) (argument : String) : Reading → Prop
  | whole {u : Use} (t : Settings) : u.Spells [argument] → Opens s argument ⟨t, none⟩
  | waiting {p : Parameter} :
      (∀ value, IsValue value → (Use.parameter p value).Spells [argument, value]) →
      Opens s argument ⟨s, some (p, none)⟩

namespace Reading

variable {r' : Reading} {s : Settings}

theorem exists_takeUp {u : Use} (h : (⟨s, none⟩ : Reading).takeUp u = .ok r') :
    ∃ t, r' = ⟨t, none⟩ := by
  rw [takeUp_settled] at h
  obtain ⟨t, -, ht⟩ := map_eq_ok_iff.1 h
  exact ⟨t, ht.symm⟩

theorem opens_of_long {word : String} (h : (⟨s, none⟩ : Reading).long word.toList = .ok r') :
    Opens s ("--" ++ word) r' := by
  rw [long] at h
  cases hdrop : word.toList.dropWhile (· != '=') with
  | nil =>
    have hname : word.toList.takeWhile (· != '=') = word.toList :=
      (eq_of_takeWhile_eq rfl hdrop).symm
    rw [hdrop, hname, String.ofList_toList] at h
    cases hparameter : parameterOfName? word with
    | some p =>
      rw [hparameter] at h
      cases h
      exact .waiting fun value hvalue => .longApart hparameter hvalue
    | none =>
      rw [hparameter] at h
      cases hswitch : switchOfName? word with
      | some x =>
        rw [hswitch] at h
        obtain ⟨t, rfl⟩ := exists_takeUp (u := .switch x) h
        exact .whole t (.switch hswitch)
      | none => rw [hswitch] at h; cases h
  | cons c value =>
    have hword : word = String.ofList (word.toList.takeWhile (· != '=')) ++
        ("=" ++ String.ofList value) := by
      refine String.toList_inj.1 ((eq_takeWhile_append hdrop).trans ?_)
      simp [String.toList_append]
    rw [hdrop] at h
    generalize String.ofList (word.toList.takeWhile (· != '=')) = name at h hword
    cases hparameter : parameterOfName? name with
    | some p =>
      rw [hparameter] at h
      obtain ⟨t, rfl⟩ := exists_takeUp (u := .parameter p (String.ofList value)) h
      rw [hword, ← String.append_assoc, ← String.append_assoc]
      exact .whole t (.longAttached hparameter)
    | none =>
      -- a switch takes no value
      cases hswitch : switchOfName? name <;> rw [hparameter, hswitch] at h <;> cases h

/-- A switch that has a letter ends everything. -/
theorem switch_ne_ok {c : Char} {x : Switch} (h : switchOfLetter? c = some x) (r : Reading) :
    r.switch x ≠ .ok r' := by
  intro hok
  obtain ⟨t, -, hok⟩ := bind_eq_ok_iff.1 hok
  obtain ⟨t', hswitch, -⟩ := bind_eq_ok_iff.1 hok
  unfold switchOfLetter? at h
  split at h
  next => cases h; cases hswitch
  next => cases h; cases hswitch
  next => cases h

theorem opens_of_short {c : Char} {letters : String}
    (h : (⟨s, none⟩ : Reading).short (c :: letters.toList) = .ok r') :
    Opens s ("-" ++ c.toString ++ letters) r' := by
  rw [short] at h
  cases hletter : parameterOfLetter? c with
  | none =>
    rw [hletter] at h
    cases hswitch : switchOfLetter? c with
    | none => rw [hswitch] at h; cases h
    | some x =>
      rw [hswitch] at h
      obtain ⟨t, ht, -⟩ := bind_eq_ok_iff.1 h
      exact absurd ht (switch_ne_ok hswitch _)
  | some p =>
    rw [hletter] at h
    simp only at h
    split at h
    next hnil =>
      cases h
      obtain rfl : letters = "" := String.toList_inj.1 hnil
      rw [String.append_empty]
      exact .waiting fun value hvalue => .shortApart hletter hvalue
    next value hequals =>
      obtain ⟨t, rfl⟩ := exists_takeUp (u := .parameter p (String.ofList value)) h
      have hletters : letters = "=" ++ String.ofList value := by
        refine String.toList_inj.1 (hequals.trans ?_)
        simp [String.toList_append]
      rw [hletters, ← String.append_assoc]
      exact .whole t (.shortEquals hletter)
    next hnil hequals =>
      obtain ⟨t, rfl⟩ := exists_takeUp (u := .parameter p (String.ofList letters.toList)) h
      obtain ⟨first, rest, hletters⟩ := List.exists_cons_of_ne_nil hnil
      have hfirst : first ≠ '=' := by
        rintro rfl
        exact hequals rest hletters
      rw [← String.ofList_toList (s := letters), hletters]
      exact .whole t (.shortAttached hletter hfirst)

/-- An option that is taken up where nothing is pending. -/
theorem opens_of_argument {argument : String} (hoption : ¬ IsValue argument)
    (h : (⟨s, none⟩ : Reading).argument argument = .ok r') : Opens s argument r' := by
  rw [Reading.argument] at h
  split at h
  next word hword =>
    have hargument : argument = "--" ++ String.ofList word :=
      String.toList_inj.1 (hword.trans (by simp [String.toList_append]))
    rw [hargument]
    rw [← String.toList_ofList (l := word)] at h
    exact opens_of_long h
  next c letters _ hword =>
    have hargument : argument = "-" ++ c.toString ++ String.ofList letters :=
      String.toList_inj.1 (hword.trans (by simp [String.toList_append]))
    rw [hargument]
    rw [← String.toList_ofList (l := letters)] at h
    exact opens_of_short h
  next hshape => exact absurd hshape hoption

/-- Where a value is waited for, it comes next. -/
theorem exists_value_of_all {p : Parameter} {arguments : List String} {s' : Settings}
    (h : (⟨s, some (p, none)⟩ : Reading).all arguments = .ok s') :
    ∃ value rest, arguments = value :: rest ∧ IsValue value ∧
      (⟨s, some (p, some value)⟩ : Reading).all rest = .ok s' := by
  cases arguments with
  | nil => cases h
  | cons argument rest =>
    by_cases hdashes : argument = "--"
    · subst hdashes
      rw [all_dashes] at h
      split at h <;> cases h
    · rw [all_cons _ rest hdashes] at h
      obtain ⟨r', hr', h⟩ := bind_eq_ok_iff.1 h
      by_cases hvalue : IsValue argument
      · rw [argument_value _ hvalue] at hr'
        cases hr'
        exact ⟨argument, rest, rfl, hvalue, h⟩
      · obtain ⟨t, ht⟩ := exists_settle_of_argument hvalue hr'
        cases ht

/-- **Arguments that are accepted spell uses of options.** -/
theorem exists_spelled {s s' : Settings} : ∀ {arguments : List String},
    (⟨s, none⟩ : Reading).all arguments = .ok s' → ∃ uses, Spelled uses arguments
  | [], _ => ⟨[], .nil⟩
  | argument :: rest, h => by
    by_cases hdashes : argument = "--"
    · subst hdashes
      rw [all_dashes] at h
      split at h
      next hrest => rw [List.isEmpty_iff.1 hrest]; exact ⟨[], .dashes⟩
      next => cases h
    rw [all_cons _ rest hdashes] at h
    obtain ⟨r', hr', h⟩ := bind_eq_ok_iff.1 h
    have hoption : ¬ IsValue argument := by
      intro hvalue
      rw [argument_value _ hvalue] at hr'
      cases hr'
    cases opens_of_argument hoption hr' with
    | whole t hspells =>
      obtain ⟨uses, huses⟩ := exists_spelled h
      exact ⟨_, .cons hspells huses⟩
    | waiting hspells =>
      obtain ⟨value, after, rfl, hvalue, h⟩ := exists_value_of_all h
      obtain ⟨t, -, h⟩ := all_pending_eq_ok_iff.1 h
      obtain ⟨uses, huses⟩ := exists_spelled h
      exact ⟨_, .cons (hspells value hvalue) huses⟩
  termination_by arguments => arguments.length

end Reading

end CommandLine
end GrantCompiler
