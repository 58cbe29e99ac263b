import GrantCompiler.Proofs.CommandLine.Options
import GrantCompiler.Proofs.Separator

/-!
# The switch that makes a run strict

Arguments are read from left to right, and most of them say nothing about being strict: reading them
leaves that setting alone and does not look at it.  So `--strict` may stand anywhere among the
arguments where an option may, with the same effect.

* `Reading.argument` — reading one argument; `Reading.all` takes them one by one
  (`Reading.all_cons`).
* `Reading.all_withStrict` — what `--strict` sets passes through all other arguments.
* `Settings.parse_insert_strict` — arguments that are accepted with `--strict` among them are
  accepted without, and ask for the same but to be strict.
* `Settings.parse_strict_cons` — arguments that are accepted without `--strict` are accepted with it
  in front.
-/

set_option autoImplicit false

namespace GrantCompiler
namespace CommandLine

namespace Settings

variable {s : Settings} {b : Bool}

/-- The same settings, strict or not. -/
def withStrict (s : Settings) (strict : Bool) : Settings := { s with strict }

@[simp] theorem strict_withStrict : (s.withStrict b).strict = b := rfl

@[simp] theorem withStrict_withStrict {c : Bool} :
    (s.withStrict b).withStrict c = s.withStrict c := rfl

theorem withStrict_of_eq (h : s.strict = b) : s.withStrict b = s := by
  subst h
  rfl

/-- No parameter has to do with being strict. -/
theorem set_withStrict (s : Settings) (b : Bool) (p : Parameter) (value : String) :
    (s.withStrict b).set p value = (s.set p value).map (·.withStrict b) :=
  set_withOption s (initial.withStrict b) (o := .inr .strict) nofun value

theorem switch_withStrict (s : Settings) (b : Bool) {switch : Switch} (h : switch ≠ .strict) :
    (s.withStrict b).switch switch = (s.switch switch).map (·.withStrict b) :=
  switch_withOption s (initial.withStrict b) (o := .inr .strict) fun heq => h (Sum.inr.inj heq).symm

end Settings

/-- An argument that does not look like an option, so that it may be a value. -/
def IsValue (argument : String) : Prop :=
  ∀ c letters, argument.toList ≠ '-' :: c :: letters

namespace Reading

variable {r : Reading} {b : Bool}

/-- The same for what has been read so far. -/
def withStrict (r : Reading) (strict : Bool) : Reading :=
  { r with settings := r.settings.withStrict strict }

theorem withStrict_of_eq (h : r.settings.strict = b) : r.withStrict b = r := by
  rw [withStrict, Settings.withStrict_of_eq h]

/-! ## One argument -/

theorem settle_withStrict (r : Reading) (b : Bool) :
    (r.withStrict b).settle = r.settle.map (·.withStrict b) := by
  obtain ⟨s, pending⟩ := r
  cases pending with
  | none => rfl
  | some waiting =>
    obtain ⟨p, value⟩ := waiting
    cases value with
    | none => rfl
    | some value => exact s.set_withStrict b p value

theorem parameter_withStrict (r : Reading) (b : Bool) (p : Parameter) (attached : Option String) :
    (r.withStrict b).parameter p attached = (r.parameter p attached).map (·.withStrict b) := by
  rw [parameter, parameter, settle_withStrict]
  refine map_bind_eq_map_bind fun s => ?_
  cases attached with
  | none => rfl
  | some value =>
    show (s.withStrict b).set p value >>= _ = Except.map _ (s.set p value >>= _)
    rw [s.set_withStrict]
    exact map_bind_eq_map_bind fun _ => rfl

theorem switch_withStrict (r : Reading) (b : Bool) {switch : Switch} (h : switch ≠ .strict) :
    (r.withStrict b).switch switch = (r.switch switch).map (·.withStrict b) := by
  rw [Reading.switch, Reading.switch, settle_withStrict]
  refine map_bind_eq_map_bind fun s => ?_
  rw [s.switch_withStrict b h]
  exact map_bind_eq_map_bind fun _ => rfl

theorem short_withStrict (r : Reading) (b : Bool) (letters : List Char) :
    (r.withStrict b).short letters = (r.short letters).map (·.withStrict b) := by
  induction letters generalizing r with
  | nil => rfl
  | cons c rest ih =>
    rw [short, short]
    cases parameterOfLetter? c with
    | some p =>
      simp only
      split <;> exact r.parameter_withStrict b p _
    | none =>
      cases hswitch : switchOfLetter? c with
      | none => rfl
      | some switch =>
        have hne : switch ≠ .strict := by
          rintro rfl
          unfold switchOfLetter? at hswitch
          split at hswitch <;> cases hswitch
        simp only
        rw [r.switch_withStrict b hne]
        exact map_bind_eq_map_bind ih

theorem switchOfName?_eq_strict {name : String} (h : switchOfName? name = some .strict) :
    name = "strict" := by
  unfold switchOfName? at h
  split at h
  next => cases h
  next => rfl
  next => cases h
  next => cases h
  next => cases h

theorem long_withStrict (r : Reading) (b : Bool) {word : List Char}
    (h : word ≠ "strict".toList) :
    (r.withStrict b).long word = (r.long word).map (·.withStrict b) := by
  rw [long, long]
  split
  next p _ => exact r.parameter_withStrict b p _
  next switch _ hswitch hattached =>
    refine r.switch_withStrict b ?_
    rintro rfl
    refine h (eq_of_takeWhile_eq ?_ ?_)
    · rw [← switchOfName?_eq_strict hswitch, String.toList_ofList]
    · split at hattached
      next => cases hattached
      next hrest => exact hrest
  next => rfl

theorem value_withStrict (r : Reading) (b : Bool) (argument : String) :
    (r.withStrict b).value argument = (r.value argument).map (·.withStrict b) := by
  obtain ⟨s, pending⟩ := r
  cases pending with
  | none => rfl
  | some waiting =>
    obtain ⟨p, held⟩ := waiting
    cases held <;> rfl

/-- Takes up one argument that does not end the options. -/
def argument (r : Reading) (argument : String) : Except Stop Reading :=
  match argument.toList with
  | '-' :: '-' :: word => r.long word
  | '-' :: c :: letters => r.short (c :: letters)
  | _ => r.value argument

theorem argument_value (r : Reading) {argument : String} (h : IsValue argument) :
    r.argument argument = r.value argument := by
  rw [Reading.argument]
  split
  next hword => exact absurd hword (h '-' _)
  next hword => exact absurd hword (h _ _)
  next => rfl

theorem argument_withStrict (r : Reading) (b : Bool) {argument : String}
    (h : argument ≠ "--strict") :
    (r.withStrict b).argument argument = (r.argument argument).map (·.withStrict b) := by
  rw [Reading.argument, Reading.argument]
  split
  next word hword =>
    refine r.long_withStrict b fun hstrict => h (String.toList_inj.1 ?_)
    rw [hword, hstrict]
    rfl
  next => exact r.short_withStrict b _
  next => exact r.value_withStrict b argument

theorem strict_of_argument {argument : String} {r' : Reading} (hne : argument ≠ "--strict")
    (h : r.argument argument = .ok r') : r'.settings.strict = r.settings.strict := by
  have hsame := r.argument_withStrict r.settings.strict hne
  rw [withStrict_of_eq rfl, h] at hsame
  rw [Except.ok.inj hsame]
  rfl

theorem argument_strict (r : Reading) : r.argument "--strict" = r.switch .strict := rfl

theorem argument_strict_eq_ok {r' : Reading} (h : r.argument "--strict" = .ok r') :
    ∃ s, r.settle = .ok s ∧ s.strict = false ∧ r' = ⟨s.withStrict true, none⟩ := by
  rw [argument_strict] at h
  obtain ⟨s, hs, h⟩ := bind_eq_ok_iff.1 h
  obtain ⟨s', hs', h⟩ := bind_eq_ok_iff.1 h
  cases h
  unfold Settings.switch at hs'
  simp only at hs'
  split at hs'
  next => cases hs'
  next hstrict =>
    cases hs'
    exact ⟨s, hs, Bool.eq_false_iff.2 hstrict, rfl⟩

/-! ## All arguments -/

theorem all_cons {argument : String} (r : Reading) (rest : List String) (h : argument ≠ "--") :
    r.all (argument :: rest) = r.argument argument >>= (·.all rest) := by
  rw [all, Reading.argument]
  split
  next hword => exact absurd (String.toList_inj.1 hword) h
  next hword => rw [hword]; rfl
  next hword => simp only [hword]
  next => simp only

theorem all_dashes (r : Reading) (rest : List String) :
    r.all ("--" :: rest) = if rest.isEmpty then r.settle else .error .refused := rfl

theorem all_withStrict (r : Reading) (b : Bool) {arguments : List String}
    (h : "--strict" ∉ arguments) :
    (r.withStrict b).all arguments = (r.all arguments).map (·.withStrict b) := by
  induction arguments generalizing r with
  | nil => exact r.settle_withStrict b
  | cons argument rest ih =>
    rw [List.mem_cons, not_or] at h
    obtain ⟨hne, hrest⟩ := h
    by_cases hdashes : argument = "--"
    · subst hdashes
      rw [all_dashes, all_dashes, settle_withStrict]
      split <;> rfl
    · rw [all_cons _ rest hdashes, all_cons _ rest hdashes, r.argument_withStrict b (Ne.symm hne)]
      exact map_bind_eq_map_bind fun r' => ih r' hrest

theorem strict_of_all {arguments : List String} {s : Settings} (hmem : "--strict" ∉ arguments)
    (h : r.all arguments = .ok s) : s.strict = r.settings.strict := by
  have hsame := r.all_withStrict r.settings.strict hmem
  rw [withStrict_of_eq rfl, h] at hsame
  rw [Except.ok.inj hsame]
  rfl

/-- What is strict already cannot be made so once more. -/
theorem not_mem_of_all {arguments : List String} {s : Settings} (hstrict : r.settings.strict = true)
    (h : r.all arguments = .ok s) : "--strict" ∉ arguments := by
  induction arguments generalizing r with
  | nil => simp
  | cons argument rest ih =>
    by_cases hdashes : argument = "--"
    · subst hdashes
      rw [all_dashes] at h
      split at h
      next hempty => simp [List.isEmpty_iff.1 hempty]
      next => cases h
    · rw [all_cons _ rest hdashes] at h
      obtain ⟨r', hr', h⟩ := bind_eq_ok_iff.1 h
      by_cases hsame : argument = "--strict"
      · subst hsame
        obtain ⟨s', hs', hlenient, -⟩ := argument_strict_eq_ok hr'
        have hsettle := r.settle_withStrict true
        rw [withStrict_of_eq hstrict, hs'] at hsettle
        rw [Except.ok.inj hsettle] at hlenient
        cases hlenient
      · rw [List.mem_cons, not_or]
        exact ⟨Ne.symm hsame, ih ((strict_of_argument hsame hr').trans hstrict) h⟩

/-! ### A value that is judged early -/

theorem parameter_of_settle {s : Settings} (h : r.settle = .ok s) (p : Parameter)
    (attached : Option String) :
    r.parameter p attached = (⟨s, none⟩ : Reading).parameter p attached := by
  rw [parameter, parameter, h]
  rfl

theorem switch_of_settle {s : Settings} (h : r.settle = .ok s) (switch : Switch) :
    r.switch switch = (⟨s, none⟩ : Reading).switch switch := by
  rw [Reading.switch, Reading.switch, h]
  rfl

theorem long_of_settle {s : Settings} (h : r.settle = .ok s) (word : List Char) :
    r.long word = (⟨s, none⟩ : Reading).long word := by
  rw [long, long]
  split
  next p _ => exact parameter_of_settle h p _
  next switch _ _ _ => exact switch_of_settle h switch
  next => rfl

theorem short_of_settle {s : Settings} (h : r.settle = .ok s) (c : Char) (letters : List Char) :
    r.short (c :: letters) = (⟨s, none⟩ : Reading).short (c :: letters) := by
  rw [short, short]
  split
  next => split <;> exact parameter_of_settle h _ _
  next switch _ _ => rw [switch_of_settle h switch]
  next => rfl

/-- An option has the value before it judged, so it comes to the same to do that beforehand. -/
theorem argument_settled {argument : String} {s : Settings} (hoption : ¬ IsValue argument)
    (h : r.settle = .ok s) : r.argument argument = (⟨s, none⟩ : Reading).argument argument := by
  rw [Reading.argument, Reading.argument]
  split
  next => exact long_of_settle h _
  next => exact short_of_settle h _ _
  next hshape => exact absurd hshape hoption

theorem argument_of_settle {s : Settings} {argument : String} {r' : Reading}
    (hsettle : r.settle = .ok s) (h : (⟨s, none⟩ : Reading).argument argument = .ok r') :
    r.argument argument = .ok r' := by
  by_cases hvalue : IsValue argument
  · rw [argument_value _ hvalue] at h
    cases h
  · rwa [argument_settled hvalue hsettle]

theorem all_of_settle {arguments : List String} {s s' : Settings} (hsettle : r.settle = .ok s)
    (h : (⟨s, none⟩ : Reading).all arguments = .ok s') : r.all arguments = .ok s' := by
  cases arguments with
  | nil => exact hsettle.trans h
  | cons argument rest =>
    by_cases hdashes : argument = "--"
    · subst hdashes
      rw [all_dashes] at h ⊢
      split at h
      next hempty => rw [if_pos hempty]; exact hsettle.trans h
      next => cases h
    · rw [all_cons _ rest hdashes] at h ⊢
      obtain ⟨r', hr', h⟩ := bind_eq_ok_iff.1 h
      rw [argument_of_settle hsettle hr']
      exact h

/-! ### The switch -/

theorem all_insert_strict {before after : List String} {s : Settings}
    (h : r.all (before ++ "--strict" :: after) = .ok s) :
    s.strict = true ∧ r.all (before ++ after) = .ok (s.withStrict false) := by
  induction before generalizing r with
  | nil =>
    rw [List.nil_append, all_cons _ after (by decide)] at h
    obtain ⟨r', hr', h⟩ := bind_eq_ok_iff.1 h
    obtain ⟨s', hsettle, hlenient, rfl⟩ := argument_strict_eq_ok hr'
    have hmem : "--strict" ∉ after := not_mem_of_all rfl h
    -- what the switch has set passes through the rest
    have hrest := (⟨s', none⟩ : Reading).all_withStrict true hmem
    rw [withStrict, h] at hrest
    obtain ⟨lenient, hall, hs⟩ := map_eq_ok_iff.1 hrest.symm
    have hsame : lenient.strict = false := (strict_of_all hmem hall).trans hlenient
    subst hs
    rw [Settings.withStrict_withStrict, Settings.withStrict_of_eq hsame]
    exact ⟨rfl, all_of_settle hsettle hall⟩
  | cons argument before ih =>
    rw [List.cons_append] at h ⊢
    by_cases hdashes : argument = "--"
    · subst hdashes
      rw [all_dashes, if_neg (by simp)] at h
      cases h
    · rw [all_cons _ _ hdashes] at h
      obtain ⟨r', hr', h⟩ := bind_eq_ok_iff.1 h
      obtain ⟨hstrict, hall⟩ := ih h
      refine ⟨hstrict, ?_⟩
      rw [all_cons _ _ hdashes, hr']
      exact hall

theorem all_strict_cons {arguments : List String} {s : Settings} (hsettle : r.settle = .ok s)
    (hlenient : s.strict = false) :
    r.all ("--strict" :: arguments) =
      ((⟨s, none⟩ : Reading).withStrict true).all arguments := by
  have hswitch : s.switch .strict = .ok (s.withStrict true) := by
    rw [Settings.switch, hlenient]
    rfl
  rw [all_cons _ arguments (by decide), argument_strict, Reading.switch, hsettle]
  show (s.switch .strict >>= _) >>= _ = _
  rw [hswitch]
  rfl

end Reading

/-! ## Settings -/

namespace Settings

variable {s : Settings} {environmentLevel : Option String}

/-- Takes a log level that has been left open from the environment. -/
def completeLevel (environmentLevel : Option String) (s : Settings) : Except Stop Settings :=
  match s.logLevel, environmentLevel with
  | none, some text =>
    match LogLevel.ofText? text with
    | none => throw .refused
    | some level => return { s with logLevel := some level }
  | _, _ => return s

theorem parse_eq (arguments : List String) (environmentLevel : Option String) :
    parse arguments environmentLevel =
      (⟨.initial, none⟩ : Reading).all arguments >>= completeLevel environmentLevel := rfl

theorem completeLevel_withStrict (environmentLevel : Option String) (s : Settings) (b : Bool) :
    completeLevel environmentLevel (s.withStrict b) =
      (completeLevel environmentLevel s).map (·.withStrict b) := by
  obtain ⟨logLevel, _⟩ := s
  cases logLevel with
  | some level => rfl
  | none =>
    cases environmentLevel with
    | none => rfl
    | some text =>
      simp only [completeLevel, withStrict]
      cases LogLevel.ofText? text <;> rfl

theorem strict_of_completeLevel {s' : Settings} (h : completeLevel environmentLevel s = .ok s') :
    s'.strict = s.strict := by
  have hsame := completeLevel_withStrict environmentLevel s s.strict
  rw [withStrict_of_eq rfl, h] at hsame
  rw [Except.ok.inj hsame]
  rfl

/-- **Without the switch, the arguments ask for the same, less to be strict.** -/
theorem parse_insert_strict {before after : List String}
    (h : parse (before ++ "--strict" :: after) environmentLevel = .ok s) :
    s.strict = true ∧ parse (before ++ after) environmentLevel = .ok (s.withStrict false) := by
  rw [parse_eq] at h
  obtain ⟨s', hall, hlevel⟩ := bind_eq_ok_iff.1 h
  obtain ⟨hstrict, hall⟩ := Reading.all_insert_strict hall
  refine ⟨(strict_of_completeLevel hlevel).trans hstrict, ?_⟩
  rw [parse_eq, hall]
  show completeLevel environmentLevel (s'.withStrict false) = _
  rw [completeLevel_withStrict, hlevel]
  rfl

/-- **With the switch in front, the arguments ask for the same, and to be strict.** -/
theorem parse_strict_cons {arguments : List String} (hmem : "--strict" ∉ arguments)
    (h : parse arguments environmentLevel = .ok s) :
    s.strict = false ∧
      parse ("--strict" :: arguments) environmentLevel = .ok (s.withStrict true) := by
  rw [parse_eq] at h
  obtain ⟨s', hall, hlevel⟩ := bind_eq_ok_iff.1 h
  have hlenient : s'.strict = false := Reading.strict_of_all hmem hall
  refine ⟨(strict_of_completeLevel hlevel).trans hlenient, ?_⟩
  rw [parse_eq, Reading.all_strict_cons rfl rfl, Reading.all_withStrict _ true hmem, hall]
  show completeLevel environmentLevel (s'.withStrict true) = _
  rw [completeLevel_withStrict, hlevel]
  rfl

end Settings

end CommandLine
end GrantCompiler
