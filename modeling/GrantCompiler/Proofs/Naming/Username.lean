import GrantCompiler.Proofs.Locator.Builder
import GrantCompiler.Proofs.Naming.Outcome
import GrantCompiler.Proofs.Naming.Separation
import Mathlib.Computability.Language

/-!
# Usernames that are taken, and usernames that are shared

The provider takes a username of a certain shape, which is given by a pattern with a counted
repetition.  An application's username is not its name: a suffix is put after the name, and then a
long mark in front is shortened.  This file says what the two come to for the name itself.

* `Username.valid_iff_mem_pattern` — the check accepts the words of the pattern, and
  `Username.valid_iff` puts this as bounds on the length and the characters allowed at each place.
* `AppName.valid_username_iff` — which names have a username that is taken.  A scheduled application
  may have a name that is longer by the eight characters that the shortening saves.
* `AppName.cloudAccount_reports` — the other names are reported, once, whether or not there is a
  unit to render the account with.
* `AppName.accounts_shared_iff` — two applications share an account exactly if they share a
  username.  That takes two names of which one is the abbreviation of the other, so both begin with
  `s`, and no third application shares the account with them.
-/

set_option autoImplicit false

namespace GrantCompiler

/-! ## The provider's pattern -/

namespace Username

/-- The characters that may stand inside a username. -/
def isInner (c : Char) : Bool := c == '-' || isLowerOrDigit c

/-- A text of lower-case letters, digits and hyphens. -/
def Plain (text : String) : Prop :=
  ∀ c ∈ text.toList, 'a' ≤ c ∧ c ≤ 'z' ∨ '0' ≤ c ∧ c ≤ '9' ∨ c = '-'

instance (text : String) : Decidable (Plain text) :=
  List.decidableBAll _ text.toList

theorem isLower_iff {c : Char} : isLower c = true ↔ 'a' ≤ c ∧ c ≤ 'z' := by
  simp [isLower]

theorem isLowerOrDigit_iff {c : Char} :
    isLowerOrDigit c = true ↔ 'a' ≤ c ∧ c ≤ 'z' ∨ '0' ≤ c ∧ c ≤ '9' := by
  simp [isLowerOrDigit, isLower]

theorem isInner_iff {c : Char} :
    isInner c = true ↔ 'a' ≤ c ∧ c ≤ 'z' ∨ '0' ≤ c ∧ c ≤ '9' ∨ c = '-' := by
  rw [isInner, Bool.or_eq_true, isLowerOrDigit_iff, beq_iff_eq, or_comm, or_assoc]

/-- The words of one character of a class. -/
def oneOf (p : Char → Bool) : Language Char := {word | ∃ c, p c = true ∧ word = [c]}

/-- From so many to so many words of a language in a row. -/
def between (least most : Nat) (l : Language Char) : Language Char :=
  {word | ∃ n, least ≤ n ∧ n ≤ most ∧ word ∈ l ^ n}

/-- The provider's pattern: a lower-case letter, four to twenty-eight characters that may stand
inside, and a letter or a digit. -/
def pattern : Language Char :=
  oneOf isLower * (between 4 28 (oneOf isInner) * oneOf isLowerOrDigit)

theorem mem_oneOf_pow {p : Char → Bool} {n : Nat} {word : List Char} :
    word ∈ oneOf p ^ n ↔ word.length = n ∧ ∀ c ∈ word, p c = true := by
  induction n generalizing word with
  | zero =>
    rw [pow_zero, Language.mem_one, List.length_eq_zero_iff]
    refine ⟨?_, fun h => h.1⟩
    rintro rfl
    exact ⟨rfl, by simp⟩
  | succ n ih =>
    rw [pow_succ', Language.mem_mul]
    refine ⟨?_, ?_⟩
    · rintro ⟨_, ⟨c, hc, rfl⟩, rest, hrest, rfl⟩
      obtain ⟨hlength, hall⟩ := ih.1 hrest
      exact ⟨by simp [hlength], by simpa [hc] using hall⟩
    · rintro ⟨hlength, hall⟩
      obtain ⟨c, rest, rfl⟩ := List.exists_cons_of_length_eq_add_one hlength
      obtain ⟨hc, hrest⟩ := List.forall_mem_cons.1 hall
      exact ⟨[c], ⟨c, hc, rfl⟩, rest, ih.2 ⟨by simpa using hlength, hrest⟩, rfl⟩

theorem mem_between_iff {p : Char → Bool} {least most : Nat} {word : List Char} :
    word ∈ between least most (oneOf p) ↔
      least ≤ word.length ∧ word.length ≤ most ∧ ∀ c ∈ word, p c = true := by
  refine ⟨?_, ?_⟩
  · rintro ⟨n, hmin, hmax, hword⟩
    obtain ⟨rfl, hall⟩ := mem_oneOf_pow.1 hword
    exact ⟨hmin, hmax, hall⟩
  · rintro ⟨hmin, hmax, hall⟩
    exact ⟨_, hmin, hmax, mem_oneOf_pow.2 ⟨rfl, hall⟩⟩

/-- A word of the pattern, character by character. -/
theorem mem_pattern_iff {word : List Char} :
    word ∈ pattern ↔ ∃ first inner last, word = first :: (inner ++ [last]) ∧
      isLower first = true ∧ 4 ≤ inner.length ∧ inner.length ≤ 28 ∧
      (∀ c ∈ inner, isInner c = true) ∧ isLowerOrDigit last = true := by
  rw [pattern, Language.mem_mul]
  simp only [Language.mem_mul, mem_between_iff]
  refine ⟨?_, ?_⟩
  · rintro ⟨_, ⟨first, hfirst, rfl⟩, _, ⟨inner, ⟨hmin, hmax, hinner⟩, _, ⟨last, hlast, rfl⟩, rfl⟩,
      rfl⟩
    exact ⟨first, inner, last, rfl, hfirst, hmin, hmax, hinner, hlast⟩
  · rintro ⟨first, inner, last, rfl, hfirst, hmin, hmax, hinner, hlast⟩
    exact ⟨[first], ⟨first, hfirst, rfl⟩, inner ++ [last], ⟨inner, ⟨hmin, hmax, hinner⟩, [last],
      ⟨last, hlast, rfl⟩, rfl⟩, rfl⟩

/-- **The check accepts the words of the pattern.** -/
theorem valid_iff_mem_pattern {username : String} :
    valid username = true ↔ username.toList ∈ pattern := by
  rw [mem_pattern_iff, valid]
  cases hword : username.toList with
  | nil => simp
  | cons first rest =>
    rcases List.eq_nil_or_concat rest with rfl | ⟨inner, last, rfl⟩
    · simp
    · simp only [List.concat_eq_append, Bool.and_eq_true, decide_eq_true_eq, List.length_append,
        List.length_singleton, List.dropLast_concat, List.all_eq_true, List.getLast?_concat,
        Option.any_some, List.cons.injEq]
      refine ⟨?_, ?_⟩
      · rintro ⟨⟨⟨⟨hfirst, hmin⟩, hmax⟩, hinner⟩, hlast⟩
        exact ⟨first, inner, last, ⟨rfl, rfl⟩, hfirst, by omega, by omega, hinner, hlast⟩
      · rintro ⟨_, inner', last', ⟨rfl, heq⟩, hfirst, hmin, hmax, hinner, hlast⟩
        obtain ⟨hinit, hend⟩ := List.append_inj' heq rfl
        cases hend
        subst hinit
        exact ⟨⟨⟨⟨hfirst, by omega⟩, by omega⟩, hinner⟩, hlast⟩

/-- A username is taken if it has 6 to 30 characters, begins with a lower-case letter, ends with a
letter or a digit, and is plain. -/
theorem valid_iff {username : String} :
    valid username = true ↔ 6 ≤ username.length ∧ username.length ≤ 30 ∧
      (∃ c ∈ username.toList.head?, 'a' ≤ c ∧ c ≤ 'z') ∧
      (∃ c ∈ username.toList.getLast?, 'a' ≤ c ∧ c ≤ 'z' ∨ '0' ≤ c ∧ c ≤ '9') ∧ Plain username := by
  rw [valid_iff_mem_pattern, mem_pattern_iff, Plain, ← String.length_toList]
  simp only [isLower_iff, isLowerOrDigit_iff, isInner_iff]
  generalize username.toList = word
  refine ⟨?_, ?_⟩
  · rintro ⟨first, inner, last, rfl, hfirst, hmin, hmax, hinner, hlast⟩
    simp only [List.length_cons, List.length_append, List.length_nil]
    have hend : (first :: (inner ++ [last])).getLast? = some last :=
      List.getLast?_eq_some_iff.2 ⟨first :: inner, rfl⟩
    refine ⟨by omega, by omega, ⟨first, rfl, hfirst⟩, ⟨last, hend, hlast⟩, fun c hc => ?_⟩
    simp only [List.mem_cons, List.mem_append, List.not_mem_nil, or_false] at hc
    rcases hc with rfl | hc | rfl
    · exact .inl hfirst
    · exact hinner c hc
    · exact hlast.imp_right .inl
  · rintro ⟨hmin, hmax, ⟨first, hhead, hfirst⟩, ⟨last, hend, hlast⟩, hplain⟩
    obtain ⟨rest, rfl⟩ := List.head?_eq_some_iff.1 hhead
    obtain ⟨init, hinit⟩ := List.getLast?_eq_some_iff.1 hend
    -- the word is too long for its ends to be one character
    cases init with
    | nil => simp [hinit] at hmin
    | cons _ inner =>
      rw [List.cons_append] at hinit
      obtain ⟨rfl, rfl⟩ := List.cons.inj hinit
      simp only [List.length_cons, List.length_append, List.length_nil] at hmin hmax
      refine ⟨_, inner, last, rfl, hfirst, by omega, by omega, fun c hc => ?_, hlast⟩
      exact hplain c (by simp [hc])

theorem plain_append {s t : String} : Plain (s ++ t) ↔ Plain s ∧ Plain t := by
  simp only [Plain, String.toList_append, List.forall_mem_append]

end Username

/-! ## Names whose username is taken -/

namespace AppName

/-- The name says that the application is scheduled. -/
def Scheduled (app : AppName) : Prop := scheduledMark.toList <+: app.text.toList

instance (app : AppName) : Decidable app.Scheduled :=
  inferInstanceAs (Decidable (scheduledMark.toList <+: app.text.toList))

/-- What a name has to be like for its username to be taken. -/
def Acceptable (app : AppName) : Prop :=
  Username.Plain app.text ∧
    (app.Scheduled ∧ 11 ≤ app.text.length ∧ app.text.length ≤ 35 ∨
      ¬ app.Scheduled ∧ app.text ≠ "scheduled" ∧ (∃ c ∈ app.text.toList.head?, 'a' ≤ c ∧ c ≤ 'z') ∧
        3 ≤ app.text.length ∧ app.text.length ≤ 27)

instance (app : AppName) : Decidable app.Acceptable := inferInstanceAs (Decidable (_ ∧ (_ ∨ _)))

theorem scheduled_iff {app : AppName} :
    app.Scheduled ↔ ∃ rest, app.text = scheduledMark ++ rest := by
  refine ⟨?_, ?_⟩
  · rintro ⟨rest, hrest⟩
    refine ⟨String.ofList rest, String.toList_inj.1 ?_⟩
    rw [String.toList_append, String.toList_ofList, hrest]
  · rintro ⟨rest, hrest⟩
    exact ⟨rest.toList, by rw [hrest, String.toList_append]⟩

/-- The suffix completes the mark in one case. -/
theorem scheduled_or_of_append {app : AppName} {rest : String}
    (h : app.text ++ usernameEnding = scheduledMark ++ rest) :
    app.Scheduled ∨ app.text = "scheduled" := by
  have hlist := congrArg String.toList h
  rw [String.toList_append, String.toList_append, List.append_eq_append_iff] at hlist
  rcases hlist with ⟨excess, hmark, hending⟩ | ⟨more, hname, -⟩
  · -- what the mark has over the name is an end of the one and a beginning of the suffix
    have hexcess : ∀ word ∈ usernameEnding.toList.inits, word <:+ scheduledMark.toList →
        word = [] ∨ word = ['-'] := by decide
    rcases hexcess excess ((List.mem_inits _ _).2 ⟨_, hending.symm⟩) ⟨_, hmark.symm⟩ with rfl | rfl
    · exact .inl (by rw [Scheduled, hmark, List.append_nil])
    · have hname : "scheduled".toList ++ ['-'] = app.text.toList ++ ['-'] := hmark
      exact .inr (String.toList_inj.1 (List.append_cancel_right hname).symm)
  · exact .inl ⟨more, hname.symm⟩

/-- The suffix takes three of the characters that the provider allows. -/
theorem valid_append_ending_iff {start : String} :
    Username.valid (start ++ usernameEnding) = true ↔
      3 ≤ start.length ∧ start.length ≤ 27 ∧ (∃ c ∈ start.toList.head?, 'a' ≤ c ∧ c ≤ 'z') ∧
        Username.Plain start := by
  have hplain : Username.Plain usernameEnding := by decide
  have hend : (start ++ usernameEnding).toList.getLast? = some 'a' := by
    rw [String.toList_append, List.getLast?_append]
    rfl
  have hlength : (start ++ usernameEnding).length = start.length + 3 := String.length_append _ _
  have hhead (h : 3 ≤ start.length) :
      (start ++ usernameEnding).toList.head? = start.toList.head? := by
    rw [String.toList_append, List.head?_append_of_ne_nil]
    rintro hnil
    rw [← String.length_toList, hnil] at h
    cases h
  rw [Username.valid_iff, Username.plain_append, hend, hlength]
  refine ⟨?_, ?_⟩
  · rintro ⟨hmin, hmax, hfirst, -, hname, -⟩
    rw [hhead (by omega)] at hfirst
    exact ⟨by omega, by omega, hfirst, hname⟩
  · rintro ⟨hmin, hmax, hfirst, hname⟩
    rw [hhead hmin]
    exact ⟨by omega, by omega, hfirst, ⟨'a', rfl, by decide⟩, hname, hplain⟩

/-- The name of a scheduled application may be eight characters longer than others. -/
theorem valid_username_of_scheduled {app : AppName} (h : app.Scheduled) :
    Username.valid app.username = true ↔
      Username.Plain app.text ∧ 11 ≤ app.text.length ∧ app.text.length ≤ 35 := by
  obtain ⟨rest, hname⟩ := scheduled_iff.1 h
  have husername : app.username = scheduledShort ++ rest ++ usernameEnding := by
    rw [String.append_assoc]
    exact username_of_scheduled (by rw [hname, String.append_assoc])
  have hmark : Username.Plain scheduledMark := by decide
  have hshort : Username.Plain scheduledShort := by decide
  have hfirst : ∃ c ∈ (scheduledShort ++ rest).toList.head?, 'a' ≤ c ∧ c ≤ 'z' :=
    ⟨'s', by rw [String.toList_append]; rfl, by decide⟩
  have hlength : (scheduledShort ++ rest).length = rest.length + 2 := by
    rw [String.length_append, Nat.add_comm]
    rfl
  have hfull : (scheduledMark ++ rest).length = rest.length + 10 := by
    rw [String.length_append, Nat.add_comm]
    rfl
  rw [husername, valid_append_ending_iff, hname, hlength, hfull, Username.plain_append,
    Username.plain_append]
  refine ⟨?_, ?_⟩
  · rintro ⟨hmin, hmax, -, -, hrest⟩
    exact ⟨⟨hmark, hrest⟩, by omega, by omega⟩
  · rintro ⟨⟨-, hrest⟩, hmin, hmax⟩
    exact ⟨by omega, by omega, hfirst, hshort, hrest⟩

/-- The name of any other application gets the suffix and nothing else, unless the suffix completes
the mark. -/
theorem valid_username_of_not_scheduled {app : AppName} (h : ¬ app.Scheduled) :
    Username.valid app.username = true ↔
      Username.Plain app.text ∧ app.text ≠ "scheduled" ∧
        (∃ c ∈ app.text.toList.head?, 'a' ≤ c ∧ c ≤ 'z') ∧
          3 ≤ app.text.length ∧ app.text.length ≤ 27 := by
  by_cases hbare : app.text = "scheduled"
  · have hshort : Username.valid app.username = false := by
      obtain rfl : app = ⟨"scheduled"⟩ := congrArg Name.mk hbare
      decide
    simp [hshort, hbare]
  · have husername : app.username = app.text ++ usernameEnding :=
      username_of_not_scheduled fun rest hrest => (scheduled_or_of_append hrest).elim h hbare
    rw [husername, valid_append_ending_iff]
    refine ⟨?_, ?_⟩
    · rintro ⟨hmin, hmax, hfirst, hplain⟩
      exact ⟨hplain, hbare, hfirst, hmin, hmax⟩
    · rintro ⟨hplain, -, hfirst, hmin, hmax⟩
      exact ⟨hmin, hmax, hfirst, hplain⟩

/-- **Which names have a username that is taken.** -/
theorem valid_username_iff {app : AppName} :
    Username.valid app.username = true ↔ app.Acceptable := by
  by_cases h : app.Scheduled
  · simp [valid_username_of_scheduled h, Acceptable, h]
  · simp [valid_username_of_not_scheduled h, Acceptable, h]

/-! ### What is reported -/

/-- **A name is reported, once, unless it is acceptable.**  The check that decides it accepts the
words of the provider's pattern, and which ones these are can be said by length and by place.  That
the account cannot be rendered for want of a unit makes no difference to the report. -/
theorem cloudAccount_reports :
    (∀ username : String,
      (Username.valid username = true ↔ username.toList ∈ Username.pattern) ∧
      (Username.valid username = true ↔ 6 ≤ username.length ∧ username.length ≤ 30 ∧
        (∃ c ∈ username.toList.head?, 'a' ≤ c ∧ c ≤ 'z') ∧
        (∃ c ∈ username.toList.getLast?, 'a' ≤ c ∧ c ≤ 'z' ∨ '0' ≤ c ∧ c ≤ '9') ∧
        Username.Plain username)) ∧
    ∀ (app : AppName) (locators : Locators),
      (app.cloudAccount locators).diagnostics =
        (if app.Acceptable then [] else [.invalidAccountName app app.username]) ∧
      (app.cloudAccount locators).outcome =
        if locators.HasUnit then .ok (locators.memberOf app.username)
        else .error ⟨Locator.unit, Template.memberName⟩ := by
  refine ⟨fun username => ⟨Username.valid_iff_mem_pattern, Username.valid_iff⟩,
    fun app locators => ⟨?_, app.outcome_cloudAccount⟩⟩
  rw [diagnostics_cloudAccount, findings]
  simp only [valid_username_iff]

/-- The mark alone is an acceptable beginning, and not an acceptable name. -/
example : ¬ Acceptable ⟨"scheduled"⟩ ∧ ¬ Acceptable ⟨"scheduled-"⟩ ∧ Acceptable ⟨"scheduled-1"⟩ := by
  decide

/-! ## Shared accounts -/

section Sharing

variable {locators : Locators} {app other third : AppName} {member : Member} {path : FullName}

/-- The account that an application gets in the cloud, with its path as a resource. -/
def HasAccount (locators : Locators) (app : AppName) (member : Member) (path : FullName) : Prop :=
  (app.cloudAccount locators).outcome = .ok member ∧ member.fullName locators = .ok path

/-- Two applications get accounts of one mail address. -/
def SharesMember (locators : Locators) (app other : AppName) : Prop :=
  ∃ member path path', app.HasAccount locators member path ∧ other.HasAccount locators member path'

/-- Two applications get accounts of one path. -/
def SharesPath (locators : Locators) (app other : AppName) : Prop :=
  ∃ member member' path, app.HasAccount locators member path ∧
    other.HasAccount locators member' path

theorem hasAccount_iff (hunit : locators.HasUnit) :
    app.HasAccount locators member path ↔
      member = locators.memberOf app.username ∧ path = locators.accountPath member := by
  rw [HasAccount, outcome_cloudAccount, if_pos hunit, Member.fullName_eq, if_pos hunit,
    Except.ok.injEq, Except.ok.injEq, eq_comm, @eq_comm _ path]

theorem sharesMember_iff (hunit : locators.HasUnit) :
    app.SharesMember locators other ↔ app.username = other.username := by
  simp only [SharesMember, hasAccount_iff hunit]
  refine ⟨?_, fun h => ⟨_, _, _, ⟨rfl, rfl⟩, by rw [h], rfl⟩⟩
  rintro ⟨_, _, _, ⟨rfl, -⟩, hmember, -⟩
  exact Locators.memberOf_inj hmember

theorem sharesPath_iff (hunit : locators.HasUnit) :
    app.SharesPath locators other ↔ app.username = other.username := by
  simp only [SharesPath, hasAccount_iff hunit]
  refine ⟨?_, fun h => ⟨_, _, _, ⟨rfl, rfl⟩, rfl, by rw [h]⟩⟩
  rintro ⟨_, _, _, ⟨rfl, rfl⟩, rfl, hpath⟩
  exact Locators.memberOf_inj (Locators.accountPath_inj hpath)

/-! ### Abbreviations -/

theorem Abbreviates.head?_eq (h : app.Abbreviates other) :
    app.text.toList.head? = some 's' ∧ other.text.toList.head? = some 's' := by
  -- what begins with `s` still does so without the suffix
  have hhead : ∀ text start rest : String, start.toList.head? = some 's' →
      text ++ usernameEnding = start ++ rest → text.toList.head? = some 's' := by
    intro text start rest hstart htext
    have hlist := congrArg (fun text => text.toList.head?) htext
    simp only [String.toList_append, List.head?_append, hstart, Option.some_or] at hlist
    rcases Option.or_eq_some_iff.1 hlist with hs | ⟨-, hsuffix⟩
    · exact hs
    · exact absurd hsuffix (by decide)
  obtain ⟨rest, happ, hother⟩ := h
  exact ⟨hhead _ _ _ rfl happ, hhead _ _ _ rfl hother⟩

theorem Abbreviates.not_abbreviates (h : app.Abbreviates other) : ¬ third.Abbreviates app := by
  obtain ⟨rest, happ, -⟩ := h
  rintro ⟨rest', -, happ'⟩
  exact scheduledShort_append_ne rest rest' (happ.symm.trans happ')

theorem Abbreviates.eq_of_left (h : app.Abbreviates other) (h' : app.Abbreviates third) :
    other = third := by
  obtain ⟨rest, happ, hother⟩ := h
  obtain ⟨rest', happ', hthird⟩ := h'
  rw [happ, String.append_right_inj] at happ'
  subst happ'
  exact eq_of_text_append (hother.trans hthird.symm)

theorem Abbreviates.eq_of_right (h : other.Abbreviates app) (h' : third.Abbreviates app) :
    other = third := by
  obtain ⟨rest, hother, happ⟩ := h
  obtain ⟨rest', hthird, happ'⟩ := h'
  rw [happ, String.append_right_inj] at happ'
  subst happ'
  exact eq_of_text_append (hother.trans hthird.symm)

theorem head?_eq_of_username_eq (h : app.username = other.username) (hne : app ≠ other) :
    app.text.toList.head? = some 's' := by
  rcases (username_eq_iff.1 h).resolve_left hne with h | h
  · exact h.head?_eq.1
  · exact h.head?_eq.2

/-- At most one other application has the username of an application. -/
theorem eq_of_username_eq (hother : app.username = other.username)
    (hthird : app.username = third.username) (hne : app ≠ other) (hne' : app ≠ third) :
    other = third := by
  rcases (username_eq_iff.1 hother).resolve_left hne with h | h <;>
    rcases (username_eq_iff.1 hthird).resolve_left hne' with h' | h'
  · exact h.eq_of_left h'
  · exact absurd h' h.not_abbreviates
  · exact absurd h h'.not_abbreviates
  · exact h.eq_of_right h'

/-- **Two applications share an account exactly if they share a username,** and they share a
username exactly if one of the names is the abbreviation of the other. -/
theorem accounts_shared_iff (hunit : locators.HasUnit) (app other : AppName) :
    (app.SharesMember locators other ↔ app.username = other.username) ∧
    (app.SharesPath locators other ↔ app.username = other.username) ∧
    (app.username = other.username ↔
      app = other ∨ app.Abbreviates other ∨ other.Abbreviates app) ∧
    (app.SharesMember locators other ∨ app.SharesPath locators other → app ≠ other →
      app.text.toList.head? = some 's' ∧ other.text.toList.head? = some 's' ∧
      ∀ third, app.SharesMember locators third ∨ app.SharesPath locators third → app ≠ third →
        third = other) := by
  refine ⟨sharesMember_iff hunit, sharesPath_iff hunit, username_eq_iff, fun h hne => ?_⟩
  simp only [sharesMember_iff hunit, sharesPath_iff hunit, or_self] at h ⊢
  exact ⟨head?_eq_of_username_eq h hne, head?_eq_of_username_eq h.symm (Ne.symm hne),
    fun third hthird hne' => eq_of_username_eq hthird h hne' hne⟩

/-- The suffix completes the mark, so the name `scheduled` has an abbreviation too. -/
theorem scheduled_shares_with_s :
    (Locators.withUnit "x").HasUnit ∧
    SharesMember (.withUnit "x") ⟨"scheduled"⟩ ⟨"s"⟩ ∧
    SharesPath (.withUnit "x") ⟨"scheduled"⟩ ⟨"s"⟩ ∧
    ∀ third, SharesMember (.withUnit "x") ⟨"scheduled"⟩ third → third ≠ ⟨"scheduled"⟩ →
      third = ⟨"s"⟩ := by
  have hunit : (Locators.withUnit "x").HasUnit := by decide
  obtain ⟨hmember, hpath, -, hone⟩ := accounts_shared_iff hunit ⟨"scheduled"⟩ ⟨"s"⟩
  have hshares := hmember.2 rfl
  refine ⟨hunit, hshares, hpath.2 rfl, fun third hthird hne => ?_⟩
  exact (hone (.inl hshares) (by decide)).2.2 third (.inl hthird) (Ne.symm hne)

end Sharing

end AppName
end GrantCompiler
