import GrantCompiler.Proofs.CommandLine.Arguments
import GrantCompiler.Proofs.CommandLine.Traces

/-!
# What it means to be strict

A strict run does what another would do, or nothing: it turns the findings that another run only
logs into a failure, before anything is put out.  `StrictOnlyRejects` says what that comes to for
two runs that differ in `--strict` alone, and `run_strict_only_rejects` that it holds of any
arguments that are accepted, whether they have the switch or are given it.

The two runs log the same, since what is logged is settled before it matters whether the run is
strict.  And they fail alike over everything else, except that a strict run with findings never gets
to see that its output file cannot be created.
-/

set_option autoImplicit false

namespace GrantCompiler
namespace CommandLine

variable {s : Settings} {files : FileSystem}

/-- What being strict makes of a run: it is the same or fails, and leaves nothing where it fails. -/
structure StrictOnlyRejects (s : Settings) (files : FileSystem) (strict lenient : Outcome) :
    Prop where
  warnings : strict.warnings = lenient.warnings
  logs : ∀ c, compileSettings s files.readText = .ok c →
    lenient.warnings = s.warnings c.diagnostics
  fail_alike : ∀ cause, compileSettings s files.readText = .error cause →
    strict = lenient ∧ strict.ending = .failed cause ∧ lenient.ending = .failed cause
  eq_of_clean : ∀ c, compileSettings s files.readText = .ok c → c.diagnostics = [] →
    strict = lenient
  rejects : ∀ c, compileSettings s files.readText = .ok c → c.diagnostics ≠ [] →
    strict.ending = .failed (.strict c.diagnostics.length) ∧
      (Failure.strict c.diagnostics.length).message =
        toString c.diagnostics.length ++ " diagnostic(s) reported in strict mode" ∧
      strict.ending.exitCode = 1 ∧ strict.output = "" ∧ strict.files = files
  accepts : ∀ c, compileSettings s files.readText = .ok c →
    (∃ path cause, s.outputFile = some path ∧ files.create path = .error cause ∧
      lenient.ending = .failed (.output path cause)) ∨
    lenient.ending = .done ∧ lenient.PutsOut s.outputFile files (c.policies.text s.layout)

/-! ## The two runs, up to the writing and after it -/

section Runs

variable {b : Bool}

theorem compileSettings_withStrict (s : Settings) (b : Bool) (read : ReadFile) :
    compileSettings (s.withStrict b) read = compileSettings s read := rfl

theorem warnings_deliver (s : Settings) (files : FileSystem) (p : Prepared) :
    (deliver s files p).warnings = p.warnings := by
  rw [deliver]
  split
  next => rfl
  next =>
    simp only
    split
    next => rfl
    next => rfl
    next => rfl
    next => rfl
    next => split <;> rfl

/-- What is logged is settled before it matters whether the run is strict. -/
theorem warnings_prepare_withStrict (s : Settings) (b : Bool) (read : ReadFile) :
    (prepare (s.withStrict b) read).warnings = (prepare s read).warnings := by
  rw [prepare, prepare, compileSettings_withStrict]
  cases compileSettings s read <;> rfl

theorem prepare_withStrict_of_clean {read : ReadFile} {c : Compilation}
    (h : compileSettings s read = .ok c) (hclean : c.diagnostics = []) :
    prepare (s.withStrict b) read = prepare s read := by
  rw [prepare_of_ok h, prepare_of_ok ((compileSettings_withStrict s b read).trans h), hclean]
  simp only [List.isEmpty_nil, Bool.not_true, Bool.and_false]
  rfl

theorem strict_only_rejects (s : Settings) (files : FileSystem)
    (hfull : s.target files ≠ .ok (.sink .full)) :
    StrictOnlyRejects s files (runSettings (s.withStrict true) files)
      (runSettings (s.withStrict false) files) where
  warnings := by
    rw [runSettings, runSettings, warnings_deliver, warnings_deliver,
      warnings_prepare_withStrict, warnings_prepare_withStrict]
  logs c h := by
    rw [runSettings, warnings_deliver, warnings_prepare_withStrict, prepare_of_ok h]
  fail_alike cause h := by
    have hfails (b : Bool) : (s.withStrict b).Fails files cause := .compilation h
    rw [runSettings, runSettings, (hfails true).deliver_eq, (hfails false).deliver_eq,
      warnings_prepare_withStrict, warnings_prepare_withStrict]
    exact ⟨rfl, rfl, rfl⟩
  eq_of_clean c h hclean := by
    rw [runSettings, runSettings, prepare_withStrict_of_clean h hclean,
      prepare_withStrict_of_clean h hclean]
    rfl
  rejects c h hfound := by
    have hfails : (s.withStrict true).Fails files (.strict c.diagnostics.length) :=
      .strict h rfl hfound
    rw [runSettings, hfails.deliver_eq]
    exact ⟨rfl, rfl, rfl, rfl, rfl⟩
  accepts c h := by
    have hlenient : (s.withStrict false).strict = true → c.diagnostics = [] := by
      intro hstrict
      cases hstrict
    rw [runSettings]
    cases htarget : s.target files with
    | error cause =>
      obtain ⟨path, why, hgiven, hcreated, -⟩ := Settings.target_eq_error htarget
      have hfails : (s.withStrict false).Fails files (.output path why) :=
        .output h hlenient hgiven hcreated
      exact .inl ⟨path, why, hgiven, hcreated, by rw [hfails.deliver_eq]⟩
    | ok target =>
      have htakes : target ≠ .sink .full := by
        rintro rfl
        exact hfull htarget
      have hpolicies := policies_prepare (s := s.withStrict false) h hlenient
      exact .inr (puts_out_deliver hpolicies htarget htakes)

end Runs

/-! ## Arguments with the switch and without -/

section Switch

variable {arguments : List String} {environmentLevel : Option String}

/-- **Being strict only rejects.**  Arguments that are accepted have the switch, and then they are
accepted without it; or they lack it, and then they are accepted with it in front.  Either way they
ask for the same but to be strict, and the strict run of the two differs from the other only by what
it rejects, where the device, if the output goes to one, takes what it is given. -/
theorem run_strict_only_rejects (hs : Settings.parse arguments environmentLevel = .ok s)
    (hfull : s.target files ≠ .ok (.sink .full)) :
    (∀ before after, arguments = before ++ "--strict" :: after →
      s.strict = true ∧
      Settings.parse (before ++ after) environmentLevel = .ok (s.withStrict false) ∧
      StrictOnlyRejects s files (run arguments environmentLevel files)
        (run (before ++ after) environmentLevel files)) ∧
    ("--strict" ∉ arguments →
      s.strict = false ∧
      Settings.parse ("--strict" :: arguments) environmentLevel = .ok (s.withStrict true) ∧
      StrictOnlyRejects s files (run ("--strict" :: arguments) environmentLevel files)
        (run arguments environmentLevel files)) := by
  have hrejects := strict_only_rejects s files hfull
  constructor
  · rintro before after rfl
    obtain ⟨hstrict, hlenient⟩ := Settings.parse_insert_strict hs
    refine ⟨hstrict, hlenient, ?_⟩
    rw [run_of_parse hs, run_of_parse hlenient]
    rwa [Settings.withStrict_of_eq hstrict] at hrejects
  · intro hmem
    obtain ⟨hlenient, hstrict⟩ := Settings.parse_strict_cons hmem hs
    refine ⟨hlenient, hstrict, ?_⟩
    rw [run_of_parse hs, run_of_parse hstrict]
    rwa [Settings.withStrict_of_eq hlenient] at hrejects

end Switch

/-! ### A finding

An application is declared in two namespaces. -/

namespace TwoNamespaces

/-- A folder with both documents, in which two namespaces list one application. -/
def workFiles : FileSystem :=
  (FileSystem.initial.insert ["tmp", "work", "apps.yaml"]
    (.file "\x7b? \"a\" : [\"dup\"], ? \"b\" : [\"dup\"]\x7d\n".toUTF8)).insert
      ["tmp", "work", "resource-usage.yaml"] (.file "\x7b\x7d\n".toUTF8)

/-- A strict run with a unit. -/
def settings : Settings :=
  ⟨none, none, none, none, [⟨"unit", "x"⟩], none, none, none, none, false, true⟩

theorem exists_finding : ∃ c,
    compileSettings settings workFiles.readText = .ok c ∧ c.diagnostics.length = 1 := by
  have hfound : ((compileSettings settings workFiles.readText).toOption.any
    fun c => c.diagnostics.length == 1) = true := by decide +kernel
  obtain ⟨c, hcompiled, hfinding⟩ := exists_of_any_toOption hfound
  exact ⟨c, hcompiled, beq_iff_eq.1 hfinding⟩

/-- The strict run counts the finding and shows nothing; the other shows the policies. -/
theorem rejected_over_a_finding :
    Settings.parse ["-l", "unit=x", "--strict"] none = .ok settings ∧
    settings.target workFiles ≠ .ok (.sink .full) ∧
    ∃ c, compileSettings settings workFiles.readText = .ok c ∧ c.diagnostics.length = 1 ∧
      (run ["-l", "unit=x", "--strict"] none workFiles).ending = .failed (.strict 1) ∧
      (run ["-l", "unit=x", "--strict"] none workFiles).output = "" ∧
      (run ["-l", "unit=x"] none workFiles).ending = .done ∧
      (run ["-l", "unit=x"] none workFiles).output = c.policies.text .compact := by
  have hs : Settings.parse ["-l", "unit=x", "--strict"] none = .ok settings := rfl
  have htarget : settings.target workFiles = .ok (.sink .output) := rfl
  have hfull : settings.target workFiles ≠ .ok (.sink .full) := by
    rw [htarget]
    nofun
  refine ⟨hs, hfull, ?_⟩
  obtain ⟨c, hcompiled, hfinding⟩ := exists_finding
  obtain ⟨-, -, hrejects⟩ := (run_strict_only_rejects hs hfull).1 ["-l", "unit=x"] [] rfl
  have hfound : c.diagnostics ≠ [] := List.ne_nil_of_length_eq_add_one hfinding
  obtain ⟨hstrict, -, -, hnothing, -⟩ := hrejects.rejects c hcompiled hfound
  rw [hfinding] at hstrict
  refine ⟨c, hcompiled, hfinding, hstrict, hnothing, ?_⟩
  rcases hrejects.accepts c hcompiled with ⟨path, cause, hgiven, -⟩ | ⟨hdone, hputs⟩
  · cases hgiven
  · refine ⟨hdone, ?_⟩
    cases hputs with
    | shown hgiven houtput => exact houtput
    | written hgiven => cases hgiven
    | handedOn hgiven => cases hgiven

end TwoNamespaces

end CommandLine
end GrantCompiler
