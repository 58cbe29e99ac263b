import GrantCompiler.CommandLine.Run
import GrantCompiler.Proofs.FileSystem
import GrantCompiler.Proofs.Policy.Text
import GrantCompiler.Proofs.Reported

/-!
# What a run leaves behind

A run whose arguments are accepted has one visible effect, and that comes last: it puts out the text
of the policies, to one place.  Whatever can fail fails before it, so a run that fails has shown
nothing and written nothing.

* `Settings.Fails` — the reasons for which a run fails, each with the earlier ones ruled out.
* `Outcome.PutsOut` — the text has gone to one place, and to no other: to standard output, to a
  file, or to a device.  A file then holds nothing else, even if it is one that the run has read.
* `run_fails_or_puts_out` — a run comes to one of the two.

That an output file is given does not mean that nothing is shown: a path can lead to a device, and
one of them is standard output (`OneApplication.shown_with_output_file`).
-/

set_option autoImplicit false

namespace GrantCompiler
namespace CommandLine

variable {s : Settings} {files : FileSystem} {read : ReadFile}

/-! ## Up to the writing -/

theorem prepare_of_error {cause : Failure} (h : compileSettings s read = .error cause) :
    prepare s read = ⟨[], .error cause⟩ := by
  rw [prepare, h]

theorem prepare_of_ok {c : Compilation} (h : compileSettings s read = .ok c) :
    prepare s read = ⟨s.warnings c.diagnostics,
      if s.strict && !c.diagnostics.isEmpty then .error (.strict c.diagnostics.length)
      else .ok c.policies⟩ := by
  rw [prepare, h]

theorem policies_prepare {c : Compilation} (h : compileSettings s read = .ok c)
    (hclean : s.strict = true → c.diagnostics = []) :
    (prepare s read).policies = .ok c.policies := by
  rw [prepare_of_ok h]
  refine if_neg fun hstops => ?_
  obtain ⟨hstrict, hfound⟩ := Bool.and_eq_true_iff.1 hstops
  rw [hclean hstrict] at hfound
  cases hfound

theorem policies_prepare_of_findings {c : Compilation} (h : compileSettings s read = .ok c)
    (hstrict : s.strict = true) (hfound : c.diagnostics ≠ []) :
    (prepare s read).policies = .error (.strict c.diagnostics.length) := by
  have hnonempty : c.diagnostics.isEmpty = false := by
    rw [Bool.eq_false_iff, Ne, List.isEmpty_iff]
    exact hfound
  rw [prepare_of_ok h]
  exact if_pos (by rw [hstrict, hnonempty]; rfl)

/-! ## Writing -/

/-- The reasons for which a run fails.  The device may still refuse what is written to it. -/
inductive Settings.Fails (s : Settings) (files : FileSystem) : Failure → Prop
  | compilation {cause : Failure} (compiled : compileSettings s files.readText = .error cause) :
      Fails s files cause
  | strict {c : Compilation} (compiled : compileSettings s files.readText = .ok c)
      (strict : s.strict = true) (found : c.diagnostics ≠ []) :
      Fails s files (.strict c.diagnostics.length)
  | output {c : Compilation} {path : String} {cause : FileFailure}
      (compiled : compileSettings s files.readText = .ok c)
      (clean : s.strict = true → c.diagnostics = []) (given : s.outputFile = some path)
      (created : files.create path = .error cause) : Fails s files (.output path cause)

/-- A text has been put out, and nothing else has changed. -/
inductive Outcome.PutsOut (outputFile : Option String) (files : FileSystem) (text : String)
    (o : Outcome) : Prop
  | shown (given : outputFile = none) (output : o.output = text) (files : o.files = files)
  | written {path : String} {place : Place} (given : outputFile = some path)
      (created : files.create path = .ok (.file place)) (output : o.output = "")
      (replaced : files.Replaced o.files place text) (readBack : o.files.readText path = .ok text)
  | handedOn {path : String} {kind : Sink} (given : outputFile = some path)
      (created : files.create path = .ok (.sink kind))
      (output : o.output = if kind = .output then text else "") (files : o.files = files)

theorem deliver_of_error {p : Prepared} {cause : Failure} (h : p.policies = .error cause) :
    deliver s files p = ⟨.failed cause, "", p.warnings, files⟩ := by
  rw [deliver, h]

theorem deliver_of_create_eq_error {p : Prepared} {policies : Policies} {path : String}
    {cause : FileFailure} (h : p.policies = .ok policies) (hgiven : s.outputFile = some path)
    (hcreated : files.create path = .error cause) :
    deliver s files p = ⟨.failed (.output path cause), "", p.warnings, files⟩ := by
  have htarget : s.target files = .error (.output path cause) := by
    rw [Settings.target, hgiven]
    simp only [hcreated]
    rfl
  rw [deliver, h]
  simp only [htarget]

/-- A target that takes everything gets the text. -/
theorem puts_out_deliver {p : Prepared} {policies : Policies} {target : FileSystem.Target}
    (h : p.policies = .ok policies) (htarget : s.target files = .ok target)
    (hfull : target ≠ .sink .full) :
    (deliver s files p).ending = .done ∧
      (deliver s files p).PutsOut s.outputFile files (policies.text s.layout) := by
  rw [deliver, h]
  simp only [htarget]
  cases hgiven : s.outputFile with
  | none =>
    rw [Settings.target, hgiven] at htarget
    cases htarget
    exact ⟨rfl, .shown rfl rfl rfl⟩
  | some path =>
    have hcreated : files.create path = .ok target := by
      rw [Settings.target, hgiven] at htarget
      cases hcreate : files.create path with
      | ok found => simp only [hcreate] at htarget; cases htarget; rfl
      | error cause => simp only [hcreate] at htarget; cases htarget
    cases target with
    | file place =>
      have hplace : place ≠ [] := FileSystem.ne_nil_of_create hcreated
      exact ⟨rfl, .written rfl hcreated rfl (FileSystem.replaced_write hplace)
        (FileSystem.readText_write hcreated _)⟩
    | sink kind =>
      cases kind with
      | output => exact ⟨rfl, .handedOn rfl hcreated rfl rfl⟩
      | nowhere => exact ⟨rfl, .handedOn rfl hcreated rfl rfl⟩
      | full => exact absurd rfl hfull

/-- A run that fails has the cause for its ending, and has done nothing else but to log. -/
theorem Settings.Fails.deliver_eq {cause : Failure} (h : s.Fails files cause) :
    deliver s files (prepare s files.readText) =
      ⟨.failed cause, "", (prepare s files.readText).warnings, files⟩ := by
  cases h with
  | compilation hcompiled => exact deliver_of_error (by rw [prepare_of_error hcompiled])
  | strict hcompiled hstrict hfound =>
    exact deliver_of_error (policies_prepare_of_findings hcompiled hstrict hfound)
  | output hcompiled hclean hgiven hcreated =>
    exact deliver_of_create_eq_error (policies_prepare hcompiled hclean) hgiven hcreated

theorem Settings.target_eq_error {cause : Failure} (h : s.target files = .error cause) :
    ∃ path why, s.outputFile = some path ∧ files.create path = .error why ∧
      cause = .output path why := by
  rw [target] at h
  split at h
  next => cases h
  next path hgiven =>
    cases hcreated : files.create path with
    | ok target => rw [hcreated] at h; cases h
    | error why =>
      rw [hcreated] at h
      cases h
      exact ⟨path, why, hgiven, hcreated, rfl⟩

/-- Whatever can fail is settled before anything is put out. -/
theorem Settings.exists_fails_or (s : Settings) (files : FileSystem) :
    (∃ cause, s.Fails files cause) ∨
      ∃ c target, compileSettings s files.readText = .ok c ∧
        (s.strict = true → c.diagnostics = []) ∧ s.target files = .ok target := by
  cases hcompiled : compileSettings s files.readText with
  | error cause => exact .inl ⟨cause, .compilation hcompiled⟩
  | ok c =>
    by_cases hclean : s.strict = true → c.diagnostics = []
    · cases htarget : s.target files with
      | ok target => exact .inr ⟨c, target, rfl, hclean, rfl⟩
      | error cause =>
        obtain ⟨path, why, hgiven, hcreated, -⟩ := target_eq_error htarget
        exact .inl ⟨_, .output hcompiled hclean hgiven hcreated⟩
    · obtain ⟨hstrict, hfound⟩ := Classical.not_imp.1 hclean
      exact .inl ⟨_, .strict hcompiled hstrict hfound⟩

/-! ## Whole runs -/

variable {arguments : List String} {environmentLevel : Option String}

/-- A run with given settings, less the reading of its arguments. -/
def runSettings (s : Settings) (files : FileSystem) : Outcome :=
  deliver s files (prepare s files.readText)

theorem run_of_parse (hs : Settings.parse arguments environmentLevel = .ok s) :
    run arguments environmentLevel files = runSettings s files := by
  rw [run, hs, runSettings]

/-- **A run fails without a trace, or puts out its text.**  Where the arguments are accepted and the
device, if the output goes to one, takes what it is given, there are two ways for a run to end.
Either there is a reason to fail: then the run ends with it, nothing has been shown, and all files
are as they were.  Or there is none: then the text of the policies, which is what a device receives
that takes all of it, has gone to one place, and apart from that all files are as they were.  The
output file may be one that the run has read. -/
theorem run_fails_or_puts_out (hs : Settings.parse arguments environmentLevel = .ok s)
    (hfull : s.target files ≠ .ok (.sink .full)) :
    (∃ cause, s.Fails files cause ∧
      (run arguments environmentLevel files).ending = .failed cause ∧
      (run arguments environmentLevel files).ending.exitCode = 1 ∧
      (run arguments environmentLevel files).output = "" ∧
      (run arguments environmentLevel files).files = files) ∨
    ∃ c, compileSettings s files.readText = .ok c ∧ (∀ cause, ¬ s.Fails files cause) ∧
      (run arguments environmentLevel files).ending = .done ∧
      (run arguments environmentLevel files).ending.exitCode = 0 ∧
      (run arguments environmentLevel files).PutsOut s.outputFile files
        (c.policies.text s.layout) ∧
      ∀ d : Device, d.Takes s.layout c.policies →
        (d.writePolicies s.layout c.policies).1.received =
          d.received ++ utf8 (c.policies.text s.layout) := by
  rw [run_of_parse hs, runSettings]
  rcases s.exists_fails_or files with ⟨cause, hfails⟩ | ⟨c, target, hcompiled, hclean, htarget⟩
  · refine .inl ⟨cause, hfails, ?_⟩
    rw [hfails.deliver_eq]
    exact ⟨rfl, rfl, rfl, rfl⟩
  · have htakes : target ≠ .sink .full := by
      rintro rfl
      exact hfull htarget
    obtain ⟨hdone, hputs⟩ := puts_out_deliver (policies_prepare hcompiled hclean) htarget htakes
    refine .inr ⟨c, hcompiled, fun cause hfails => ?_, hdone, by rw [hdone]; rfl, hputs,
      fun d hd => hd.writePolicies.2⟩
    rw [hfails.deliver_eq] at hdone
    cases hdone

/-! ### Two places to put out to

One application is declared, so there are policies to put out.  The applications are spelled in
brackets and quotes. -/

namespace OneApplication

/-- A folder with both documents, which list one application and nothing else. -/
def workFiles : FileSystem :=
  (FileSystem.initial.insert ["tmp", "work", "apps.yaml"]
    (.file "\x7b? \"ns\" : [\"billing\"]\x7d\n".toUTF8)).insert
      ["tmp", "work", "resource-usage.yaml"] (.file "\x7b\x7d\n".toUTF8)

/-- A run with a unit and a place to put out to. -/
def settings (outputFile : String) : Settings :=
  ⟨none, none, none, none, [⟨"unit", "x"⟩], none, none, none, some outputFile, false, false⟩

/-- The output takes the place of one of the inputs. -/
theorem replaces_its_input :
    Settings.parse ["-l", "unit=x", "-o", "./apps.yaml"] none = .ok (settings "./apps.yaml") ∧
    (settings "./apps.yaml").target workFiles ≠ .ok (.sink .full) ∧
    ∃ c, compileSettings (settings "./apps.yaml") workFiles.readText = .ok c ∧
      (run ["-l", "unit=x", "-o", "./apps.yaml"] none workFiles).output = "" ∧
      (run ["-l", "unit=x", "-o", "./apps.yaml"] none workFiles).files.readText "./apps.yaml" =
        .ok (c.policies.text .compact) := by
  have hs : Settings.parse ["-l", "unit=x", "-o", "./apps.yaml"] none =
    .ok (settings "./apps.yaml") := rfl
  have htarget : (settings "./apps.yaml").target workFiles =
    .ok (.file ["tmp", "work", "apps.yaml"]) := rfl
  have hfull : (settings "./apps.yaml").target workFiles ≠ .ok (.sink .full) := by
    rw [htarget]
    nofun
  refine ⟨hs, hfull, ?_⟩
  rcases run_fails_or_puts_out hs hfull with
    ⟨cause, -, -, hcode, -⟩ | ⟨c, hcompiled, -, -, -, hputs, -⟩
  · exact absurd hcode (by decide +kernel)
  · refine ⟨c, hcompiled, ?_⟩
    cases hputs with
    | shown hgiven => cases hgiven
    | written hgiven hcreated houtput hreplaced hreadBack =>
      cases hgiven
      exact ⟨houtput, hreadBack⟩
    | handedOn hgiven hcreated =>
      cases hgiven
      cases hcreated

theorem exists_granting : ∃ c,
    compileSettings (settings "/dev/stdout") workFiles.readText = .ok c ∧
      c.policies.granting ≠ [] := by
  have hfound : ((compileSettings (settings "/dev/stdout") workFiles.readText).toOption.any
    fun c => !c.policies.granting.isEmpty) = true := by decide +kernel
  obtain ⟨c, hcompiled, hgranting⟩ := exists_of_any_toOption hfound
  exact ⟨c, hcompiled, by simpa using hgranting⟩

/-- With an output file given, a text can still be shown: the path may lead to standard output. -/
theorem shown_with_output_file : ¬ ∀ (arguments : List String) (files : FileSystem) (s : Settings),
    Settings.parse arguments none = .ok s → s.target files ≠ .ok (.sink .full) →
      (run arguments none files).ending = .done → s.outputFile ≠ none →
        (run arguments none files).output = "" := by
  intro h
  have hs : Settings.parse ["-l", "unit=x", "-o", "/dev/stdout"] none =
    .ok (settings "/dev/stdout") := rfl
  have htarget : (settings "/dev/stdout").target workFiles = .ok (.sink .output) := rfl
  have hfull : FileSystem.Target.sink .output ≠ .sink .full := nofun
  have hrun : run ["-l", "unit=x", "-o", "/dev/stdout"] none workFiles =
    runSettings (settings "/dev/stdout") workFiles := run_of_parse hs
  obtain ⟨c, hcompiled, hgranting⟩ := exists_granting
  obtain ⟨hdone, hputs⟩ := puts_out_deliver (policies_prepare hcompiled nofun) htarget hfull
  have hempty := h _ workFiles _ hs (by rw [htarget]; nofun) (by rw [hrun]; exact hdone) nofun
  rw [hrun, runSettings] at hempty
  have htext : c.policies.text (settings "/dev/stdout").layout ≠ "" :=
    Policies.text_ne_empty hgranting
  cases hputs with
  | shown hgiven => cases hgiven
  | written hgiven hcreated =>
    cases hgiven
    cases hcreated
  | handedOn hgiven hcreated houtput =>
    cases hgiven
    cases hcreated
    exact htext (houtput.symm.trans hempty)

end OneApplication

end CommandLine
end GrantCompiler
