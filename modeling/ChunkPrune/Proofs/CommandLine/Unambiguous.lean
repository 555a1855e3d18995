import ChunkPrune.Proofs.CommandLine.Reading

/-!
# The command line is unambiguous

A configuration is written as its settings. They may stand in any order in which the applications
and the arguments for the engine keep theirs, and reading them gives the configuration back.
-/

namespace ChunkPrune

universe u

namespace Setting

/-! ## What a configuration reads from a setting -/

def root? : Setting → Option Path
  | .root path => some path
  | _ => none

def app? : Setting → Option AppSpec
  | .app spec => some spec
  | _ => none

def usageFile? : Setting → Option String
  | .usageFile name => some name
  | _ => none

def engine? : Setting → Option String
  | .engine program => some program
  | _ => none

def engineArg? : Setting → Option String
  | .engineArg argument => some argument
  | _ => none

def reportPath? : Setting → Option Path
  | .reportPath path => some path
  | _ => none

def jobs? : Setting → Option Nat
  | .jobs count => some count
  | _ => none

/-- Nothing is read from the settings of other options. -/
def ReadsOnly {α : Type u} (read? : Setting → Option α) (switch : Switch) : Prop :=
  ∀ setting : Setting, setting.switch ≠ switch → read? setting = none

theorem readsOnly_each :
    ReadsOnly root? .root ∧ ReadsOnly app? .app ∧ ReadsOnly usageFile? .usageFile ∧
      ReadsOnly engine? .engine ∧ ReadsOnly engineArg? .engineArg ∧
      ReadsOnly reportPath? .reportPath ∧ ReadsOnly jobs? .jobs := by
  refine ⟨?_, ?_, ?_, ?_, ?_, ?_, ?_⟩ <;> intro setting other <;>
    cases setting <;> first | rfl | exact absurd rfl other

end Setting

open Setting

theorem Workspace.ofSettings_eq (settings : List Setting) :
    ofSettings settings =
      { root := settings.findSome? root?
        apps := settings.filterMap app?
        usageFile := (settings.findSome? usageFile?).getD usageFileName } := rfl

namespace OptimizeArgs

theorem ofSettings_eq {settings : List Setting} {engine : String}
    (given : settings.findSome? engine? = some engine) :
    ofSettings settings =
      .ok
        { workspace := .ofSettings settings
          engine
          engineArgs := settings.filterMap engineArg?
          report := settings.contains .report
          reportPath := settings.findSome? reportPath?
          keptSample := settings.contains .keptSample
          noValidate := settings.contains .noValidate
          jobs := settings.findSome? jobs? } := by
  rw [ofSettings]
  split
  next none =>
    have missing : settings.findSome? engine? = Option.none := none
    rw [given] at missing
    cases missing
  next other found =>
    have same : settings.findSome? engine? = some other := found
    rw [given] at same
    cases same
    rfl

/-! ## Settings of a configuration -/

/-- The settings of one option. -/
def part (args : OptimizeArgs) : Switch → List Setting
  | .root => (args.workspace.root.map .root).toList
  | .app => args.workspace.apps.map .app
  | .usageFile => [.usageFile args.workspace.usageFile]
  | .engine => [.engine args.engine]
  | .engineArg => args.engineArgs.map .engineArg
  | .report => if args.report then [.report] else []
  | .reportPath => (args.reportPath.map .reportPath).toList
  | .keptSample => if args.keptSample then [.keptSample] else []
  | .noValidate => if args.noValidate then [.noValidate] else []
  | .jobs => (args.jobs.map .jobs).toList
  | .output => []
  | .help => []

/-- All settings, option by option. -/
def allSettings (args : OptimizeArgs) : List Setting := Switch.ofOptimize.flatMap args.part

/-- A configuration that can be written: no path is empty, and the number has 64 bits. -/
structure Writable (args : OptimizeArgs) : Prop where
  root : ∀ path ∈ args.workspace.root, path.text ≠ ""
  apps : ∀ spec ∈ args.workspace.apps, spec.Writable
  reportPath : ∀ path ∈ args.reportPath, path.text ≠ ""
  jobs : ∀ count ∈ args.jobs, count < Nat.pow 2 64

/-- The settings in any order in which those of an option that may stand twice keep theirs. -/
structure Writes (args : OptimizeArgs) (settings : List Setting) : Prop where
  perm : settings.Perm args.allSettings
  ordered : ∀ switch : Switch, switch.isRepeatable = true →
    settings.filter (·.switch = switch) = args.part switch

variable {args : OptimizeArgs}

theorem switch_of_mem_part {switch : Switch} {setting : Setting}
    (member : setting ∈ args.part switch) : setting.switch = switch := by
  cases switch with
  | root | app | engineArg | reportPath | jobs =>
      obtain ⟨value, -, rfl⟩ := by simpa [part] using member
      rfl
  | usageFile | engine =>
      obtain rfl := by simpa [part] using member
      rfl
  | report | keptSample | noValidate =>
      obtain ⟨-, rfl⟩ := by simpa [part] using member
      rfl
  | output | help => simp [part] at member

theorem part_eq_nil_or_singleton (args : OptimizeArgs) {switch : Switch}
    (single : switch.isRepeatable = false) :
    args.part switch = [] ∨ ∃ setting, args.part switch = [setting] := by
  cases switch with
  | app | engineArg => cases single
  | usageFile | engine => exact Or.inr ⟨_, rfl⟩
  | output | help => exact Or.inl rfl
  | root => cases given : args.workspace.root <;> simp [part, given]
  | reportPath => cases given : args.reportPath <;> simp [part, given]
  | jobs => cases given : args.jobs <;> simp [part, given]
  | report => cases given : args.report <;> simp [part, given]
  | keptSample => cases given : args.keptSample <;> simp [part, given]
  | noValidate => cases given : args.noValidate <;> simp [part, given]

theorem readable_of_mem_part (writable : args.Writable) {switch : Switch} {setting : Setting}
    (member : setting ∈ args.part switch) : setting.Readable := by
  cases switch with
  | root =>
      obtain ⟨path, given, rfl⟩ := by simpa [part] using member
      exact congrArg (Except.map Setting.root) (readPath_text (writable.root path given))
  | app =>
      obtain ⟨spec, given, rfl⟩ := by simpa [part] using member
      have read := AppSpec.read_render (writable.apps spec given)
      rw [Readable]
      show Except.map Setting.app (Except.mapError _ (AppSpec.read spec.render)) = _
      rw [read]
      rfl
  | engineArg =>
      obtain ⟨argument, -, rfl⟩ := by simpa [part] using member
      rfl
  | reportPath =>
      obtain ⟨path, given, rfl⟩ := by simpa [part] using member
      exact congrArg (Except.map Setting.reportPath)
        (readPath_text (writable.reportPath path given))
  | jobs =>
      obtain ⟨count, given, rfl⟩ := by simpa [part] using member
      exact congrArg (Except.map Setting.jobs) (readCount_toString (writable.jobs count given))
  | usageFile | engine =>
      obtain rfl := by simpa [part] using member
      rfl
  | report | keptSample | noValidate =>
      obtain ⟨-, rfl⟩ := by simpa [part] using member
      rfl
  | output | help => simp [part] at member

/-- The settings of an option are those that a configuration has for it. -/
theorem filter_allSettings (args : OptimizeArgs) (switch : Switch) :
    args.allSettings.filter (·.switch = switch) = args.part switch := by
  have parts : ∀ other : Switch, (args.part other).filter (·.switch = switch) =
      if other = switch then args.part switch else [] := by
    intro other
    by_cases same : other = switch
    · rw [if_pos same, same]
      exact List.filter_eq_self.mpr fun _ member => decide_eq_true (switch_of_mem_part member)
    · rw [if_neg same]
      refine List.filter_eq_nil_iff.mpr fun _ member => ?_
      rw [switch_of_mem_part member]
      simpa using same
  rw [allSettings, List.filter_flatMap]
  simp only [parts]
  cases switch <;> simp [Switch.ofOptimize, Switch.ofWorkspace, part]

/-- The settings of each option are written in their order; one alone has no other order. -/
theorem Writes.filter_eq {written : List Setting} (writes : args.Writes written)
    (switch : Switch) : written.filter (·.switch = switch) = args.part switch := by
  by_cases repeatable : switch.isRepeatable = true
  · exact writes.ordered switch repeatable
  · have perm := writes.perm.filter (·.switch = switch)
    rw [filter_allSettings] at perm
    rcases part_eq_nil_or_singleton args (Bool.eq_false_iff.mpr repeatable) with
      none | ⟨setting, one⟩
    · rw [none] at perm ⊢
      exact perm.eq_nil
    · rw [one] at perm ⊢
      exact List.perm_singleton.mp perm

/-! ## Reading the settings -/

section Written

variable {written : List Setting} (writes : args.Writes written)

include writes

theorem Writes.filterMap_eq {α : Type u} {read? : Setting → Option α} {switch : Switch}
    (only : ReadsOnly read? switch) :
    written.filterMap read? = (args.part switch).filterMap read? := by
  rw [← writes.filter_eq switch, List.filterMap_filter]
  refine List.filterMap_congr fun setting _ => ?_
  by_cases own : setting.switch = switch
  · simp [own]
  · simp [own, only setting own]

theorem Writes.findSome?_eq {α : Type u} {read? : Setting → Option α} {switch : Switch}
    (only : ReadsOnly read? switch) :
    written.findSome? read? = (args.part switch).findSome? read? := by
  rw [← List.head?_filterMap, writes.filterMap_eq only, List.head?_filterMap]

theorem Writes.contains_eq (setting : Setting) :
    written.contains setting = (args.part setting.switch).contains setting := by
  rw [← writes.filter_eq setting.switch]
  simp

/-- The configuration is read from its settings, whatever order they stand in. -/
theorem Writes.ofSettings_eq : ofSettings written = .ok args := by
  obtain ⟨onlyRoot, onlyApp, onlyUsageFile, onlyEngine, onlyEngineArg, onlyReportPath, onlyJobs⟩ :=
    readsOnly_each
  have root : written.findSome? root? = args.workspace.root := by
    rw [writes.findSome?_eq onlyRoot, part]
    cases args.workspace.root <;> rfl
  have apps : written.filterMap app? = args.workspace.apps := by
    rw [writes.filterMap_eq onlyApp, part, List.filterMap_map]
    exact List.filterMap_some
  have usageFile : written.findSome? usageFile? = some args.workspace.usageFile :=
    writes.findSome?_eq onlyUsageFile
  have engine : written.findSome? engine? = some args.engine :=
    writes.findSome?_eq onlyEngine
  have engineArgs : written.filterMap engineArg? = args.engineArgs := by
    rw [writes.filterMap_eq onlyEngineArg, part, List.filterMap_map]
    exact List.filterMap_some
  have report : written.contains .report = args.report := by
    rw [writes.contains_eq]
    cases given : args.report <;> simp [part, Setting.switch, given]
  have reportPath : written.findSome? reportPath? = args.reportPath := by
    rw [writes.findSome?_eq onlyReportPath, part]
    cases args.reportPath <;> rfl
  have keptSample : written.contains .keptSample = args.keptSample := by
    rw [writes.contains_eq]
    cases given : args.keptSample <;> simp [part, Setting.switch, given]
  have noValidate : written.contains .noValidate = args.noValidate := by
    rw [writes.contains_eq]
    cases given : args.noValidate <;> simp [part, Setting.switch, given]
  have jobs : written.findSome? jobs? = args.jobs := by
    rw [writes.findSome?_eq onlyJobs, part]
    cases args.jobs <;> rfl
  rw [OptimizeArgs.ofSettings_eq engine, Workspace.ofSettings_eq, root, apps, usageFile,
    engineArgs, report, reportPath, keptSample, noValidate, jobs]
  rfl

end Written

theorem compatible_symm {first second : Setting} (compatible : first.Compatible second) :
    second.Compatible first := fun same => by rw [same]; exact compatible same.symm

theorem pairwise_compatible_allSettings (args : OptimizeArgs) :
    args.allSettings.Pairwise Setting.Compatible := by
  rw [allSettings, List.pairwise_flatMap]
  constructor
  · intro switch _
    by_cases repeatable : switch.isRepeatable = true
    · refine List.pairwise_of_forall_mem_list fun first member second _ same => ?_
      rw [switch_of_mem_part member, repeatable]
    · rcases part_eq_nil_or_singleton args (Bool.eq_false_iff.mpr repeatable) with
        none | ⟨setting, one⟩
      · rw [none]
        exact .nil
      · rw [one]
        exact List.pairwise_singleton _ _
  · have different : Switch.ofOptimize.Pairwise fun first second => first ≠ second := by decide
    refine different.imp fun apart x memberX y memberY same => ?_
    rw [switch_of_mem_part memberX, switch_of_mem_part memberY] at same
    exact absurd same apart

end OptimizeArgs

/-! ## Applications -/

/-- The application with its output directory: the one that is given, or the build output below
its name, and the root before it unless it starts at the top. -/
def AppSpec.placed (root : Path) (spec : AppSpec) : Application :=
  let dir := spec.outputDir.getD (Path.join ⟨spec.name⟩ ⟨"dist"⟩)
  ⟨spec.name, if dir.isAbsolute then dir else root.join dir⟩

theorem AppSpec.application_eq_placed {spec : AppSpec} (named : spec.name ≠ "") (root : Path) :
    spec.application root = spec.placed root := by
  have whole : ∀ dir : Path, root.join dir = if dir.isAbsolute then dir else root.join dir := by
    intro dir
    by_cases absolute : dir.isAbsolute = true
    · rw [if_pos absolute, Path.join, if_pos absolute]
    · rw [if_neg absolute]
  cases given : spec.outputDir with
  | none =>
      have joined : (root.join ⟨spec.name⟩).join ⟨"dist"⟩ =
          root.join (Path.join ⟨spec.name⟩ ⟨"dist"⟩) := Path.join_join named root ⟨"dist"⟩
      simp only [application, placed, given, defaultOutputDir, joined, Option.getD_none, ← whole]
  | some dir => simp only [application, placed, given, Option.getD_some, ← whole]

/-- The applications that are given, or the host and the remote one. -/
def Workspace.chosen (workspace : Workspace) : List AppSpec :=
  if workspace.apps = [] then [⟨"host", none⟩, ⟨"remote", none⟩] else workspace.apps

theorem Workspace.applications_eq_placed {workspace : Workspace}
    (named : ∀ spec ∈ workspace.apps, spec.name ≠ "") (root : Path) :
    workspace.applications root = workspace.chosen.map (AppSpec.placed root) := by
  have map : ∀ specs : List AppSpec, (∀ spec ∈ specs, spec.name ≠ "") →
      specs.map (AppSpec.application root) = specs.map (AppSpec.placed root) :=
    fun specs each => List.map_congr_left fun spec member =>
      AppSpec.application_eq_placed (each spec member) root
  cases given : workspace.apps with
  | nil =>
      rw [applications, chosen, given, if_pos rfl]
      exact map AppSpec.defaults (by decide)
  | cons first rest =>
      rw [given] at named
      rw [applications, chosen, given, if_neg (List.cons_ne_nil first rest)]
      exact map _ named

/-! ## The command line -/

/-- However a configuration is written and spelled, the command line gives it back, with its
applications in their order. -/
theorem OptimizeArgs.read_spelled {args : OptimizeArgs} (writable : args.Writable)
    {written : List Setting} (writes : args.Writes written) {arguments : List String}
    (spelled : Spelled written arguments) (root : Path) :
    read arguments = .ok args ∧
      args.workspace.applications root = args.workspace.chosen.map (AppSpec.placed root) := by
  have parts : ∀ setting ∈ written, ∃ switch ∈ Switch.ofOptimize, setting ∈ args.part switch :=
    fun setting member => List.mem_flatMap.mp (writes.perm.mem_iff.mp member)
  have members : ∀ setting ∈ written, setting.switch ∈ Switch.ofOptimize := by
    intro setting member
    obtain ⟨switch, known, own⟩ := parts setting member
    rwa [switch_of_mem_part own]
  have readable : ∀ setting ∈ written, setting.Readable := by
    intro setting member
    obtain ⟨switch, -, own⟩ := parts setting member
    exact readable_of_mem_part writable own
  have compatible : written.Pairwise Setting.Compatible :=
    (writes.perm.pairwise_iff compatible_symm).mpr (pairwise_compatible_allSettings args)
  constructor
  · rw [read, readSettings_of_spelled spelled members readable compatible]
    exact writes.ofSettings_eq
  · exact Workspace.applications_eq_placed
      (fun spec member => (writable.apps spec member).name_ne) root

/-! ## Arguments that look like options -/

def trickyArgs : OptimizeArgs where
  workspace :=
    { root := some ⟨"-r"⟩
      apps := [⟨"web", some ⟨"/out/a=b"⟩⟩, ⟨"-x", none⟩]
      usageFile := "--engine=y" }
  engine := "=e"
  engineArgs := ["--", "--engine=x", "-r", "--engine-arg"]
  report := true
  reportPath := some ⟨"a b"⟩
  keptSample := false
  noValidate := true
  jobs := some 3

/-- The settings of an option are apart from each other. -/
def trickySettings : List Setting :=
  [.engineArg "--", .jobs 3, .app ⟨"web", some ⟨"/out/a=b"⟩⟩, .engineArg "--engine=x",
    .engine "=e", .noValidate, .engineArg "-r", .app ⟨"-x", none⟩, .reportPath ⟨"a b"⟩,
    .usageFile "--engine=y", .report, .engineArg "--engine-arg", .root ⟨"-r"⟩]

def trickyArguments : List String :=
  ["--engine-arg", "--", "--jobs=3", "--app=web=/out/a=b", "--engine-arg=--engine=x",
    "--engine==e", "--no-validate", "--engine-arg", "-r", "--app=-x", "--report-path=a b",
    "--usage-file=--engine=y", "--report", "--engine-arg", "--engine-arg", "--root=-r"]

theorem writable_trickyArgs : trickyArgs.Writable := by
  refine ⟨?_, ?_, ?_, ?_⟩
  · decide
  · intro spec member
    rcases List.mem_pair.mp member with rfl | rfl
    · exact ⟨by decide, by decide, by decide, by decide, by decide⟩
    · exact ⟨by decide, by decide, by decide, by decide, by decide⟩
  · decide
  · decide

theorem writes_trickySettings : trickyArgs.Writes trickySettings := by
  refine ⟨by decide, ?_⟩
  intro switch _
  cases switch <;> rfl

theorem spelled_trickyArguments : Spelled trickySettings trickyArguments :=
  .apart "--" <| .whole (.jobs 3) <| .whole (.app ⟨"web", some ⟨"/out/a=b"⟩⟩) <|
    .whole (.engineArg "--engine=x") <| .whole (.engine "=e") <| .whole .noValidate <|
    .apart "-r" <| .whole (.app ⟨"-x", none⟩) <| .whole (.reportPath ⟨"a b"⟩) <|
    .whole (.usageFile "--engine=y") <| .whole .report <| .apart "--engine-arg" <|
    .whole (.root ⟨"-r"⟩) .nil

theorem read_spelled_trickyArguments :
    trickyArgs.Writable ∧ trickyArgs.Writes trickySettings ∧
      Spelled trickySettings trickyArguments ∧
      OptimizeArgs.read trickyArguments = .ok trickyArgs ∧
      trickyArgs.workspace.applications ⟨"/srv"⟩ =
        [⟨"web", ⟨"/out/a=b"⟩⟩, ⟨"-x", ⟨"/srv/-x/dist"⟩⟩] := by
  obtain ⟨read, applications⟩ := OptimizeArgs.read_spelled writable_trickyArgs
    writes_trickySettings spelled_trickyArguments ⟨"/srv"⟩
  exact ⟨writable_trickyArgs, writes_trickySettings, spelled_trickyArguments, read,
    applications.trans (by decide)⟩

end ChunkPrune
