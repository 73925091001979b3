import GradleWorkspace.Command.Run
import GradleWorkspace.Proofs.Discovery
import GradleWorkspace.Proofs.Report

/-!
# The exit status of the command

The exit status tells what a run found: nothing to report, a workspace that is not in order, or
one that is.  What the run wrote depends on it.

* `findings_of_hasNoReport` and `findings_of_not_hasNoReport` say what is found if there is nothing
  to report, and if there is.
* `exists_examine_eq` says that the command comes to its findings.
* `run_status` is the result about a whole run.
-/

namespace GradleWorkspace.Command

open DependencyGraph

/-! ## Findings -/

/-- Whether there is nothing to report: the workspace has no modules, or not the one that was
asked for. -/
def HasNoReport (ws : Workspace) (requested : Option String) : Prop :=
  ws.modules = [] ∨ ∃ name, requested = some name ∧ name ∉ ws.names

section Findings

variable {options : Options} {format : Format} {ws : Workspace}

theorem findings_of_hasNoReport (strict : Bool) (before : List Message)
    (h : HasNoReport ws options.requested) :
    ∃ found, findings options strict before ws (ofModules ws.modules) = .ok found ∧
      found.report = none ∧ found.status = statusUsage := by
  rw [findings]
  split
  · exact ⟨_, rfl, rfl, rfl⟩
  · next hmodules =>
    obtain ⟨name, hname⟩ := h.resolve_left (by simpa using hmodules)
    rw [Report.of_eq_error_iff (e := ⟨name⟩) |>.2 hname]
    exact ⟨_, rfl, rfl, rfl⟩

theorem findings_of_not_hasNoReport (strict : Bool) (before : List Message)
    (hformat : Format.ofName? options.format = some format)
    (h : ¬HasNoReport ws options.requested) :
    ∃ found r, findings options strict before ws (ofModules ws.modules) = .ok found ∧
      Report.of ws (ofModules ws.modules) options.requested = .ok r ∧
      found.report = some (r.render format) ∧
      found.status = statusOf strict r.cycles (ofModules ws.modules).unresolved := by
  rw [HasNoReport, not_or] at h
  cases hreport : Report.of ws (ofModules ws.modules) options.requested with
  | error e => exact absurd ⟨e.name, Report.of_eq_error_iff.1 hreport⟩ h.2
  | ok r =>
      have hrender : r.renderNamed options.format = .ok (r.render format) := by
        rw [Report.renderNamed, hformat]
      rw [findings, if_neg (by simpa using h.1)]
      dsimp only
      rw [hreport]
      dsimp only
      rw [hrender]
      exact ⟨_, r, rfl, rfl, rfl, rfl⟩

end Findings

/-- If a report gives no reason to complain, it has a build order, and each reference became an
edge if all of them have to be resolved. -/
theorem buildOrder_and_edges_of_report {ws : Workspace} {requested : Option String} {r : Report}
    {strict : Bool} (h : Report.of ws (ofModules ws.modules) requested = .ok r)
    (hnone : ¬(r.cycles ≠ [] ∨ strict = true ∧ (ofModules ws.modules).unresolved ≠ [])) :
    (∃ order, r.document.field? "buildOrder" = some (.texts order)) ∧
      (strict = true → ∀ m ∈ ws.modules,
        List.Forall₂ (fun path target => resolveProjectPath path ws.modules = [target])
          m.facts.projectPaths ((ofModules ws.modules).successors m.name)) := by
  obtain ⟨hcycles, hunresolved⟩ := not_or.1 hnone
  constructor
  · obtain ⟨transitive, -, hr⟩ := Report.of_eq_ok_iff.1 h
    have hcycles : (ofModules ws.modules).cycles = [] := by
      rw [hr] at hcycles
      exact not_not.1 hcycles
    obtain ⟨order, horder⟩ := buildOrder_eq_ok_iff.2 hcycles
    have hordered : r.buildOrder = .ok order := by rw [hr, horder]
    rcases r.buildOrder_fields_cases with ⟨found, -, hfield, -⟩ | ⟨e, herror, -, -⟩
    · exact ⟨found, hfield⟩
    · simp [hordered] at herror
  · intro hstrict m hm
    have hnil : (ofModules ws.modules).unresolved = [] := by simpa [hstrict] using hunresolved
    rw [successors_ofModules ws.nodup_names hm]
    exact forall₂_targets_of_unresolved_eq_nil hnil hm

theorem statusOf_cases (strict : Bool) (cycles : List (List String))
    (unresolved : List UnresolvedReference) :
    (statusOf strict cycles unresolved = statusInvalid ∧
        (cycles ≠ [] ∨ strict = true ∧ unresolved ≠ [])) ∨
      statusOf strict cycles unresolved = statusOk ∧
        ¬(cycles ≠ [] ∨ strict = true ∧ unresolved ≠ []) := by
  rw [statusOf]
  split
  · next h => exact Or.inl ⟨rfl, by simpa using h⟩
  · next h => exact Or.inr ⟨rfl, by simpa using h⟩

/-! ## Analysis -/

theorem exists_analyze_eq_ok {tree : FileTree} {root place : Path} (config : Config)
    (hplace : tree.resolve? root = some place) :
    ∃ found, analyze tree root (some config) = .ok found ∧
      (discover tree place config.exclude).value = .ok found.value.1 ∧
      found.value.2 = ofModules found.value.1.modules := by
  obtain ⟨found, hfound, hdiscover⟩ := exists_discoverAt_eq_ok config.exclude hplace
  simp only [analyze, configFor, bind, Except.bind]
  have hvalue : (Logged.pure config).value = config := rfl
  rw [hvalue, hfound]
  exact ⟨_, rfl, hdiscover, rfl⟩

/-- The command comes to its findings if it can resolve the path of the workspace and read the
configuration there. -/
theorem exists_examine_eq {tree : FileTree} {options : Options} {root place : Path}
    {config : Logged Config} (hroot : tree.resolve? options.workspace = some root)
    (hplace : tree.resolve? root = some place) (hconfig : Config.load tree root = .ok config) :
    ∃ ws before, (discover tree place config.value.exclude).value = .ok ws ∧
      examine tree options = (findings options (options.strict.getD config.value.strict) before
        ws (ofModules ws.modules)).mapError .format := by
  obtain ⟨found, hanalyze, hdiscover, hgraph⟩ := exists_analyze_eq_ok config.value hplace
  refine ⟨found.value.1, config.messages ++ found.messages, hdiscover, ?_⟩
  rw [← hgraph]
  simp only [examine, hroot, configFor, hconfig, bind, Except.bind, Except.mapError, hanalyze]

/-! ## Runs -/

/-- Whether a run has written a text where it was to be written, to a file or to the standard
output, and in the latter case nothing else. -/
def Outcome.HasWritten (outcome : Outcome) (before : FileTree) (output : Option Path)
    (text : String) : Prop :=
  match output with
  | none => outcome.stdout = text ∧ outcome.tree = before
  | some path => outcome.stdout = "" ∧ outcome.tree.bytes? path = some text.toUTF8

theorem ofFindings_of_report_eq_none (tree : FileTree) (output : Option Path) {found : Findings}
    (h : found.report = none) :
    Outcome.ofFindings tree output found =
      { status := found.status, stdout := "", messages := found.before ++ found.after, tree } := by
  unfold Outcome.ofFindings
  simp only [h]

theorem hasWritten_ofFindings {tree : FileTree} {output : Option Path} {found : Findings}
    {text : String} (houtput : ∀ path ∈ output, (tree.write path .empty).error = none)
    (h : found.report = some text) :
    (Outcome.ofFindings tree output found).writeError = none ∧
      (Outcome.ofFindings tree output found).status = found.status ∧
      (Outcome.ofFindings tree output found).HasWritten tree output text := by
  unfold Outcome.ofFindings
  simp only [h]
  cases output with
  | none => exact ⟨rfl, rfl, rfl, rfl⟩
  | some path =>
      have hwrite : (tree.write path text.toUTF8).error = none := by
        rw [FileTree.error_write tree path _ .empty]
        exact houtput path rfl
      exact ⟨hwrite, rfl, rfl, FileTree.bytes?_write hwrite⟩

/-- A run that can resolve the path of its workspace, read the configuration there and write its
report ends with one of three exit statuses.  (The path is resolved once more for the discovery,
which can fail only where links lead back to themselves.)

The status is 2 exactly if there is nothing to report, and then nothing is written.  Otherwise the
report is written; the status is 1 if there is a cycle, or a reference that is not resolved though
it has to be, and 0 if there is neither.  With status 0 the report has a build order, and if all
references have to be resolved, each of them became an edge. -/
theorem run_status (tree : FileTree) (options : Options) {root place : Path}
    {config : Logged Config} {format : Format}
    (hroot : tree.resolve? options.workspace = some root)
    (hplace : tree.resolve? root = some place) (hconfig : Config.load tree root = .ok config)
    (hformat : Format.ofName? options.format = some format)
    (houtput : ∀ path ∈ options.output, (tree.write path .empty).error = none) :
    ∃ ws outcome, (discover tree place config.value.exclude).value = .ok ws ∧
      run tree options = .ok outcome ∧ outcome.writeError = none ∧
      (outcome.status = 2 ↔
        ws.modules = [] ∨ ∃ name, options.requested = some name ∧ name ∉ ws.names) ∧
      (outcome.status = 2 → outcome.stdout = "" ∧ outcome.tree = tree) ∧
      (outcome.status ≠ 2 → ∃ r,
        Report.of ws (ofModules ws.modules) options.requested = .ok r ∧
        outcome.HasWritten tree options.output (r.render format) ∧
        (outcome.status = 1 ∨ outcome.status = 0) ∧
        (outcome.status = 1 ↔ r.cycles ≠ [] ∨
          options.strict.getD config.value.strict = true ∧
            (ofModules ws.modules).unresolved ≠ []) ∧
        (outcome.status = 0 →
          (∃ order, r.document.field? "buildOrder" = some (.texts order)) ∧
          (options.strict.getD config.value.strict = true → ∀ m ∈ ws.modules,
            List.Forall₂ (fun path target => resolveProjectPath path ws.modules = [target])
              m.facts.projectPaths ((ofModules ws.modules).successors m.name)))) := by
  obtain ⟨ws, before, hdiscover, hexamine⟩ := exists_examine_eq hroot hplace hconfig
  have hrun : ∀ found, findings options (options.strict.getD config.value.strict) before ws
      (ofModules ws.modules) = .ok found →
      run tree options = .ok (.ofFindings tree options.output found) := by
    intro found hfound
    rw [run, hexamine, hfound]
    rfl
  by_cases hno : HasNoReport ws options.requested
  · obtain ⟨found, hfound, hreport, hstatus⟩ := findings_of_hasNoReport _ before hno
    refine ⟨ws, _, hdiscover, hrun found hfound, ?_⟩
    rw [ofFindings_of_report_eq_none tree options.output hreport, hstatus]
    exact ⟨rfl, iff_of_true rfl hno, fun _ => ⟨rfl, rfl⟩, fun hne => absurd rfl hne⟩
  · obtain ⟨found, r, hfound, hr, hreport, hstatus⟩ :=
      findings_of_not_hasNoReport _ before hformat hno
    obtain ⟨hwrite, hsame, hwritten⟩ := hasWritten_ofFindings houtput hreport
    refine ⟨ws, _, hdiscover, hrun found hfound, hwrite, ?_⟩
    rw [hsame, hstatus]
    -- With a report, all that is left to tell apart is whether it gives reason to complain.
    rcases statusOf_cases (options.strict.getD config.value.strict) r.cycles
        (ofModules ws.modules).unresolved with ⟨hvalue, hbad⟩ | ⟨hvalue, hgood⟩ <;> rw [hvalue]
    · exact ⟨iff_of_false (by decide) hno, fun h => absurd h (by decide), fun _ =>
        ⟨r, hr, hwritten, Or.inl rfl, iff_of_true rfl hbad, fun h => absurd h (by decide)⟩⟩
    · exact ⟨iff_of_false (by decide) hno, fun h => absurd h (by decide), fun _ =>
        ⟨r, hr, hwritten, Or.inr rfl, iff_of_false (by decide) hgood, fun _ =>
          buildOrder_and_edges_of_report hr hgood⟩⟩

/-- A build file with a reference to nowhere. -/
def danglingScript : String :=
  "dependencies \x7b\n    implementation project(\":nowhere\")\n\x7d\n"

/-- The module with this build file, at the root of its workspace. -/
def danglingModule : Module where
  name := "ws"
  path := ""
  facts := { dependencies := [.project "implementation" ":nowhere"] }
  buildFile := some "build.gradle"

/-- A tree with a workspace that has this module only. -/
def danglingTree : FileTree :=
  FileTree.empty.putFile ["ws", "build.gradle"] danglingScript.toUTF8

theorem loadModule_danglingTree :
    (loadModule danglingTree (.absolute ["ws"]) "ws" []).value = some danglingModule := by
  have hfile : danglingTree.buildFile? (.absolute ["ws"]) = some "build.gradle" := by cbv
  have hsettings : danglingTree.settingsFile? (.absolute ["ws"]) = none := by cbv
  have hbytes : danglingTree.bytes? (.absolute ["ws", "build.gradle"]) =
      some danglingScript.toUTF8 := by cbv
  have htext : decodeText danglingScript.toUTF8 = some danglingScript := by decide +kernel
  have hparse : BuildFile.parse .groovy danglingScript = danglingModule.facts := by
    decide +kernel
  have hread : (danglingTree.readText (.absolute ["ws", "build.gradle"])).value =
      some danglingScript := by
    rw [FileTree.readText, hbytes, Option.bind_some, htext]
    rfl
  have hfacts : (readFacts danglingTree (.absolute ["ws", "build.gradle"])).value =
      danglingModule.facts := by
    rw [readFacts, Logged.value_bind, hread]
    exact hparse
  rw [loadModule]
  simp only [Path.absolute, List.append_nil] at hfile hsettings hfacts ⊢
  rw [hfile, hsettings]
  simp only [Logged.value_bind, Logged.value_pure, Path.member, List.cons_append,
    List.nil_append, hfacts]
  rfl

theorem discover_danglingTree :
    (discover danglingTree (.absolute ["ws"]) []).value =
      .ok { root := "/ws", modules := [danglingModule], nodup_names := by simp,
            nodup_paths := by simp } := by
  have hsettings : readSettings danglingTree (.absolute ["ws"]) = .pure {} := by cbv
  have hdirectories : (candidateDirectories danglingTree (.absolute ["ws"]) []).value = [[]] := by
    cbv
  have hmodules : (loadModules danglingTree (.absolute ["ws"]) "ws" [] [[]]).value =
      [danglingModule] := by
    rw [loadModules, Logged.value_bind, loadModule_danglingTree]
    rfl
  have hname : (Settings.rootName {}).getD (Path.absolute ["ws"]).name = "ws" := rfl
  have htext : (Path.absolute ["ws"]).text = "/ws" := by decide +kernel
  simp only [discover, Logged.value_bind, Logged.value_pure, hsettings, hdirectories]
  rw [Logged.pure, hname, hmodules, htext]
  rfl

/-- The run that treats references to nowhere as errors and writes its report to a file. -/
def danglingOptions : Options where
  workspace := .absolute ["ws"]
  output := some (.absolute ["out", "report.json"])
  strict := some true

theorem run_status_dangling :
    ∃ outcome, run danglingTree danglingOptions = .ok outcome ∧ outcome.status = 1 ∧
      outcome.stdout = "" ∧ ∃ text : String,
        outcome.tree.bytes? (.absolute ["out", "report.json"]) = some text.toUTF8 := by
  obtain ⟨ws, outcome, hdiscover, hrun, -, hnothing, -, hreport⟩ :=
    @run_status danglingTree danglingOptions (.absolute ["ws"]) (.absolute ["ws"]) (.pure {}) .json
      (by cbv) (by cbv) (by cbv) rfl (by
        intro path hpath
        obtain rfl := Option.some.inj hpath
        cbv)
  obtain rfl := Except.ok.inj (discover_danglingTree.symm.trans hdiscover)
  have hsome : outcome.status ≠ 2 := fun hstatus => by
    simpa [danglingOptions] using hnothing.1 hstatus
  obtain ⟨r, -, ⟨hstdout, hfile⟩, -, hone, -⟩ := hreport hsome
  have hunresolved : (ofModules [danglingModule]).unresolved = [⟨"ws", ":nowhere", []⟩] := rfl
  refine ⟨outcome, hrun, hone.2 (Or.inr ⟨rfl, ?_⟩), hstdout, r.render .json, hfile⟩
  rw [hunresolved]
  simp

end GradleWorkspace.Command
