import EtlTool.Core.ResultText
import EtlTool.Core.Secrets
import EtlTool.Engine.Accounting
import EtlTool.Engine.Diagnostics

/-!
# The command line

The three commands of {lit}`etl`: {lit}`run` executes a document, {lit}`test` tests a source,
{lit}`validate` checks a document.  A command reads a file, gathers the secrets that the
document mentions from a file or from the environment, and ends with an exit code or a message.

Main results:

- Theorem {lit}`runCommand_kept`: what the exit code of a run says, and what a run that is
  refused leaves undone.
- Theorem {lit}`command_confined`: the secrets that a command resolves depend on the environment
  variables of those that its document mentions, and on no others.

Current gaps:

- The parsing of the arguments, which ends with exit code 2 on its own; a file of which only a
  part is written.
- What the HTTP clients (proxies) and {lit}`expanduser` (the home directory) read from the
  environment: it belongs to the libraries here.
- Times: their texts are parameters.
-/

namespace EtlTool

/-! ## Arguments and surroundings -/

/-- {lit}`_add_common_options`. -/
structure CommonOptions where
  secretsFile : Option String := none
  secretsPrefix : String := "ETL_SECRET_"
  allowHost : List String := []
  noSsrfGuard : Bool := false
  json : Bool := false

/-- The arguments of {lit}`etl run`. -/
structure RunArgs where
  pipeline : String
  common : CommonOptions := {}
  continueOnError : Bool := false
  maxConcurrency : Int := 8
  output : Option String := none
  showRecords : Int := 3

/-- {lit}`args.command`, with its arguments. -/
inductive Command where
  | run (args : RunArgs)
  | test (source : String) (common : CommonOptions)
  | validate (pipeline : String)

/-- The files of the process, and the environment in which secrets are looked up. -/
structure World where
  /-- {lit}`path.read_text()`. -/
  readText : String → Except PyException String
  /-- What {lit}`path.write_text(text)` raises. -/
  writeText : String → String → Option PyException
  /-- {lit}`os.environ.get(name)`, as {lit}`EnvSecretsProvider` calls it. -/
  environ : String → Option PyText

/-- What the commands call. -/
structure CommandLibraries (α ν : Type) where
  runtime : Runtime
  network : NetworkLibraries α ν
  outside : Outside
  spelling : FloatSpelling
  /-- {lit}`json.loads`. -/
  loads : String → Except PyException Value
  /-- {lit}`PipelineSpec.model_validate_json`. -/
  modelValidateJson : String → Except PyException PipelineSpec
  /-- {lit}`NodeSpec.model_validate`. -/
  nodeModelValidate : Value → Except PyException NodeSpec
  /-- The engine, whose nodes send their requests under a policy. -/
  engine : SsrfPolicy → Engine
  /-- Static validation does not see the policy. -/
  engine_static : ∀ policy spec,
    (engine policy).validatePipeline spec = (engine {}).validatePipeline spec
  schedule : String → List FanOut.Choice
  /-- {lit}`model_dump` of a result. -/
  modelDump : RunResult → Except PyException Value
  /-- {lit}`model_dump_json(indent=2)` of a report. -/
  reportJson : DiagnosticReport → String
  /-- The seconds of the run, with two digits. -/
  elapsed : String
  /-- The milliseconds of a node. -/
  nodeElapsed : String → Option String
  /-- The milliseconds of a check, on seven places. -/
  latency : RungName → Option String

/-- How a command ends. -/
inductive CommandEnd where
  | returned (code : Nat)
  /-- {lit}`SystemExit(message)`. -/
  | exited (message : String)
  | raised (exc : PyException)
deriving DecidableEq

/-- The exit code of the process. -/
def CommandEnd.exitCode : CommandEnd → Nat
  | returned code => code
  | exited _ => 1
  | raised _ => 1

/-- {lit}`EXIT_OK`. -/
def exitOk : Nat := 0

/-- {lit}`EXIT_FAILED`. -/
def exitFailed : Nat := 1

/-- {lit}`EXIT_USAGE`. -/
def exitUsage : Nat := 2

/-- What a command does: the events of its run, its contacts, the lines on both streams and the
files that it writes. -/
structure CommandOutcome where
  trace : List Event := []
  contacts : List Contact := []
  printed : List String := []
  reported : List String := []
  written : List (String × String) := []
  finish : CommandEnd

/-- A command that ends before it does anything. -/
def CommandOutcome.stopped (finish : CommandEnd) : CommandOutcome where
  finish := finish

/-- {lit}`isinstance(exc, ValueError)`, validation errors included. -/
def PyException.isInvalid (exc : PyException) : Bool :=
  exc.isValueError || exc.typeName = "ValidationError"

/-- {lit}`_ssrf_policy`. -/
def CommonOptions.ssrfPolicy (common : CommonOptions) : SsrfPolicy where
  enabled := !common.noSsrfGuard
  allowHosts := common.allowHost

/-! ## Secrets -/

/-- {lit}`StaticSecretsProvider.get`. -/
def staticSecret (values : OrderedDict String PyText) : SecretsProvider := fun ref =>
  match values.get? ref with
  | some value => .ok value
  | none => .error (.notFound ref)

/-- {lit}`EnvSecretsProvider.get`. -/
def envSecret (secretsPrefix : String) (environ : String → Option PyText) : SecretsProvider :=
  fun ref =>
    match environ (secretsPrefix ++ ref) with
    | some value => .ok value
    | none => .error (.notFound ref)

/-- The inner loop of {lit}`_gather_secrets`: the first provider that has the secret. -/
def firstSecret : List SecretsProvider → SecretsProvider
  | [], ref => .error (.notFound ref)
  | provider :: rest, ref =>
      match provider ref with
      | .error (.notFound _) => firstSecret rest ref
      | result => result

/-- The outer loop: what is resolved, and what is missing. -/
def gatherRefs (provider : SecretsProvider) :
    List String → Except PyException (List (String × PyText) × List String)
  | [] => .ok ([], [])
  | ref :: rest =>
      match provider ref with
      | .error (.other exc) => .error exc
      | .error (.notFound _) =>
          (gatherRefs provider rest).map fun gathered => (gathered.1, ref :: gathered.2)
      | .ok value =>
          (gatherRefs provider rest).map fun gathered => ((ref, value) :: gathered.1, gathered.2)

/-- {lit}`sorted(refs)` of the references in a config. -/
def sortedRefs (config : Fields) : List String :=
  (collectRefsFromFields config).dedup.mergeSort fun a b => decide (a ≤ b)

section

variable {α ν : Type} (libs : CommandLibraries α ν) (w : World)

/-- {lit}`json.loads(path.read_text())`. -/
def readJsonFile (path : String) : Except PyException Value :=
  match w.readText path with
  | .error exc => .error exc
  | .ok text => libs.loads text

/-- {lit}`str(v)` of each value. -/
def secretTexts (rt : Runtime) : Fields → Option (List (String × PyText))
  | [] => some []
  | (key, value) :: rest =>
      match rt.pyStr value, secretTexts rt rest with
      | some text, some pairs => some ((key, PyText.ofString text) :: pairs)
      | _, _ => none

/-- The values of the secrets file, if one is given. -/
def secretsFileValues (common : CommonOptions) :
    Except CommandEnd (Option (OrderedDict String PyText)) :=
  match common.secretsFile with
  | none => .ok none
  | some path =>
      match readJsonFile libs w path with
      | .error exc =>
          if libs.outside.isOSError exc || exc.isValueError then
            .error (.exited ("error: cannot read secrets file: " ++ exc.message))
          else .error (.raised exc)
      | .ok (.dict fields) =>
          match secretTexts libs.runtime fields with
          | some pairs => .ok (some (.ofList pairs))
          | none => .error (.raised intConversionError)
      | .ok _ =>
          .error (.exited "error: secrets file must be a JSON object of \x7bref: value\x7d")

/-- The provider of {lit}`_gather_secrets`: the file before the environment. -/
def commandSecrets (common : CommonOptions) (file : Option (OrderedDict String PyText)) :
    SecretsProvider :=
  firstSecret ((file.map staticSecret).toList ++ [envSecret common.secretsPrefix w.environ])

/-- The message about missing secrets. -/
def missingSecrets (common : CommonOptions) (missing : List String) : String :=
  "error: missing secret(s): " ++ ", ".intercalate missing ++ " (set " ++ common.secretsPrefix ++
    "<REF> or use --secrets-file)"

/-- {lit}`_gather_secrets`. -/
def gatherSecrets (common : CommonOptions) (refs : List String) :
    Except CommandEnd (OrderedDict String PyText) :=
  match secretsFileValues libs w common with
  | .error finish => .error finish
  | .ok file =>
      match gatherRefs (commandSecrets w common file) refs with
      | .error exc => .error (.raised exc)
      | .ok (pairs, []) => .ok (.ofList pairs)
      | .ok (_, missing) => .error (.exited (missingSecrets common missing))

/-! ## What is printed -/

/-- {lit}`_NODE_ICONS`. -/
def NodeStatus.icon : NodeStatus → String
  | succeeded => "✔"
  | failed => "✖"
  | skipped => "○"

/-- {lit}`NodeStatus.value`. -/
def NodeStatus.text : NodeStatus → String
  | succeeded => "succeeded"
  | failed => "failed"
  | skipped => "skipped"

/-- {lit}`RunStatus.value.upper()`. -/
def RunStatus.upperText : RunStatus → String
  | succeeded => "SUCCEEDED"
  | failed => "FAILED"

/-- {lit}`ErrorCategory.value`. -/
def ErrorCategory.text : ErrorCategory → String
  | dns => "dns"
  | network => "network"
  | tls => "tls"
  | timeout => "timeout"
  | httpStatus => "http_status"
  | auth => "auth"
  | rateLimit => "rate_limit"
  | validation => "validation"
  | transform => "transform"
  | decryption => "decryption"
  | config => "config"
  | unknown => "unknown"

/-- {lit}`ValidationIssue.__str__`. -/
def ValidationIssue.text (issue : ValidationIssue) : String :=
  match issue.nodeId.bind nonEmpty? with
  | some id => "[" ++ id ++ "] " ++ issue.message
  | none => issue.message

/-- The line of a node. -/
def nodeLine (node : NodeResult) : String :=
  "  " ++ node.status.icon ++ " " ++ node.nodeId ++ " (" ++ node.nodeType ++ ") - " ++
    node.status.text ++
    (node.recordsOut.map fun count => ", " ++ toString count ++ " record(s)").getD "" ++
    (node.iterations.map fun count => ", " ++ toString count ++ " iteration(s)").getD "" ++
    ((libs.nodeElapsed node.nodeId).map fun time => ", " ++ time ++ " ms").getD ""

/-- The lines of an error. -/
def errorLines (error : NodeError) : List String :=
  ["  ✖ " ++ error.nodeId ++ " [" ++ error.category.text ++ "]: " ++ error.message] ++
    ((error.requestSummary.bind nonEmpty?).map fun request =>
      "      request: " ++ request).toList ++
    ((error.httpStatus.filter (· ≠ 0)).map fun status =>
      "      http_status: " ++ toString status ++ ", attempts: " ++ toString error.attempts).toList

/-- The line of a record, cut off after 400 characters of JSON. -/
def recordLine (record : Fields) : Except PyException String :=
  (libs.runtime.jsonDumps false (fun text _ => text) (.dict record)).map fun json =>
    "    " ++ String.ofList (json.toList.take 400)

/-- The lines of {lit}`_print_run_summary`; nothing in them is redacted. -/
def runSummary (result : RunResult) (showRecords : Int) : List (Except PyException String) :=
  [.ok ("pipeline " ++ libs.runtime.reprStr result.pipelineId ++ ": " ++
      result.status.upperText ++ " in " ++ libs.elapsed ++ "s")] ++
    (result.nodeResults.values.map fun node => .ok (nodeLine libs node)) ++
    (if result.errors = [] then []
      else (("errors:" :: result.errors.flatMap errorLines).map Except.ok)) ++
    (if result.outputs.keys = [] ∨ showRecords ≤ 0 then []
      else .ok "outputs:" :: result.outputs.entries.flatMap fun output =>
        .ok ("  " ++ output.1 ++ ": " ++ toString output.2.length ++ " record(s)") ::
          (output.2.take showRecords.toNat).map (recordLine libs))

/-- The lines that are printed until one raises. -/
def printLines : List (Except PyException String) → List String × Option PyException
  | [] => ([], none)
  | .error exc :: _ => ([], some exc)
  | .ok line :: rest => (line :: (printLines rest).1, (printLines rest).2)

/-- A text on the left of a number of places. -/
def padRight (places : Nat) (text : String) : String :=
  text ++ String.ofList (List.replicate (places - text.length) ' ')

/-- The icon of a check. -/
def checkIcon : Ladders.Status → String
  | .passed => "✔"
  | .failed => "✖"
  | .skipped => "○"

/-- The lines of {lit}`_print_test_report`. -/
def testReport (report : DiagnosticReport) : List String :=
  ["target: " ++ (nonEmpty? report.target).getD "(invalid config)"] ++
    (report.checks.map fun check =>
      "  " ++ checkIcon check.status ++ " " ++ padRight 12 check.name.text ++ " " ++
        ((libs.latency check.name).map (· ++ " ms")).getD (String.ofList (List.replicate 10 ' ')) ++
        "  " ++ ((check.detail.bind nonEmpty?).or check.error).getD "") ++
    ["result: " ++ if report.ok then "OK" else "FAILED"] ++
    match report.sampleBody.bind nonEmpty? with
    | none => []
    | some sample =>
        ["sample body (truncated, redacted):",
          "  " ++ String.ofList ((sample.toList.take 500).flatMap fun c =>
            if c = '\n' then ['\n', ' ', ' '] else [c])]

/-! ## The commands -/

/-- {lit}`PipelineSpec.from_file`. -/
def pipelineFromFile (path : String) : Except PyException PipelineSpec :=
  match w.readText path with
  | .error exc => .error exc
  | .ok text => libs.modelValidateJson text

/-- {lit}`_load_pipeline`. -/
def loadPipeline (path : String) : Except CommandEnd PipelineSpec :=
  match pipelineFromFile libs w path with
  | .ok spec => .ok spec
  | .error exc =>
      if libs.outside.isOSError exc then
        .error (.exited ("error: cannot read " ++ path ++ ": " ++ exc.message))
      else if exc.isInvalid then
        .error (.exited ("error: " ++ path ++ " is not a valid pipeline document:\n" ++
          exc.message))
      else .error (.raised exc)

/-- The document of {lit}`_cmd_test`. -/
def sourceFromFile (path : String) : Except PyException NodeSpec :=
  match readJsonFile libs w path with
  | .error exc => .error exc
  | .ok raw => libs.nodeModelValidate raw

/-- The source of {lit}`_cmd_test`. -/
def loadSource (path : String) : Except CommandEnd NodeSpec :=
  match sourceFromFile libs w path with
  | .ok source => .ok source
  | .error exc =>
      if libs.outside.isOSError exc then
        .error (.exited ("error: cannot read " ++ path ++ ": " ++ exc.message))
      else if exc.isInvalid then
        .error (.exited ("error: " ++ path ++ " must be a node spec " ++
          "\x7b\"type\": \"api_source\", \"config\": \x7b...\x7d\x7d:\n" ++ exc.message))
      else .error (.raised exc)

/-- The issues of {lit}`validate_pipeline`. -/
def staticIssues (spec : PipelineSpec) : List ValidationIssue :=
  (libs.engine {}).validatePipeline spec

/-- The lines about an invalid document. -/
def invalidLines (spec : PipelineSpec) : List String :=
  ("pipeline " ++ libs.runtime.reprStr spec.pipelineId ++ " is invalid:") ::
    (staticIssues libs spec).map fun issue => "  - " ++ issue.text

/-- {lit}`ExecutionOptions(...)`: the concurrency has to be at least one. -/
def RunArgs.executionOptions (args : RunArgs) : Except PyException ExecutionOptions :=
  if h : 1 ≤ args.maxConcurrency then
    .ok {
      maxConcurrency := args.maxConcurrency.toNat
      continueOnError := args.continueOnError
      maxConcurrency_pos := by omega }
  else .error ⟨"ValidationError", some "Input should be greater than or equal to 1"⟩

/-- The redacted JSON text of a result. -/
def resultText (secrets : OrderedDict String PyText) (result : RunResult) :
    Except PyException String :=
  match Redactor.ofSecrets secrets.values with
  | .error exc => .error exc
  | .ok redactor =>
      match libs.modelDump result with
      | .error exc => .error exc
      | .ok dumped => .ok (resultJson libs.spelling redactor dumped)

/-- The end of {lit}`_cmd_run` after the execution. -/
def reportRun (args : RunArgs) (secrets : OrderedDict String PyText) (e : Execution) :
    CommandOutcome :=
  match e.outcome with
  | .error exc => { trace := e.trace, finish := .raised exc }
  | .ok result =>
      match resultText libs secrets result with
      | .error exc => { trace := e.trace, finish := .raised exc }
      | .ok text =>
          match args.output.bind (w.writeText · text) with
          | some exc => { trace := e.trace, finish := .raised exc }
          | none =>
              let shown :=
                if args.common.json then ([text], none)
                else printLines (runSummary libs result args.showRecords)
              { trace := e.trace
                printed := shown.1
                reported := (args.output.map ("wrote full run result to " ++ ·)).toList
                written := (args.output.map fun path => (path, text)).toList
                finish :=
                  match shown.2 with
                  | some exc => .raised exc
                  | none => .returned (if result.status = .succeeded then exitOk else exitFailed) }

/-- {lit}`_cmd_run`. -/
def runCommand (args : RunArgs) : CommandOutcome :=
  match loadPipeline libs w args.pipeline with
  | .error finish => .stopped finish
  | .ok spec =>
      if staticIssues libs spec ≠ [] then
        { reported := invalidLines libs spec, finish := .returned exitUsage }
      else
        match gatherSecrets libs w args.common (collectSecretRefs spec) with
        | .error finish => .stopped finish
        | .ok secrets =>
            match args.executionOptions with
            | .error exc => .stopped (.raised exc)
            | .ok options =>
                reportRun libs w args secrets ((libs.engine args.common.ssrfPolicy).executePipeline
                  libs.schedule spec secrets options)

/-- {lit}`_cmd_test`. -/
def testCommand (path : String) (common : CommonOptions) : CommandOutcome :=
  match loadSource libs w path with
  | .error finish => .stopped finish
  | .ok source =>
      match gatherSecrets libs w common (sortedRefs source.config) with
      | .error finish => .stopped finish
      | .ok secrets =>
          let diagnosis := testConnection libs.runtime libs.network libs.outside common.ssrfPolicy
            secrets 2000 source.type source.config
          match diagnosis.outcome with
          | .error exc => { contacts := diagnosis.contacts, finish := .raised exc }
          | .ok report =>
              { contacts := diagnosis.contacts
                printed := if common.json then [libs.reportJson report] else testReport libs report
                finish := .returned (if report.ok then exitOk else exitFailed) }

/-- {lit}`_cmd_validate`. -/
def validateCommand (path : String) : CommandOutcome :=
  match loadPipeline libs w path with
  | .error finish => .stopped finish
  | .ok spec =>
      if staticIssues libs spec ≠ [] then
        { printed := invalidLines libs spec, finish := .returned exitFailed }
      else
        { printed := ["pipeline " ++ libs.runtime.reprStr spec.pipelineId ++ " is valid (" ++
            toString spec.nodes.length ++ " nodes, " ++ toString spec.edges.length ++ " edges)"]
          finish := .returned exitOk }

/-- {lit}`main`, after the parsing of the arguments. -/
def mainCommand : Command → CommandOutcome
  | .run args => runCommand libs w args
  | .test source common => testCommand libs w source common
  | .validate pipeline => validateCommand libs w pipeline

end

/-! ## What is gathered -/

/-- A provider that answers alike gathers alike. -/
theorem gatherRefs_congr {provider provider' : SecretsProvider} {refs : List String}
    (h : ∀ ref ∈ refs, provider' ref = provider ref) :
    gatherRefs provider' refs = gatherRefs provider refs := by
  induction refs with
  | nil => rfl
  | cons ref rest ih =>
      rcases List.forall_mem_cons.mp h with ⟨hfirst, hrest⟩
      rw [gatherRefs, gatherRefs, hfirst, ih hrest]

/-- The secrets that are found, and the references without one. -/
theorem gatherRefs_spec {provider : SecretsProvider} {found : String → Option PyText}
    (hfound : ∀ ref, provider ref = (found ref).elim (.error (.notFound ref)) .ok)
    (refs : List String) :
    gatherRefs provider refs = .ok (refs.filterMap fun ref => (found ref).map (Prod.mk ref),
      refs.filter fun ref => (found ref).isNone) := by
  induction refs with
  | nil => rfl
  | cons ref rest ih =>
      rw [gatherRefs, hfound, ih]
      cases hvalue : found ref with
      | none => simp [hvalue, Except.map]
      | some value => simp [hvalue, Except.map]

section

variable {α ν : Type} {libs : CommandLibraries α ν} {w : World} {common : CommonOptions}
variable {file : Option (OrderedDict String PyText)}

/-- The value of a secret: that of the file, or that of its environment variable. -/
def secretFor? (w : World) (common : CommonOptions) (file : Option (OrderedDict String PyText))
    (ref : String) : Option PyText :=
  (file.bind fun values => values.get? ref).or (w.environ (common.secretsPrefix ++ ref))

private theorem commandSecrets_eq (ref : String) : commandSecrets w common file ref =
    (secretFor? w common file ref).elim (.error (.notFound ref)) .ok := by
  have henv : firstSecret [envSecret common.secretsPrefix w.environ] ref =
      (w.environ (common.secretsPrefix ++ ref)).elim (.error (.notFound ref)) .ok := by
    simp only [firstSecret, envSecret]
    cases w.environ (common.secretsPrefix ++ ref) <;> rfl
  cases file with
  | none => exact henv
  | some values =>
      simp only [commandSecrets, Option.map_some, Option.toList_some, List.cons_append,
        List.nil_append, firstSecret, staticSecret, secretFor?, Option.bind_some]
      cases values.get? ref with
      | some value => rfl
      | none => exact henv

/-- How the gathering ends: at the file, at the missing secrets, or with all of them. -/
inductive Gathered (libs : CommandLibraries α ν) (w : World) (common : CommonOptions)
    (refs : List String) : Except CommandEnd (OrderedDict String PyText) → Prop where
  | unreadable {finish : CommandEnd} (hfile : secretsFileValues libs w common = .error finish) :
      Gathered libs w common refs (.error finish)
  | missing {file : Option (OrderedDict String PyText)} {missing : List String}
      (hfile : secretsFileValues libs w common = .ok file)
      (hmissing : missing = refs.filter fun ref => (secretFor? w common file ref).isNone)
      (hsome : missing ≠ []) :
      Gathered libs w common refs (.error (.exited (missingSecrets common missing)))
  | complete {file : Option (OrderedDict String PyText)} {secrets : OrderedDict String PyText}
      (hfile : secretsFileValues libs w common = .ok file)
      (hall : ∀ ref ∈ refs, (secretFor? w common file ref).isSome)
      (hkeys : ∀ ref, ref ∈ secrets.keys ↔ ref ∈ refs)
      (hvalues : ∀ ref ∈ refs, secrets.get? ref = secretFor? w common file ref) :
      Gathered libs w common refs (.ok secrets)

private theorem gathered_complete {refs : List String} {found : String → Option PyText}
    (hall : ∀ ref ∈ refs, (found ref).isSome) :
    let secrets := OrderedDict.ofList (refs.filterMap fun ref => (found ref).map (Prod.mk ref))
    (∀ ref, ref ∈ secrets.keys ↔ ref ∈ refs) ∧ ∀ ref ∈ refs, secrets.get? ref = found ref := by
  intro secrets
  have hpair : ∀ pair, pair ∈ (refs.filterMap fun ref => (found ref).map (Prod.mk ref)) ↔
      pair.1 ∈ refs ∧ found pair.1 = some pair.2 := by
    intro pair
    rw [List.mem_filterMap]
    constructor
    · intro h
      rcases h with ⟨ref, href, hmapped⟩
      rcases Option.map_eq_some_iff.mp hmapped with ⟨value, hvalue, rfl⟩
      exact ⟨href, hvalue⟩
    · intro h
      exact ⟨pair.1, h.1, by rw [h.2]; rfl⟩
  have hkeys : ∀ ref, ref ∈ secrets.keys ↔ ref ∈ refs := by
    intro ref
    rw [OrderedDict.mem_keys_ofList, List.mem_map]
    constructor
    · intro h
      rcases h with ⟨pair, hmem, rfl⟩
      exact ((hpair pair).mp hmem).1
    · intro href
      rcases Option.isSome_iff_exists.mp (hall ref href) with ⟨value, hvalue⟩
      exact ⟨(ref, value), (hpair _).mpr ⟨href, hvalue⟩, rfl⟩
  refine ⟨hkeys, ?_⟩
  intro ref href
  rcases OrderedDict.exists_get?_of_mem_keys ((hkeys ref).mpr href) with ⟨value, hvalue⟩
  rw [hvalue, ((hpair _).mp (OrderedDict.mem_of_get?_ofList hvalue)).2]

private theorem gatherSecrets_spec (refs : List String) :
    Gathered libs w common refs (gatherSecrets libs w common refs) := by
  rw [gatherSecrets]
  cases hfile : secretsFileValues libs w common with
  | error finish => exact .unreadable hfile
  | ok file =>
      dsimp only
      rw [gatherRefs_spec commandSecrets_eq]
      cases hmissing : refs.filter fun ref => (secretFor? w common file ref).isNone with
      | cons first rest =>
          exact .missing hfile hmissing.symm (List.cons_ne_nil first rest)
      | nil =>
          have hall : ∀ ref ∈ refs, (secretFor? w common file ref).isSome := by
            intro ref href
            have hnot := List.filter_eq_nil_iff.mp hmissing ref href
            rwa [Option.isNone_iff_eq_none, ← ne_eq, ← Option.isSome_iff_ne_none] at hnot
          rcases gathered_complete hall with ⟨hkeys, hvalues⟩
          exact .complete hfile hall hkeys hvalues

end

/-! ## How a run of the command ends -/

/-- A run of the engine that the command comes to: the document is valid, and each secret that it
mentions has been found. -/
structure Executes {α ν : Type} (libs : CommandLibraries α ν) (w : World) (args : RunArgs)
    (spec : PipelineSpec) (secrets : OrderedDict String PyText) (options : ExecutionOptions) :
    Prop where
  loaded : loadPipeline libs w args.pipeline = .ok spec
  valid : staticIssues libs spec = []
  gathered : gatherSecrets libs w args.common (collectSecretRefs spec) = .ok secrets
  optioned : args.executionOptions = .ok options

section

variable {α ν : Type} {libs : CommandLibraries α ν} {w : World} {args : RunArgs}

/-- The execution of a run of the command. -/
def commandExecution (libs : CommandLibraries α ν) (args : RunArgs) (spec : PipelineSpec)
    (secrets : OrderedDict String PyText) (options : ExecutionOptions) : Execution :=
  (libs.engine args.common.ssrfPolicy).executePipeline libs.schedule spec secrets options

/-- The ways of {lit}`_cmd_run`. -/
inductive RunWay (libs : CommandLibraries α ν) (w : World) (args : RunArgs) :
    CommandOutcome → Prop where
  | unread {finish : CommandEnd} (hload : loadPipeline libs w args.pipeline = .error finish) :
      RunWay libs w args (.stopped finish)
  | refused {spec : PipelineSpec} (hload : loadPipeline libs w args.pipeline = .ok spec)
      (hissues : staticIssues libs spec ≠ []) :
      RunWay libs w args { reported := invalidLines libs spec, finish := .returned exitUsage }
  | unarmed {spec : PipelineSpec} {finish : CommandEnd}
      (hload : loadPipeline libs w args.pipeline = .ok spec) (hvalid : staticIssues libs spec = [])
      (hgather : gatherSecrets libs w args.common (collectSecretRefs spec) = .error finish) :
      RunWay libs w args (.stopped finish)
  | misconfigured {spec : PipelineSpec} {exc : PyException}
      (hload : loadPipeline libs w args.pipeline = .ok spec) (hvalid : staticIssues libs spec = [])
      (hoptions : args.executionOptions = .error exc) :
      RunWay libs w args (.stopped (.raised exc))
  | executed {spec : PipelineSpec} {secrets : OrderedDict String PyText}
      {options : ExecutionOptions} (h : Executes libs w args spec secrets options) :
      RunWay libs w args (reportRun libs w args secrets
        (commandExecution libs args spec secrets options))

private theorem runCommand_way : RunWay libs w args (runCommand libs w args) := by
  rw [runCommand]
  cases hload : loadPipeline libs w args.pipeline with
  | error finish => exact .unread hload
  | ok spec =>
      dsimp only
      by_cases hissues : staticIssues libs spec = []
      · rw [if_neg (not_not_intro hissues)]
        cases hgather : gatherSecrets libs w args.common (collectSecretRefs spec) with
        | error finish => exact .unarmed hload hissues hgather
        | ok secrets =>
            cases hoptions : args.executionOptions with
            | error exc => exact .misconfigured hload hissues hoptions
            | ok options => exact .executed ⟨hload, hissues, hgather, hoptions⟩
      · rw [if_pos hissues]
        exact .refused hload hissues

/-- The ways of the report: an exception after the execution, or the text of the result. -/
inductive ReportWay (libs : CommandLibraries α ν) (args : RunArgs)
    (secrets : OrderedDict String PyText) (e : Execution) : CommandOutcome → Prop where
  | raised (exc : PyException) :
      ReportWay libs args secrets e { trace := e.trace, finish := .raised exc }
  | shown {result : RunResult} {text : String} {o : CommandOutcome}
      (hresult : e.outcome = .ok result) (htext : resultText libs secrets result = .ok text)
      (htrace : o.trace = e.trace) (hjson : args.common.json = true → o.printed = [text])
      (hwritten : o.written = (args.output.map fun path => (path, text)).toList)
      (hfinish : (∃ exc, o.finish = .raised exc) ∨
        o.finish = .returned (if result.status = .succeeded then exitOk else exitFailed)) :
      ReportWay libs args secrets e o

private theorem reportRun_way (secrets : OrderedDict String PyText) (e : Execution) :
    ReportWay libs args secrets e (reportRun libs w args secrets e) := by
  rw [reportRun]
  cases hresult : e.outcome with
  | error exc => exact .raised exc
  | ok result =>
      dsimp only
      cases htext : resultText libs secrets result with
      | error exc => exact .raised exc
      | ok text =>
          dsimp only
          cases args.output.bind (w.writeText · text) with
          | some exc => exact .raised exc
          | none =>
              refine .shown hresult htext rfl (fun hjson => ?_) rfl ?_
              · simp only [hjson, if_true]
              · dsimp only
                split
                · rename_i exc hraised
                  exact Or.inl ⟨exc, rfl⟩
                · exact Or.inr rfl

end

/-! ## What a run of the command leaves behind -/

/-- No form of a secret that is long enough occurs in a text. -/
def HidesSecrets (secrets : List PyText) (text : String) : Prop :=
  ∀ secret ∈ secrets, minRedactableLength ≤ secret.length →
    ∃ scalars, secret.scalars? = some scalars ∧
      ∀ form ∈ secretForms scalars, ¬ form <:+: text.toList

private theorem redact_hides {secrets : List PyText} {redactor : Redactor}
    (hbuilt : Redactor.ofSecrets secrets = .ok redactor)
    (hmask : ∀ secret ∈ secrets, CodePoint.scalar '*' ∉ secret) (text : String) :
    HidesSecrets secrets (redactor.redact text) := by
  intro secret hsecret hlong
  have hclean := (ofSecrets_isOk_iff secrets).mp ⟨redactor, hbuilt⟩ secret hsecret hlong
  rw [← scalars?_eq_none_iff, ← ne_eq, Option.ne_none_iff_exists'] at hclean
  rcases hclean with ⟨scalars, hscalars⟩
  refine ⟨scalars, hscalars, fun form hform => ?_⟩
  apply redact_removes (ofSecrets_apart hbuilt hmask) text form
  exact (mem_ofSecrets_iff hbuilt).mpr ⟨secret, hsecret, hlong, scalars, hscalars, hform⟩

private theorem resultText_hides {α ν : Type} {libs : CommandLibraries α ν}
    {secrets : OrderedDict String PyText} {result : RunResult} {text : String}
    (h : resultText libs secrets result = .ok text)
    (hmask : ∀ secret ∈ secrets.values, CodePoint.scalar '*' ∉ secret) :
    HidesSecrets secrets.values text := by
  unfold resultText at h
  split at h
  · cases h
  · rename_i redactor hbuilt
    split at h
    · cases h
    · cases h
      exact redact_hides hbuilt hmask _

/-- What holds of a run of the command. -/
structure RunCommandKept {α ν : Type} (libs : CommandLibraries α ν) (w : World) (args : RunArgs)
    (o : CommandOutcome) : Prop where
  /-- The engine is given the secrets that the document mentions, and no others; a secret comes
  from the file rather than from the environment. -/
  armed : ∀ spec secrets options, Executes libs w args spec secrets options →
    ∃ file, secretsFileValues libs w args.common = .ok file ∧
      (∀ ref, ref ∈ secrets.keys ↔ ref ∈ collectSecretRefs spec) ∧
      ∀ ref ∈ collectSecretRefs spec, (secretFor? w args.common file ref).isSome ∧
        secrets.get? ref = secretFor? w args.common file ref
  /-- A run that does not come to the engine prints and writes nothing. -/
  idle : (∀ spec secrets options, ¬ Executes libs w args spec secrets options) →
    o.trace = [] ∧ o.printed = [] ∧ o.written = []
  /-- The command is refused exactly for a document with issues, which {lit}`validate` prints. -/
  refused : (o.finish.exitCode = exitUsage ↔ ∃ spec,
      loadPipeline libs w args.pipeline = .ok spec ∧ staticIssues libs spec ≠ []) ∧
    (o.finish.exitCode = exitUsage → o.reported = (validateCommand libs w args.pipeline).printed)
  /-- A document that is not read ends the command with exit code 1. -/
  unread : ∀ finish, loadPipeline libs w args.pipeline = .error finish →
    o.finish.exitCode = exitFailed
  /-- All missing secrets are named at once. -/
  missing : ∀ spec file, loadPipeline libs w args.pipeline = .ok spec →
    staticIssues libs spec = [] → secretsFileValues libs w args.common = .ok file →
    ∀ ref ∈ collectSecretRefs spec, secretFor? w args.common file ref = none →
      o.finish = .exited (missingSecrets args.common
        ((collectSecretRefs spec).filter fun ref => (secretFor? w args.common file ref).isNone))
  /-- With exit code 0, every node of the document has succeeded. -/
  ok : o.finish.exitCode = exitOk → ∃ spec secrets options result,
    Executes libs w args spec secrets options ∧
      (commandExecution libs args spec secrets options).outcome = .ok result ∧
      ∀ node ∈ spec.nodes, ∃ nodeResult, result.nodeResults.get? node.id = some nodeResult ∧
        nodeResult.status = .succeeded
  /-- When the result says otherwise, the exit code is not 0. -/
  failed : ∀ spec secrets options result id nodeResult,
    Executes libs w args spec secrets options →
    (commandExecution libs args spec secrets options).outcome = .ok result →
    result.nodeResults.get? id = some nodeResult → nodeResult.status ≠ .succeeded →
      o.finish.exitCode = exitFailed
  /-- If no secret has an asterisk, what is written and what is printed as JSON hides every
  secret of at least four code points. -/
  hidden : ∀ spec secrets options, Executes libs w args spec secrets options →
    (∀ secret ∈ secrets.values, CodePoint.scalar '*' ∉ secret) →
    (∀ path text, (path, text) ∈ o.written → HidesSecrets secrets.values text) ∧
      (args.common.json = true → ∀ text ∈ o.printed, HidesSecrets secrets.values text)

section

variable {α ν : Type} {libs : CommandLibraries α ν} {w : World} {args : RunArgs}

theorem Executes.armed {spec : PipelineSpec} {secrets : OrderedDict String PyText}
    {options : ExecutionOptions} (h : Executes libs w args spec secrets options) :
    ∃ file, secretsFileValues libs w args.common = .ok file ∧
      (∀ ref, ref ∈ secrets.keys ↔ ref ∈ collectSecretRefs spec) ∧
      ∀ ref ∈ collectSecretRefs spec, (secretFor? w args.common file ref).isSome ∧
        secrets.get? ref = secretFor? w args.common file ref := by
  have hgathered : Gathered libs w args.common (collectSecretRefs spec)
      (gatherSecrets libs w args.common (collectSecretRefs spec)) := gatherSecrets_spec _
  rw [h.gathered] at hgathered
  cases hgathered with
  | @complete file _ hfile hall hkeys hvalues =>
      exact ⟨file, hfile, hkeys, fun ref href => ⟨hall ref href, hvalues ref href⟩⟩

/-- The result of the run accounts for the document. -/
theorem Executes.accounts {spec : PipelineSpec} {secrets : OrderedDict String PyText}
    {options : ExecutionOptions} (h : Executes libs w args spec secrets options)
    {result : RunResult}
    (hresult : (commandExecution libs args spec secrets options).outcome = .ok result) :
    result.Accounts spec options (commandExecution libs args spec secrets options).trace := by
  have hvalid : (libs.engine args.common.ssrfPolicy).validatePipeline spec = [] :=
    (libs.engine_static _ spec).trans h.valid
  unfold commandExecution at hresult ⊢
  rcases executePipeline_cases (libs.engine args.common.ssrfPolicy) libs.schedule spec secrets
    options with ⟨hissues, _⟩ | ⟨_, topo, htopo, ⟨exc, _, heq⟩ | ⟨redactor, _, heq⟩⟩
  · exact absurd hvalid hissues
  · rw [heq] at hresult
    cases hresult
  · rw [heq] at hresult ⊢
    have hsorted : PipelineRun.Sorted ⟨_, spec, ⟨secrets, options, redactor⟩⟩ topo :=
      ⟨Engine.validated_of_no_issues hvalid, htopo⟩
    have hlive := (PipelineRun.finish_fields hresult).1
    exact (PipelineRun.run_books hsorted libs.schedule hlive).accounts hsorted hresult
      (PipelineRun.run_confined hsorted libs.schedule)

/-! ### Exit codes -/

private theorem loadPipeline_error {path : String} {finish : CommandEnd}
    (h : loadPipeline libs w path = .error finish) : finish.exitCode = exitFailed := by
  unfold loadPipeline at h
  split at h
  · cases h
  · split at h
    · cases h
      rfl
    · split at h
      · cases h
        rfl
      · cases h
        rfl

private theorem secretsFileValues_error {common : CommonOptions} {finish : CommandEnd}
    (h : secretsFileValues libs w common = .error finish) : finish.exitCode = exitFailed := by
  unfold secretsFileValues at h
  split at h
  · cases h
  · split at h
    · split at h
      · cases h
        rfl
      · cases h
        rfl
    · split at h
      · cases h
      · cases h
        rfl
    · cases h
      rfl

private theorem gatherSecrets_error {common : CommonOptions} {refs : List String}
    {finish : CommandEnd}
    (h : gatherSecrets libs w common refs = .error finish) : finish.exitCode = exitFailed := by
  have hgathered : Gathered libs w common refs (gatherSecrets libs w common refs) :=
    gatherSecrets_spec refs
  rw [h] at hgathered
  cases hgathered with
  | unreadable hfile => exact secretsFileValues_error hfile
  | missing hfile hmissing hsome => rfl

/-- A missing secret stops the gathering, with a message about all that are missing. -/
theorem gatherSecrets_missing {common : CommonOptions} {refs : List String}
    {file : Option (OrderedDict String PyText)} (hfile : secretsFileValues libs w common = .ok file)
    {ref : String} (href : ref ∈ refs) (hnone : secretFor? w common file ref = none) :
    gatherSecrets libs w common refs = .error (.exited (missingSecrets common
      (refs.filter fun ref => (secretFor? w common file ref).isNone))) := by
  have hgathered : Gathered libs w common refs (gatherSecrets libs w common refs) :=
    gatherSecrets_spec refs
  generalize gatherSecrets libs w common refs = result at hgathered ⊢
  cases hgathered with
  | unreadable hfile' =>
      rw [hfile] at hfile'
      cases hfile'
  | missing hfile' hmissing hsome =>
      cases Except.ok.inj (hfile.symm.trans hfile')
      rw [hmissing]
  | complete hfile' hall =>
      cases Except.ok.inj (hfile.symm.trans hfile')
      have hfound := hall ref href
      rw [hnone] at hfound
      cases hfound

/-- A report ends with one of two codes. -/
theorem ReportWay.exitCode {secrets : OrderedDict String PyText} {e : Execution}
    {o : CommandOutcome} (h : ReportWay libs args secrets e o) :
    o.finish.exitCode = exitFailed ∨ (o.finish.exitCode = exitOk ∧
      ∃ result, e.outcome = .ok result ∧ result.status = .succeeded) := by
  cases h with
  | raised exc => exact Or.inl rfl
  | @shown result text _ hresult htext htrace hjson hwritten hfinish =>
      rcases hfinish with ⟨exc, hraised⟩ | hreturned
      · rw [hraised]
        exact Or.inl rfl
      · rw [hreturned]
        by_cases hstatus : result.status = .succeeded
        · rw [if_pos hstatus]
          exact Or.inr ⟨rfl, result, hresult, hstatus⟩
        · rw [if_neg hstatus]
          exact Or.inl rfl

/-- The command reports the run of the engine that it comes to. -/
theorem Executes.runCommand_eq {spec : PipelineSpec} {secrets : OrderedDict String PyText}
    {options : ExecutionOptions} (h : Executes libs w args spec secrets options) :
    runCommand libs w args =
      reportRun libs w args secrets (commandExecution libs args spec secrets options) := by
  simp only [runCommand, h.loaded, h.valid, h.gathered, h.optioned, ne_eq, not_true_eq_false,
    if_false, commandExecution]

private theorem validateCommand_refused {spec : PipelineSpec} {path : String}
    (hload : loadPipeline libs w path = .ok spec) (hissues : staticIssues libs spec ≠ []) :
    (validateCommand libs w path).printed = invalidLines libs spec := by
  simp only [validateCommand, hload, if_pos hissues]

variable {o : CommandOutcome}

theorem RunWay.idle (h : RunWay libs w args o)
    (hnone : ∀ spec secrets options, ¬ Executes libs w args spec secrets options) :
    o.trace = [] ∧ o.printed = [] ∧ o.written = [] := by
  cases h with
  | executed h => exact absurd h (hnone _ _ _)
  | _ => exact ⟨rfl, rfl, rfl⟩

/-- Exit code 2 is that of a document with issues. -/
theorem RunWay.refused_iff (h : RunWay libs w args o) :
    (o.finish.exitCode = exitUsage ↔ ∃ spec,
        loadPipeline libs w args.pipeline = .ok spec ∧ staticIssues libs spec ≠ []) ∧
      (o.finish.exitCode = exitUsage →
        o.reported = (validateCommand libs w args.pipeline).printed) := by
  have hother : o.finish.exitCode ≠ exitUsage →
      (∀ spec, loadPipeline libs w args.pipeline = .ok spec → staticIssues libs spec = []) →
      (o.finish.exitCode = exitUsage ↔ ∃ spec,
        loadPipeline libs w args.pipeline = .ok spec ∧ staticIssues libs spec ≠ []) ∧
        (o.finish.exitCode = exitUsage →
          o.reported = (validateCommand libs w args.pipeline).printed) := by
    intro hcode hvalid
    refine ⟨iff_of_false hcode ?_, fun h => absurd h hcode⟩
    rintro ⟨spec, hload, hissues⟩
    exact hissues (hvalid spec hload)
  have hloaded : ∀ {spec}, loadPipeline libs w args.pipeline = .ok spec →
      staticIssues libs spec = [] →
      ∀ other, loadPipeline libs w args.pipeline = .ok other → staticIssues libs other = [] := by
    intro spec hload hvalid other hother
    cases Except.ok.inj (hload.symm.trans hother)
    exact hvalid
  cases h with
  | unread hunread =>
      refine hother ?_ fun spec hload => by cases hload.symm.trans hunread
      rw [CommandOutcome.stopped, loadPipeline_error hunread]
      decide
  | @refused spec hload hissues =>
      exact ⟨iff_of_true rfl ⟨spec, hload, hissues⟩,
        fun _ => (validateCommand_refused hload hissues).symm⟩
  | unarmed hload hvalid hgather =>
      refine hother ?_ (hloaded hload hvalid)
      rw [CommandOutcome.stopped, gatherSecrets_error hgather]
      decide
  | misconfigured hload hvalid hoptions =>
      refine hother ?_ (hloaded hload hvalid)
      rw [CommandOutcome.stopped, CommandEnd.exitCode]
      decide
  | executed h =>
      refine hother ?_ (hloaded h.loaded h.valid)
      rcases (reportRun_way _ _).exitCode with hcode | ⟨hcode, _⟩
      · rw [hcode]
        decide
      · rw [hcode]
        decide

/-- Only a run of the engine with a successful result ends with exit code 0. -/
theorem RunWay.executes_of_ok (h : RunWay libs w args o) (hcode : o.finish.exitCode = exitOk) :
    ∃ spec secrets options result, Executes libs w args spec secrets options ∧
      (commandExecution libs args spec secrets options).outcome = .ok result ∧
      result.status = .succeeded := by
  have hnot : exitFailed ≠ exitOk := by decide
  cases h with
  | unread hunread => exact absurd ((loadPipeline_error hunread).symm.trans hcode) hnot
  | refused hload hissues => cases hcode
  | unarmed hload hvalid hgather =>
      exact absurd ((gatherSecrets_error hgather).symm.trans hcode) hnot
  | misconfigured hload hvalid hoptions => cases hcode
  | @executed spec secrets options h =>
      rcases (reportRun_way secrets _).exitCode with hfailed | ⟨_, result, hresult, hstatus⟩
      · exact absurd (hfailed.symm.trans hcode) hnot
      · exact ⟨spec, secrets, options, result, h, hresult, hstatus⟩

private theorem ReportWay.hides {secrets : OrderedDict String PyText} {e : Execution}
    (h : ReportWay libs args secrets e o)
    (hmask : ∀ secret ∈ secrets.values, CodePoint.scalar '*' ∉ secret) :
    (∀ path text, (path, text) ∈ o.written → HidesSecrets secrets.values text) ∧
      (args.common.json = true → ∀ text ∈ o.printed, HidesSecrets secrets.values text) := by
  cases h with
  | raised exc => exact ⟨(fun _ _ hmem => nomatch hmem), fun _ _ hmem => nomatch hmem⟩
  | @shown result text _ hresult htext htrace hjson hwritten hfinish =>
      have hhidden := resultText_hides htext hmask
      constructor
      · intro path text' hmem
        rw [hwritten, Option.mem_toList] at hmem
        rcases Option.map_eq_some_iff.mp hmem with ⟨_, _, heq⟩
        cases heq
        exact hhidden
      · intro hflag text' hmem
        rw [hjson hflag, List.mem_singleton] at hmem
        rw [hmem]
        exact hhidden

end

/-- In all its ways, a run of the command keeps to its exit codes: 2 for a document with issues,
0 for a run in which every node has succeeded.  A run that is refused leaves nothing behind, and
what is written hides the secrets that the engine was given, if they are long enough and none
of them has an asterisk. -/
theorem runCommand_kept {α ν : Type} (libs : CommandLibraries α ν) (w : World) (args : RunArgs) :
    RunCommandKept libs w args (runCommand libs w args) where
  armed := fun spec secrets options h => h.armed
  idle := runCommand_way.idle
  refused := runCommand_way.refused_iff
  unread := by
    intro finish hload
    simp only [runCommand, hload, CommandOutcome.stopped, loadPipeline_error hload]
  missing := by
    intro spec file hload hvalid hfile ref href hnone
    simp only [runCommand, hload, hvalid, gatherSecrets_missing hfile href hnone, ne_eq,
      not_true_eq_false, if_false, CommandOutcome.stopped]
  ok := by
    intro hcode
    rcases runCommand_way.executes_of_ok hcode with
      ⟨spec, secrets, options, result, h, hresult, hstatus⟩
    have haccounts := h.accounts hresult
    refine ⟨spec, secrets, options, result, h, hresult, ?_⟩
    intro node hnode
    have hkey := (haccounts.entries node.id).mpr ⟨node, hnode, rfl⟩
    rcases OrderedDict.exists_get?_of_mem_keys hkey with ⟨nodeResult, hfound⟩
    exact ⟨nodeResult, hfound,
      haccounts.errors_iff.mp (haccounts.status_iff.mp hstatus) node.id nodeResult hfound⟩
  failed := by
    intro spec secrets options result id nodeResult h hresult hnode hstatus
    have hway : ReportWay libs args secrets (commandExecution libs args spec secrets options)
        (runCommand libs w args) := h.runCommand_eq ▸ reportRun_way secrets _
    rcases hway.exitCode with hcode | ⟨_, found, hfound, hok⟩
    · exact hcode
    · cases Except.ok.inj (hresult.symm.trans hfound)
      have haccounts := h.accounts hresult
      exact absurd (haccounts.errors_iff.mp (haccounts.status_iff.mp hok) id nodeResult hnode)
        hstatus
  hidden := by
    intro spec secrets options h hmask
    rw [h.runCommand_eq]
    exact (reportRun_way secrets _).hides hmask

/-! ## The environment -/

section

variable {α ν : Type} (libs : CommandLibraries α ν) (w : World)

/-- The environment variables of the references that the secrets file does not have. -/
def variablesFor (common : CommonOptions) (refs : List String) : List String :=
  match secretsFileValues libs w common with
  | .error _ => []
  | .ok file =>
      (refs.filter fun ref => (file.bind fun values => values.get? ref).isNone).map
        (common.secretsPrefix ++ ·)

/-- The secrets that a command resolves, or how it ends without them; {lean}`none` if it does not
come to them. -/
def resolvedSecrets : Command → Option (Except CommandEnd (OrderedDict String PyText))
  | .run args =>
      match loadPipeline libs w args.pipeline with
      | .error _ => none
      | .ok spec =>
          if staticIssues libs spec = [] then
            some (gatherSecrets libs w args.common (collectSecretRefs spec))
          else none
  | .test source common =>
      match loadSource libs w source with
      | .error _ => none
      | .ok source => some (gatherSecrets libs w common (sortedRefs source.config))
  | .validate _ => none

/-- The environment variables that a command asks for. -/
def askedVariables : Command → List String
  | .run args =>
      match loadPipeline libs w args.pipeline with
      | .error _ => []
      | .ok spec =>
          if staticIssues libs spec = [] then
            variablesFor libs w args.common (collectSecretRefs spec)
          else []
  | .test source common =>
      match loadSource libs w source with
      | .error _ => []
      | .ok source => variablesFor libs w common (sortedRefs source.config)
  | .validate _ => []

end

section

variable {α ν : Type} {libs : CommandLibraries α ν} {w : World}

private theorem gatherSecrets_environ {environ : String → Option PyText} {common : CommonOptions}
    {refs : List String}
    (h : ∀ name ∈ variablesFor libs w common refs, environ name = w.environ name) :
    gatherSecrets libs { w with environ := environ } common refs =
      gatherSecrets libs w common refs := by
  have hvalues : secretsFileValues libs { w with environ := environ } common =
      secretsFileValues libs w common := rfl
  rw [gatherSecrets, gatherSecrets, hvalues]
  cases hfile : secretsFileValues libs w common with
  | error finish => rfl
  | ok file =>
      dsimp only
      rw [gatherRefs_congr]
      intro ref href
      rw [commandSecrets_eq, commandSecrets_eq]
      congr 1
      cases hfound : file.bind fun values => values.get? ref with
      | some value => simp only [secretFor?, hfound, Option.some_or]
      | none =>
          have hasked : common.secretsPrefix ++ ref ∈ variablesFor libs w common refs := by
            simp only [variablesFor, hfile]
            exact List.mem_map_of_mem (List.mem_filter.mpr ⟨href, by rw [hfound]; rfl⟩)
          simp only [secretFor?, hfound, Option.none_or, h _ hasked]

end

/-- The secrets that a command resolves depend on no other variable of the environment than
those of the secrets that its document mentions and that the secrets file does not have; for an
invalid document none is resolved.  Where the libraries do the same, so does the command. -/
theorem command_confined {α ν : Type} (libs : CommandLibraries α ν) (w : World)
    (environ : String → Option PyText) (command : Command)
    (h : ∀ name ∈ askedVariables libs w command, environ name = w.environ name) :
    resolvedSecrets libs { w with environ := environ } command = resolvedSecrets libs w command ∧
      mainCommand libs { w with environ := environ } command = mainCommand libs w command := by
  cases command with
  | run args =>
      have hsame : loadPipeline libs { w with environ := environ } args.pipeline =
          loadPipeline libs w args.pipeline := rfl
      simp only [resolvedSecrets, mainCommand, runCommand, hsame]
      simp only [askedVariables] at h
      cases hload : loadPipeline libs w args.pipeline with
      | error finish => exact ⟨rfl, rfl⟩
      | ok spec =>
          dsimp only
          by_cases hvalid : staticIssues libs spec = []
          · simp only [hload, hvalid, if_true] at h
            rw [gatherSecrets_environ h]
            exact ⟨rfl, rfl⟩
          · rw [if_neg hvalid, if_neg hvalid, if_pos hvalid, if_pos hvalid]
            exact ⟨rfl, rfl⟩
  | test source common =>
      have hsame : loadSource libs { w with environ := environ } source =
          loadSource libs w source := rfl
      simp only [resolvedSecrets, mainCommand, testCommand, hsame]
      simp only [askedVariables] at h
      cases hload : loadSource libs w source with
      | error finish => exact ⟨rfl, rfl⟩
      | ok spec =>
          simp only [hload] at h
          dsimp only
          rw [gatherSecrets_environ h]
          exact ⟨rfl, rfl⟩
  | validate pipeline => exact ⟨rfl, rfl⟩

namespace CommandSamples

/-- An outside in which nothing answers. -/
def offline : Outside where
  isOSError := fun exc => exc.typeName = "OSError"
  reprException := PyException.message
  urlsplit := fun _ => .error ⟨"ValueError", some "offline"⟩
  netlocChecks := ⟨fun _ => true, fun _ => true⟩
  redactValue := fun _ => .ok ""
  apiConfig := fun _ => .error ⟨"ValidationError", some "offline"⟩
  dbConfig := fun _ _ => .error ⟨"ValidationError", some "offline"⟩
  openConnection := fun _ _ => .error ⟨"OSError", some "offline"⟩
  handshake := fun _ _ _ => .error ⟨"OSError", some "offline"⟩
  exchange := fun _ _ => .raised ⟨"ConnectError", some "offline"⟩
  category := fun _ => "network"
  dbCategory := fun _ => ("network", "offline")
  openEngine := .ok ()
  engineConnect := .error ⟨"OSError", some "offline"⟩
  selectOne := .error ⟨"OSError", some "offline"⟩
  engineClose := .ok ()

/-- A document with one secret. -/
def tokenDocument : PipelineSpec :=
  Samples.document [Samples.node "a" "source" [("secret_ref", .str "TOK")]] []

/-- Libraries that read this document from every file. -/
def commandLibraries : CommandLibraries Samples.SampleAddress Samples.SampleNetwork where
  runtime := Samples.runtime
  network := Samples.officeNetwork
  outside := offline
  spelling := ⟨fun _ => "0.0".toList, fun _ => .finite 0⟩
  loads := fun _ => .ok .none
  modelValidateJson := fun _ => .ok tokenDocument
  nodeModelValidate := fun _ => .error ⟨"ValidationError", some "no node"⟩
  engine := fun _ => Samples.engine
  engine_static := fun _ _ => rfl
  schedule := fun _ => []
  modelDump := fun result => .ok (.dict [("pipeline_id", .str result.pipelineId)])
  reportJson := fun _ => ""
  elapsed := "0.00"
  nodeElapsed := fun _ => some "0"
  latency := fun _ => none

/-- An environment with the secret and a variable of the shell. -/
def shell : World where
  readText := fun _ => .ok ""
  writeText := fun _ _ => none
  environ := fun name =>
    if name = "ETL_SECRET_TOK" then some (PyText.ofString "token")
    else if name = "PATH" then some (PyText.ofString "/bin")
    else none

/-- The environment with another variable of the shell. -/
def otherEnviron (name : String) : Option PyText :=
  if name = "ETL_SECRET_TOK" then some (PyText.ofString "token")
  else if name = "HOME" then some (PyText.ofString "/root")
  else none

end CommandSamples

open CommandSamples in
theorem command_confined_shell :
    askedVariables commandLibraries shell (.run { pipeline := "a.json" }) = ["ETL_SECRET_TOK"] ∧
      (mainCommand commandLibraries shell (.run { pipeline := "a.json" })).finish = .returned 0 ∧
      resolvedSecrets commandLibraries { shell with environ := otherEnviron }
        (.run { pipeline := "a.json" }) =
          resolvedSecrets commandLibraries shell (.run { pipeline := "a.json" }) ∧
      mainCommand commandLibraries { shell with environ := otherEnviron }
        (.run { pipeline := "a.json" }) =
          mainCommand commandLibraries shell (.run { pipeline := "a.json" }) := by
  have hasked : askedVariables commandLibraries shell (.run { pipeline := "a.json" }) =
      ["ETL_SECRET_TOK"] := by
    decide +kernel
  refine ⟨hasked, by decide +kernel, ?_⟩
  apply command_confined
  rw [hasked]
  decide +kernel

end EtlTool
