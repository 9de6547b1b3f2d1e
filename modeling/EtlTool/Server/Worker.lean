import EtlTool.Core.Secrets
import EtlTool.Engine.Samples
import EtlTool.Server.LogFlusher

/-!
# The run worker

One call of {lit}`execute_run` as a machine that takes one database statement,
commit or engine step at a time, so that calls can be interleaved with each other
and with readers.  Read committed: a statement sees what is committed before it,
a commit writes the columns that its session has changed, and nothing is locked.

What the call uses of other components is a parameter: the document model, the
cipher, the owner's secret rows, the engine, and the dump of a node result.

Main results:

- Theorem {lit}`Worker.step_spec`: everything that one step can do.
- Theorem {lit}`Worker.finish_eq_ok`: when the final commit of a call succeeds.

Current gaps:

- Timestamps; the deletion of the run or of its pipeline while the call lasts.
- Database errors other than those of values that cannot be serialised.
-/

namespace EtlTool

/-! ## What a call uses -/

/-- {lit}`DbSecretsProvider.get`, over the owner's rows. -/
def dbSecret (cipher : Cipher) (rows : OrderedDict String String) : SecretsProvider := fun ref =>
  match rows.get? ref with
  | none => .error (.notFound ref)
  | some ciphertext =>
      match cipher.decrypt ciphertext with
      | .error exc =>
          if exc.typeName = "CryptoError" then .error (.notFound ref) else .error (.other exc)
      | .ok bytes =>
          match String.fromUTF8? ⟨bytes.toArray⟩ with
          | none => .error (.notFound ref)
          | some text => .ok (PyText.ofString text)

/-- The components that a worker works with. -/
structure Deployment where
  runtime : Runtime
  /-- {lit}`PipelineSpec.model_validate`. -/
  modelValidate : Fields → Except PyException PipelineSpec
  /-- {lit}`settings.secrets_cipher()`. -/
  secretsCipher : Except PyException Cipher
  /-- The stored ciphertexts of an owner, by reference. -/
  secretRows : String → OrderedDict String String
  /-- {lit}`settings.max_run_concurrency`. -/
  maxRunConcurrency : Int
  /-- {lit}`execute_pipeline`: the log events, and how the call ends. -/
  executePipeline : PipelineSpec → OrderedDict String PyText → ExecutionOptions →
    List LogEvent × Except PyException RunResult
  /-- {lit}`model_dump(mode="json")` of a node result. -/
  modelDump : NodeResult → Except PyException Fields

namespace Deployment

/-- {lit}`ExecutionOptions(...)`: the concurrency has to be at least one. -/
def executionOptions (d : Deployment) : Except PyException ExecutionOptions :=
  if h : 1 ≤ d.maxRunConcurrency then
    .ok {
      maxConcurrency := d.maxRunConcurrency.toNat
      continueOnError := false
      maxConcurrency_pos := by omega }
  else .error ⟨"ValidationError", some "Input should be greater than or equal to 1"⟩

/-- Parse the stored document and construct the cipher. -/
def prepare (d : Deployment) (ownerId : String) (spec : Fields) :
    Except PyException (PipelineSpec × SecretsProvider) :=
  match d.modelValidate spec with
  | .error exc => .error exc
  | .ok spec =>
      match d.secretsCipher with
      | .error exc => .error exc
      | .ok cipher => .ok (spec, dbSecret cipher (d.secretRows ownerId))

end Deployment

/-- {lit}`_OUTPUT_RECORD_CAP`. -/
def outputRecordCap : Nat := 1000

/-- {lit}`RunStatus.value`. -/
def RunStatus.value : RunStatus → String
  | succeeded => "succeeded"
  | failed => "failed"

/-- Apply a partial function to the values of a list of pairs. -/
def dumpPairs {α : Type} (dump : α → Except PyException Value) :
    List (String × α) → Except PyException Fields
  | [] => .ok []
  | (key, item) :: rest =>
      match dump item with
      | .error exc => .error exc
      | .ok value =>
          match dumpPairs dump rest with
          | .error exc => .error exc
          | .ok fields => .ok ((key, value) :: fields)

/-- {lit}`_trimmed_result`. -/
def trimmedResult (d : Deployment) (result : RunResult) : Except PyException Value :=
  match dumpPairs (fun nr => (d.modelDump nr).map Value.dict) result.nodeResults.entries with
  | .error exc => .error exc
  | .ok nodeResults =>
      .ok (.dict [
        ("status", .str result.status.value),
        ("node_results", .dict nodeResults),
        ("outputs", .dict (result.outputs.entries.map fun entry =>
          (entry.1, .list ((entry.2.take outputRecordCap).map Value.dict)))),
        ("outputs_truncated",
          .bool (result.outputs.values.any fun records => decide (outputRecordCap < records.length)))])

/-- The structured error of a missing secret. -/
def missingSecretError (rt : Runtime) (ref : String) : NodeError where
  nodeId := "__pipeline__"
  nodeType := "pipeline"
  category := .config
  message := "secret " ++ rt.reprStr ref ++ " is not configured for this user"
  httpStatus := none
  requestSummary := none
  attempts := 1
  details := none

/-- The final status of a run. -/
def RunStatus.state : RunStatus → RunState
  | succeeded => .succeeded
  | failed => .failed

/-! ## The machine -/

/-- Where a call stands. -/
inductive Phase where
  | start
  /-- The run is queued; its pipeline has not been read. -/
  | sawRun (loaded : Run)
  /-- The pipeline has been read; the claim is to be committed. -/
  | sawPipeline (loaded : Run) (spec : Option Fields)
  /-- The claim is committed. -/
  | claimed (ownerId : String) (spec : Fields)
  | prepared (spec : PipelineSpec) (provider : SecretsProvider)
  /-- {lit}`_fail_run` is called. -/
  | missing (ref : String)
  | failing (loaded : Run) (ref : String)
  /-- The engine runs, with the flusher beside it. -/
  | flying (outcome : Except PyException RunResult) (flight : Flight)
  | landed (result : RunResult)
  | finishing (loaded : Run) (result : RunResult)
  | returned
  | raised (exc : PyException)

/-- How far a call has come. -/
inductive Stage where
  | fresh
  /-- Between the read of the status and the commit of the claim. -/
  | claiming
  /-- The run is claimed, and the engine has not been called. -/
  | waiting
  | flying
  | closing
  | ended
deriving DecidableEq

/-- The stage of a phase. -/
def Phase.stage : Phase → Stage
  | start => .fresh
  | sawRun _ => .claiming
  | sawPipeline _ _ => .claiming
  | claimed _ _ => .waiting
  | prepared _ _ => .waiting
  | missing _ => .closing
  | failing _ _ => .closing
  | flying _ _ => .flying
  | landed _ => .closing
  | finishing _ _ => .closing
  | returned => .ended
  | raised _ => .ended

/-- The next step of a call. -/
inductive WorkerAction where
  | readRun
  | readPipeline
  | commitClaim
  | prepare
  | resolve
  | readFailing
  | commitFailing
  | fly (a : FlightAction)
  /-- {lit}`await flush_task`. -/
  | land
  | readFinishing
  | commitFinishing
deriving DecidableEq

namespace Worker

/-- An {lit}`UPDATE` of a row that is gone. -/
def staleDataError : PyException where
  typeName := "StaleDataError"
  text := some "UPDATE statement on table 'runs' expected to update 1 row(s); 0 were matched."

/-- Write the columns that a session has changed. -/
def writeRun (loaded assigned stored : Run) : Run where
  ownerId := stored.ownerId
  status := ormWrite loaded.status assigned.status stored.status
  errorCount := ormWrite loaded.errorCount assigned.errorCount stored.errorCount
  result := ormWrite loaded.result assigned.result stored.result

/-- Commit a changed run together with new error rows. -/
def commit (db : Database) (loaded assigned : Run) (errors : List NodeError) :
    Except PyException Database :=
  match db.run with
  | none => .error staleDataError
  | some stored =>
      .ok { db with run := some (writeRun loaded assigned stored), errors := db.errors ++ errors }

/-- The end of a session: its commit, and where the call goes on. -/
def endSession (db : Database) (committed : Except PyException Database) (next : Phase) :
    Database × Phase :=
  match committed with
  | .error exc => (db, .raised exc)
  | .ok db' => (db', next)

/-- What resolving the secrets leads to. -/
def resolve (d : Deployment) (spec : PipelineSpec) (provider : SecretsProvider) : Phase :=
  match resolveSecrets spec provider with
  | .error (.notFound ref) => .missing ref
  | .error (.other exc) => .raised exc
  | .ok secrets =>
      match d.executionOptions with
      | .error exc => .raised exc
      | .ok options =>
          .flying (d.executePipeline spec secrets options).2
            (.initial (d.executePipeline spec secrets options).1)

/-- What awaiting the flusher leads to. -/
def land (outcome : Except PyException RunResult) (flight : Flight) : Option Phase :=
  match flight.stop, flight.flusher, outcome with
  | true, .returned, .ok result => some (.landed result)
  | true, .returned, .error exc => some (.raised exc)
  | true, .raised exc, _ => some (.raised exc)
  | _, _, _ => none

/-- The final commit of a call. -/
def finish (d : Deployment) (db : Database) (loaded : Run) (result : RunResult) :
    Except PyException Database :=
  match trimmedResult d result with
  | .error exc => .error exc
  | .ok json =>
      if (result.errors.all fun error => d.runtime.dumpableColumn error.details) ∧
          d.runtime.dumpable json then
        commit db loaded {
          loaded with
          status := result.status.state
          errorCount := result.errors.length
          result := some json } result.errors
      else .error Flight.statementError

/-- One step of a call. -/
def step (d : Deployment) (db : Database) : Phase → WorkerAction → Option (Database × Phase)
  | .start, .readRun =>
      match db.run with
      | none => some (db, .returned)
      | some run => some (db, if run.status = .queued then .sawRun run else .returned)
  | .sawRun loaded, .readPipeline => some (db, .sawPipeline loaded db.pipelineSpec)
  | .sawPipeline loaded none, .commitClaim =>
      some (endSession db (commit db loaded { loaded with status := .failed } []) .returned)
  | .sawPipeline loaded (some spec), .commitClaim =>
      some (endSession db (commit db loaded { loaded with status := .running } [])
        (.claimed loaded.ownerId spec))
  | .claimed ownerId spec, .prepare =>
      match d.prepare ownerId spec with
      | .error exc => some (db, .raised exc)
      | .ok (spec, provider) => some (db, .prepared spec provider)
  | .prepared spec provider, .resolve => some (db, resolve d spec provider)
  | .missing ref, .readFailing =>
      match db.run with
      | none => some (db, .returned)
      | some run => some (db, .failing run ref)
  | .failing loaded ref, .commitFailing =>
      some (endSession db (commit db loaded { loaded with status := .failed, errorCount := 1 }
        [missingSecretError d.runtime ref]) .returned)
  | .flying outcome flight, .fly a =>
      (flight.step d.runtime db.logs a).map fun next =>
        ({ db with logs := next.1 }, .flying outcome next.2)
  | .flying outcome flight, .land => (land outcome flight).map fun phase => (db, phase)
  | .landed result, .readFinishing =>
      match db.run with
      | none => some (db, .returned)
      | some run => some (db, .finishing run result)
  | .finishing loaded result, .commitFinishing =>
      some (endSession db (finish d db loaded result) .returned)
  | _, _ => none

/-! ## What one step can do -/

theorem commit_eq_ok {db db' : Database} {loaded assigned : Run} {errors : List NodeError} :
    commit db loaded assigned errors = .ok db' ↔ ∃ stored, db.run = some stored ∧
      db' = { db with
        run := some (writeRun loaded assigned stored)
        errors := db.errors ++ errors } := by
  unfold commit
  cases db.run with
  | none => simp
  | some stored => simp [eq_comm]

/-- Everything that one step can do. -/
inductive Step (d : Deployment) (db : Database) : Phase → Database → Phase → Prop where
  | ignored (h : ∀ run, db.run = some run → run.status ≠ .queued) :
      Step d db .start db .returned
  | found (run : Run) (hrun : db.run = some run) (hqueued : run.status = .queued) :
      Step d db .start db (.sawRun run)
  | looked (loaded : Run) :
      Step d db (.sawRun loaded) db (.sawPipeline loaded db.pipelineSpec)
  | rejected (loaded : Run) (db' : Database)
      (hcommit : commit db loaded { loaded with status := .failed } [] = .ok db') :
      Step d db (.sawPipeline loaded none) db' .returned
  | claimed (loaded : Run) (spec : Fields) (db' : Database)
      (hcommit : commit db loaded { loaded with status := .running } [] = .ok db') :
      Step d db (.sawPipeline loaded (some spec)) db' (.claimed loaded.ownerId spec)
  | unclaimed (loaded : Run) (spec : Option Fields) (exc : PyException) (hrun : db.run = none) :
      Step d db (.sawPipeline loaded spec) db (.raised exc)
  | unprepared (ownerId : String) (spec : Fields) (exc : PyException)
      (hprepare : d.prepare ownerId spec = .error exc) :
      Step d db (.claimed ownerId spec) db (.raised exc)
  | prepared (ownerId : String) (fields : Fields) (spec : PipelineSpec)
      (provider : SecretsProvider) (hprepare : d.prepare ownerId fields = .ok (spec, provider)) :
      Step d db (.claimed ownerId fields) db (.prepared spec provider)
  | resolved (spec : PipelineSpec) (provider : SecretsProvider) :
      Step d db (.prepared spec provider) db (resolve d spec provider)
  | failingGone (ref : String) (hrun : db.run = none) : Step d db (.missing ref) db .returned
  | failingFound (ref : String) (run : Run) (hrun : db.run = some run) :
      Step d db (.missing ref) db (.failing run ref)
  | failed (loaded : Run) (ref : String) (db' : Database)
      (hcommit : commit db loaded { loaded with status := .failed, errorCount := 1 }
        [missingSecretError d.runtime ref] = .ok db') :
      Step d db (.failing loaded ref) db' .returned
  | unfailed (loaded : Run) (ref : String) (exc : PyException) (hrun : db.run = none) :
      Step d db (.failing loaded ref) db (.raised exc)
  | flew (outcome : Except PyException RunResult) (flight flight' : Flight) (logs : List RunLog)
      (hflight : Flight.Step d.runtime db.logs flight logs flight') :
      Step d db (.flying outcome flight) { db with logs := logs } (.flying outcome flight')
  | landed (outcome : Except PyException RunResult) (flight : Flight) (phase : Phase)
      (hland : land outcome flight = some phase) : Step d db (.flying outcome flight) db phase
  | finishingGone (result : RunResult) (hrun : db.run = none) :
      Step d db (.landed result) db .returned
  | finishingFound (result : RunResult) (run : Run) (hrun : db.run = some run) :
      Step d db (.landed result) db (.finishing run result)
  | finished (loaded : Run) (result : RunResult) (db' : Database)
      (hfinish : finish d db loaded result = .ok db') :
      Step d db (.finishing loaded result) db' .returned
  | unfinished (loaded : Run) (result : RunResult) (exc : PyException)
      (hfinish : finish d db loaded result = .error exc) :
      Step d db (.finishing loaded result) db (.raised exc)

private theorem commit_error {db : Database} {loaded assigned : Run} {errors : List NodeError}
    {exc : PyException} (h : commit db loaded assigned errors = .error exc) : db.run = none := by
  unfold commit at h
  cases hrun : db.run with
  | none => rfl
  | some stored => simp [hrun] at h

theorem step_spec {d : Deployment} {db db' : Database} {p p' : Phase} {a : WorkerAction}
    (h : step d db p a = some (db', p')) : Step d db p db' p' := by
  unfold step at h
  split at h
  · cases hrun : db.run with
    | none =>
        simp only [hrun, Option.some.injEq, Prod.mk.injEq] at h
        rcases h with ⟨rfl, rfl⟩
        exact .ignored (by simp [hrun])
    | some run =>
        simp only [hrun, Option.some.injEq, Prod.mk.injEq] at h
        rcases h with ⟨rfl, rfl⟩
        split
        · rename_i hqueued
          exact .found run hrun hqueued
        · rename_i hother
          exact .ignored (by simpa [hrun] using hother)
  · cases h
    exact .looked _
  · rename_i loaded
    unfold endSession at h
    split at h
    · rename_i exc hcommit
      cases h
      exact .unclaimed loaded none exc (commit_error hcommit)
    · rename_i hcommit
      cases h
      exact .rejected loaded _ hcommit
  · rename_i loaded spec
    unfold endSession at h
    split at h
    · rename_i exc hcommit
      cases h
      exact .unclaimed loaded (some spec) exc (commit_error hcommit)
    · rename_i hcommit
      cases h
      exact .claimed loaded spec _ hcommit
  · rename_i ownerId spec
    split at h
    · rename_i exc hprepare
      cases h
      exact .unprepared ownerId spec exc hprepare
    · rename_i document provider hprepare
      cases h
      exact .prepared ownerId spec document provider hprepare
  · cases h
    exact .resolved _ _
  · rename_i ref
    split at h
    · rename_i hrun
      cases h
      exact .failingGone ref hrun
    · rename_i run hrun
      cases h
      exact .failingFound ref run hrun
  · rename_i loaded ref
    unfold endSession at h
    split at h
    · rename_i exc hcommit
      cases h
      exact .unfailed loaded ref exc (commit_error hcommit)
    · rename_i hcommit
      cases h
      exact .failed loaded ref _ hcommit
  · rename_i outcome flight a
    rcases Option.map_eq_some_iff.mp h with ⟨⟨logs, flight'⟩, hflight, heq⟩
    cases heq
    exact .flew outcome flight flight' logs (Flight.step_spec hflight)
  · rename_i outcome flight
    rcases Option.map_eq_some_iff.mp h with ⟨phase, hland, heq⟩
    cases heq
    exact .landed outcome flight _ hland
  · rename_i result
    split at h
    · rename_i hrun
      cases h
      exact .finishingGone result hrun
    · rename_i run hrun
      cases h
      exact .finishingFound result run hrun
  · rename_i loaded result
    unfold endSession at h
    split at h
    · rename_i exc hfinish
      cases h
      exact .unfinished loaded result exc hfinish
    · rename_i hfinish
      cases h
      exact .finished loaded result _ hfinish
  · cases h

theorem finish_eq_ok {d : Deployment} {db db' : Database} {loaded : Run} {result : RunResult} :
    finish d db loaded result = .ok db' ↔ ∃ json, trimmedResult d result = .ok json ∧
      (result.errors.all fun error => d.runtime.dumpableColumn error.details) = true ∧
      d.runtime.dumpable json = true ∧
      commit db loaded {
        loaded with
        status := result.status.state
        errorCount := result.errors.length
        result := some json } result.errors = .ok db' := by
  unfold finish
  cases trimmedResult d result with
  | error exc => simp
  | ok json =>
      simp only [Except.ok.injEq, exists_eq_left']
      split
      · rename_i hdump
        simp [hdump.1, hdump.2]
      · rename_i hdump
        simp only [reduceCtorEq, false_iff]
        intro h
        exact hdump ⟨h.1, h.2.1⟩

/-- A commit writes a status that its session has changed. -/
theorem commit_status {db db' : Database} {loaded assigned : Run} {errors : List NodeError}
    (h : commit db loaded assigned errors = .ok db') (hchanged : assigned.status ≠ loaded.status) :
    ∃ before, db.status = some before ∧ db'.status = some assigned.status := by
  rcases commit_eq_ok.mp h with ⟨stored, hrun, rfl⟩
  refine ⟨stored.status, by simp [Database.status, hrun], ?_⟩
  simp [Database.status, writeRun, ormWrite_of_changed hchanged]

theorem state_terminal (status : RunStatus) : status.state.terminal = true := by
  cases status <;> rfl

/-- What awaiting the flusher can lead to. -/
theorem land_cases {outcome : Except PyException RunResult} {flight : Flight} {phase : Phase}
    (h : land outcome flight = some phase) : flight.stop = true ∧
    ((flight.flusher = .returned ∧ ∃ result, outcome = .ok result ∧ phase = .landed result) ∨
      (flight.flusher = .returned ∧ ∃ exc, outcome = .error exc ∧ phase = .raised exc) ∨
      ∃ exc, flight.flusher = .raised exc ∧ phase = .raised exc) := by
  unfold land at h
  split at h
  · rename_i result hstop hflusher
    cases h
    exact ⟨hstop, Or.inl ⟨hflusher, result, rfl, rfl⟩⟩
  · rename_i exc hstop hflusher
    cases h
    exact ⟨hstop, Or.inr (Or.inl ⟨hflusher, exc, rfl, rfl⟩)⟩
  · rename_i exc hstop hflusher
    cases h
    exact ⟨hstop, Or.inr (Or.inr ⟨exc, hflusher, rfl⟩)⟩
  · cases h

/-- What resolving the secrets can lead to. -/
theorem resolve_cases (d : Deployment) (spec : PipelineSpec) (provider : SecretsProvider) :
    (∃ ref, resolveSecrets spec provider = .error (.notFound ref) ∧
      resolve d spec provider = .missing ref) ∨
    (∃ exc, resolveSecrets spec provider = .error (.other exc) ∧
      resolve d spec provider = .raised exc) ∨
    ∃ secrets, resolveSecrets spec provider = .ok secrets ∧
      ((∃ exc, d.executionOptions = .error exc ∧ resolve d spec provider = .raised exc) ∨
        ∃ options, d.executionOptions = .ok options ∧
          resolve d spec provider = .flying (d.executePipeline spec secrets options).2
            (.initial (d.executePipeline spec secrets options).1)) := by
  unfold resolve
  cases hsecrets : resolveSecrets spec provider with
  | error failure =>
      cases failure with
      | notFound ref => exact Or.inl ⟨ref, rfl, rfl⟩
      | other exc => exact Or.inr (Or.inl ⟨exc, rfl, rfl⟩)
  | ok secrets =>
      refine Or.inr (Or.inr ⟨secrets, rfl, ?_⟩)
      cases d.executionOptions with
      | error exc => exact Or.inl ⟨exc, rfl, rfl⟩
      | ok options => exact Or.inr ⟨options, rfl, rfl⟩

end Worker

namespace Samples

/-- A queued run of a stored document. -/
def queuedRun : Database where
  run := some ⟨"owner", .queued, 0, none⟩
  pipelineSpec := some []
  logs := []
  errors := []

/-- The first log line of a run. -/
def startEvent : LogEvent where
  level := .info
  nodeId := none
  message := "starting pipeline"
  data := none

/-- A deployment of an engine in which the stored document is the given one, without
secrets. -/
def deployment (en : Engine) (document : PipelineSpec) : Deployment where
  runtime := runtime
  modelValidate := fun _ => .ok document
  secretsCipher := .ok ⟨fun _ => .error ⟨"CryptoError", some "wrong key"⟩⟩
  secretRows := fun _ => .empty
  maxRunConcurrency := 8
  executePipeline := fun spec secrets options =>
    ([startEvent], (en.executePipeline (fun _ => []) spec secrets options).outcome)
  modelDump := fun nr => .ok [("node_id", .str nr.nodeId)]

/-- The steps of a call from its claim to its end, with one log line. -/
def claimedCall (id : Nat) : List WorkerAction :=
  [.commitClaim, .prepare, .resolve, .fly .emit, .fly .engineEnds, .fly .collect,
    .fly (.commit [id]), .fly .check, .land, .readFinishing, .commitFinishing]

end Samples

end EtlTool
